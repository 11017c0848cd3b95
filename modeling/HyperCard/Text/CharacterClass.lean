/-!
# Character classes of script text

The classes are fixed sets of Mac OS Roman bytes. They decide where words end, so they follow
their own tables: many accented capitals are not letters, an at sign is a symbol and a dollar
sign is not. Blanks are the space and the tabulation only, because a carriage return ends a
line. Case is folded in ASCII alone.
-/
namespace HyperCard.Character

/-- Ends a line of a script. -/
abbrev carriageReturn : UInt8 := 0x0D

/-- Ends a line of text from elsewhere. -/
abbrev lineFeed : UInt8 := 0x0A

/-- Opens and closes a string. -/
abbrev quote : UInt8 := 0x22

/-- Divides the whole part of a number from its fraction. -/
abbrev point : UInt8 := 0x2E

/-- The digit zero. -/
abbrev zero : UInt8 := 0x30

/-- The space. -/
abbrev space : UInt8 := 0x20

/-- The horizontal tabulation. -/
abbrev tabulation : UInt8 := 0x09

/-- Begins a comment when doubled. -/
abbrev hyphen : UInt8 := 0x2D

/-- At the end of a line, joins it with the next one. -/
abbrev continuation : UInt8 := 0xC2

/-- Spaces and tabulations. -/
def isBlank (character : UInt8) : Bool := character == space || character == tabulation

/-- The ten ASCII digits. -/
def isDigit (character : UInt8) : Bool := 0x30 ≤ character && character ≤ 0x39

/-- The 26 ASCII capitals. -/
def isCapital (character : UInt8) : Bool := 0x41 ≤ character && character ≤ 0x5A

/-- The small letter of an ASCII capital; other characters are unchanged. -/
def toLower (character : UInt8) : UInt8 :=
  if isCapital character then character + 0x20 else character

/-- Letters outside ASCII that stand outside the two ranges of accented letters. -/
def strayLetters : List UInt8 := [0xA7, 0xAE, 0xAF, 0xBE, 0xBF]

/-- Letters, which may begin a word. -/
def isLetter (character : UInt8) : Bool :=
  isCapital character || (0x61 ≤ character && character ≤ 0x7A) ||
    (0x80 ≤ character && character ≤ 0x9F) || (0xCB ≤ character && character ≤ 0xCF) ||
    strayLetters.contains character

/-- Letters and digits, of which words are made. -/
def isAlphanumeric (character : UInt8) : Bool := isLetter character || isDigit character

/-- Characters that are always a token of their own. -/
def symbols : List UInt8 :=
  [0x21, 0x26, 0x28, 0x29, 0x2A, 0x2B, 0x2C, 0x2D, 0x2F, 0x3A, 0x3C, 0x3D, 0x3E, 0x40, 0x5B,
    0x5D, 0x5E, 0x7B, 0x7C, 0x7D, 0xAD, 0xB2, 0xB3]

/-- Whether a character is always a token of its own. -/
def isSymbol (character : UInt8) : Bool := symbols.contains character

/-- Characters other than letters and digits that a double click selects with a word. -/
def wordMarks : List UInt8 := [0x24, 0x25, 0x27, 0xA2, 0xA3, 0xB4, 0xBB, 0xBC, 0xCA, 0xD8]

/-- Characters that a double click selects with a word. -/
def isWordElement (character : UInt8) : Bool :=
  isAlphanumeric character || wordMarks.contains character

/-- The value of a digit. -/
def digitValue? (character : UInt8) : Option Nat :=
  if isDigit character then some (character.toNat - 0x30) else none

/-- Two letters or digits in a row belong to one word, so no token ends between them. -/
def joinsWord (previous : Option UInt8) (character : UInt8) : Bool :=
  isAlphanumeric character && previous.any isAlphanumeric

end HyperCard.Character
