import HyperCard.Text.RomanString

/-!
# Statements of a script

A script is divided into physical lines by carriage returns, or by line feeds where it has no
carriage return; a line feed at the start of a line belongs to the line end before it. Two
hyphens outside quotes begin a comment. A line whose code ends in the continuation mark goes on
with the next line, with a space in place of the mark. Statements without text are dropped.
-/
namespace HyperCard

/-- A statement, its lines joined. -/
structure Statement where
  /-- The number of its first physical line, counted from one. -/
  number : Nat
  /-- Its text without comments and without blanks around it. -/
  text : RomanString
  deriving DecidableEq, Repr

namespace Statement

/-- The pieces of a text between separators; a text without separators is one piece. -/
def split (separator : UInt8) : List UInt8 → List (List UInt8)
  | [] => [[]]
  | character :: rest =>
    if character == separator then [] :: split separator rest
    else
      match split separator rest with
      | [] => [[character]]
      | piece :: pieces => (character :: piece) :: pieces

/-- The character that divides the lines of a script. -/
def separator (characters : List UInt8) : UInt8 :=
  if characters.contains Character.carriageReturn then Character.carriageReturn
  else Character.lineFeed

/-- A line up to its comment. The flag says whether the line starts within quotes. -/
def beforeComment : Bool → List UInt8 → List UInt8
  | _, [] => []
  | quoted, character :: rest =>
    if character == Character.quote then character :: beforeComment (!quoted) rest
    else if !quoted && character == Character.hyphen && rest.head? == some Character.hyphen then []
    else character :: beforeComment quoted rest

/-- A line without the line feed that ends the line before it. -/
def dropLineFeed : List UInt8 → List UInt8
  | character :: rest =>
    if character == Character.lineFeed then rest else character :: rest
  | [] => []

/-- The code of a physical line: no comment and no blanks at its end. -/
def code (line : List UInt8) : List UInt8 :=
  RomanString.dropFinalBlanks (beforeComment false (dropLineFeed line))

/-- Whether the code of a line goes on with the next line. -/
def isContinued (code : List UInt8) : Bool := code.getLast? == some Character.continuation

/-- Join lines that go on with the next one, each line given by its number and its code; a space
takes the place of the mark. -/
def join : List (Nat × List UInt8) → List (Nat × List UInt8)
  | [] => []
  | (number, code) :: lines =>
    if isContinued code then
      let opening := code.dropLast ++ [Character.space]
      match join lines with
      | [] => [(number, opening)]
      | (_, text) :: statements => (number, opening ++ text) :: statements
    else (number, code) :: join lines

/-- The numbered codes of the physical lines of a script. -/
def lines (characters : List UInt8) : List (Nat × List UInt8) :=
  (split (separator characters) characters).mapIdx fun index line => (index + 1, code line)

/-- A statement of joined lines, if it has any text. -/
def ofJoined? (number : Nat) (characters : List UInt8) : Option Statement :=
  let text := RomanString.trimmed ⟨characters⟩
  if text.isEmpty then none else some ⟨number, text⟩

end Statement

/-- The statements of a script, in order. -/
def RomanString.statements (script : RomanString) : List Statement :=
  (Statement.join (Statement.lines script.characters)).filterMap fun (number, characters) =>
    Statement.ofJoined? number characters

end HyperCard
