import HyperCard.Text.MacRoman
import HyperCard.Text.CharacterClass
import HyperCard.Text.Quoted

/-!
# Strings of Mac OS Roman text

The text of stacks and scripts is a list of bytes, one for each character. Decoding is total;
encoding stops at the first character without a byte. Strings compare byte by byte.
-/
namespace HyperCard

/-- Text as a stack stores it, one byte a character. -/
structure RomanString where
  /-- The bytes in order. -/
  characters : List UInt8
  deriving DecidableEq, Repr, Inhabited

/-- Why a text cannot be encoded. -/
inductive EncodingError
  /-- The first character that Mac OS Roman does not have. -/
  | unrepresentable (character : Char)
  deriving DecidableEq, Repr

/-- The wording of an encoding error. -/
def EncodingError.message : EncodingError → String
  | .unrepresentable character =>
    "character " ++ Quoted.ofChar character ++ " cannot be encoded in Mac OS Roman"

namespace RomanString

/-- The string without characters. -/
def empty : RomanString := ⟨[]⟩

/-- The characters that the bytes stand for. -/
def decode (text : RomanString) : String := String.ofList (text.characters.map MacRoman.decode)

/-- The bytes of a text, or its first character that has none. -/
def encode (text : String) : Except EncodingError RomanString :=
  RomanString.mk <$> text.toList.mapM fun character =>
    match MacRoman.encode? character with
    | some byte => .ok byte
    | none => .error (.unrepresentable character)

/-- The bytes of a text, or the bytes of its UTF-8 form where it cannot be encoded. -/
def encodeOrRaw (text : String) : RomanString :=
  match encode text with
  | .ok encoded => encoded
  | .error _ => ⟨text.toUTF8.toList⟩

/-- Number of characters. -/
def length (text : RomanString) : Nat := text.characters.length

/-- Whether there is no character. -/
def isEmpty (text : RomanString) : Bool := text.characters.isEmpty

/-- The character at an index. -/
def get? (text : RomanString) (index : Nat) : Option UInt8 := text.characters[index]?

/-- One more character at the end. -/
def push (text : RomanString) (character : UInt8) : RomanString := ⟨text.characters ++ [character]⟩

/-- Two strings in order. -/
def append (left right : RomanString) : RomanString := ⟨left.characters ++ right.characters⟩

instance : Append RomanString := ⟨append⟩

/-- The string with its ASCII capitals made small. -/
def toLower (text : RomanString) : RomanString := ⟨text.characters.map Character.toLower⟩

/-- Equality up to the case of ASCII letters. -/
def equalIgnoringCase (left right : RomanString) : Bool := left.toLower = right.toLower

/-- Order of the first bytes that differ; a string comes before those it begins. -/
def order : List UInt8 → List UInt8 → Ordering
  | [], [] => .eq
  | [], _ :: _ => .lt
  | _ :: _, [] => .gt
  | left :: lefts, right :: rights => (compare left right).then (order lefts rights)

instance : Ord RomanString := ⟨fun left right => order left.characters right.characters⟩

/-- Drop the blanks at the front of a list of characters. -/
def dropBlanks (characters : List UInt8) : List UInt8 := characters.dropWhile Character.isBlank

/-- Drop the blanks at the end of a list of characters. -/
def dropFinalBlanks (characters : List UInt8) : List UInt8 :=
  (dropBlanks characters.reverse).reverse

/-- The string without blanks around it. -/
def trimmed (text : RomanString) : RomanString := ⟨dropFinalBlanks (dropBlanks text.characters)⟩

/-- The string as an outline writes it. -/
def quoted (text : RomanString) : String := "HString(" ++ Quoted.ofString text.decode ++ ")"

end RomanString
end HyperCard
