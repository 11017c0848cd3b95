import HyperCard.Bytes.Window

/-!
# Type codes and headers of blocks

A stack file is a sequence of blocks. Each begins with twelve bytes: its length, header
included, the four characters of its type, and an identifier that is unique within the type.
-/
namespace HyperCard

/-- The four characters of a type, as one number with the first character highest. -/
structure TypeCode where
  /-- The number. -/
  number : UInt32
  deriving DecidableEq, Repr, Hashable, Inhabited

namespace TypeCode

/-- The code of four bytes. -/
def ofBytes (first second third fourth : UInt8) : TypeCode :=
  ⟨first.toUInt32 <<< 24 ||| second.toUInt32 <<< 16 ||| third.toUInt32 <<< 8 |||
    fourth.toUInt32⟩

/-- The four bytes of a code. -/
def bytes (code : TypeCode) : List UInt8 :=
  [(code.number >>> 24).toUInt8, (code.number >>> 16).toUInt8, (code.number >>> 8).toUInt8,
    code.number.toUInt8]

/-- The block about the whole stack. -/
def stack : TypeCode := ⟨0x5354414B⟩

/-- The directory of blocks. -/
def master : TypeCode := ⟨0x4D415354⟩

/-- The directory of pages. -/
def list : TypeCode := ⟨0x4C495354⟩

/-- A page of references to cards. -/
def page : TypeCode := ⟨0x50414745⟩

/-- A card. -/
def card : TypeCode := ⟨0x43415244⟩

/-- A background. -/
def background : TypeCode := ⟨0x424B4744⟩

/-- A picture. -/
def bitmap : TypeCode := ⟨0x424D4150⟩

/-- The table of text styles. -/
def styleTable : TypeCode := ⟨0x5354424C⟩

/-- The table of fonts. -/
def fontTable : TypeCode := ⟨0x4654424C⟩

/-- The code of a text of four ASCII characters. -/
def parse? (text : String) : Option TypeCode :=
  match text.toUTF8.toList with
  | [first, second, third, fourth] =>
    if [first, second, third, fourth].all (· < 0x80) then
      some (ofBytes first second third fourth)
    else none
  | _ => none

/-- A byte of a code as a character; what is neither a space nor a graphic ASCII character shows
as a question mark. -/
def shown (byte : UInt8) : Char :=
  if 0x20 ≤ byte && byte < 0x7F then Char.ofNat byte.toNat else '?'

/-- The four characters of a code. -/
def text (code : TypeCode) : String := String.ofList (code.bytes.map shown)

/-- The code in one line. -/
def summary (code : TypeCode) : String := "NumericName(" ++ code.text ++ ")"

end TypeCode

/-- The twelve bytes that every block begins with. -/
structure BlockHeader where
  /-- The length of the block with its header. -/
  length : Nat
  /-- The type. -/
  tag : TypeCode
  /-- The identifier. -/
  identifier : Int
  deriving DecidableEq, Repr

namespace BlockHeader

/-- The number of bytes of a header. -/
def size : Nat := 12

/-- The header at an offset. -/
def read (data : Window) (offset : Nat) : Except ReadError BlockHeader := do
  let window ← data.sub offset size
  return {
    length := ← window.unsigned 4 0
    tag := ⟨UInt32.ofNat (← window.unsigned 4 4)⟩
    identifier := ← window.signed 4 8 }

end BlockHeader
end HyperCard
