import HyperCard.Number.Hexadecimal
import HyperCard.Rectangle
import HyperCard.Text.RomanString

/-!
# Windows on a file

A window is a run of bytes of a file. Reads name an offset from the start of the window and fail
where the bytes asked for do not all lie inside it; no read sees a byte outside. A window cut
from another one shares its file, and its position in the file adds up. Numbers are stored with
their highest byte first, signed ones in two's complement.
-/
namespace HyperCard

/-- Why a read fails. -/
inductive ReadError
  /-- The bytes asked for do not all lie inside the window. -/
  | outOfBounds (offset length available : Nat)
  /-- A text does not end inside the window. -/
  | missingTerminator (offset : Nat)
  deriving DecidableEq, Repr

/-- The wording of a read error. -/
def ReadError.message : ReadError → String
  | .outOfBounds offset length available =>
    "read of " ++ toString length ++ " bytes at offset " ++ Hexadecimal.marked offset ++
      " exceeds range of " ++ toString available ++ " bytes"
  | .missingTerminator offset =>
    "string at offset " ++ Hexadecimal.marked offset ++ " has no terminator"

/-- A run of bytes of a file. -/
structure Window where
  /-- The whole file. -/
  file : Array UInt8
  /-- Where the window begins in the file. -/
  start : Nat
  /-- The number of bytes. -/
  length : Nat
  /-- The window lies inside the file. -/
  inside : start + length ≤ file.size := by omega

namespace Window

/-- The window on a whole file. -/
def ofArray (file : Array UInt8) : Window := ⟨file, 0, file.size, by omega⟩

instance : Inhabited Window := ⟨ofArray #[]⟩

/-- The bytes from an offset on, at most so many. -/
def slice (window : Window) (offset length : Nat) : List UInt8 :=
  let first := window.start + offset
  let last := window.start + min (offset + length) window.length
  (window.file.extract first last).toList

/-- All bytes of the window. -/
def toList (window : Window) : List UInt8 := window.slice 0 window.length

/-- Whether the window has no bytes. -/
def isEmpty (window : Window) : Bool := window.length == 0

instance : BEq Window :=
  ⟨fun left right => left.start == right.start && left.toList == right.toList⟩

/-- The position and size of a window in one line. -/
def summary (window : Window) : String :=
  "DataRange \x7b offset: " ++ toString window.start ++ ", length: " ++ toString window.length ++
    " \x7d"

/-- A window on a part of the window. -/
def sub (window : Window) (offset length : Nat) : Except ReadError Window :=
  if inside : offset + length ≤ window.length then
    .ok ⟨window.file, window.start + offset, length, by have := window.inside; omega⟩
  else .error (.outOfBounds offset length window.length)

/-- So many bytes. -/
def bytes (window : Window) (offset length : Nat) : Except ReadError (List UInt8) :=
  if offset + length ≤ window.length then .ok (window.slice offset length)
  else .error (.outOfBounds offset length window.length)

/-- One byte. -/
def byte (window : Window) (offset : Nat) : Except ReadError UInt8 :=
  if within : offset < window.length then
    have := window.inside
    .ok window.file[window.start + offset]
  else .error (.outOfBounds offset 1 window.length)

/-- The number that bytes stand for, the highest first. -/
def naturalOf (bytes : List UInt8) : Nat :=
  bytes.foldl (fun value byte => 256 * value + byte.toNat) 0

/-- The number that so many bytes stand for in two's complement. -/
def twosComplement (size value : Nat) : Int :=
  let modulus := Nat.pow 256 size
  if 2 * value < modulus then value else (value : Int) - modulus

/-- A number without sign, of so many bytes. -/
def unsigned (window : Window) (size offset : Nat) : Except ReadError Nat :=
  naturalOf <$> window.bytes offset size

/-- A number with sign, of so many bytes. -/
def signed (window : Window) (size offset : Nat) : Except ReadError Int :=
  twosComplement size <$> window.unsigned size offset

/-- One bit of a number of two bytes, the lowest being bit 0; higher bits than it has are off. -/
def flag (window : Window) (offset bit : Nat) : Except ReadError Bool :=
  (·.testBit bit) <$> window.unsigned 2 offset

/-- One edge of a rectangle: fifteen bits, the highest bit of its two bytes left aside. -/
def edge (window : Window) (offset : Nat) : Except ReadError Int :=
  (fun value => ((value % 0x8000 : Nat) : Int)) <$> window.unsigned 2 offset

/-- A rectangle by its top, left, bottom and right edges. -/
def rectangle (window : Window) (offset : Nat) : Except ReadError Rectangle := do
  return {
    top := ← window.edge offset
    left := ← window.edge (offset + 2)
    bottom := ← window.edge (offset + 4)
    right := ← window.edge (offset + 6) }

/-- The offset of the first zero byte from an offset on. -/
def zeroFrom? (window : Window) (offset : Nat) : Option Nat :=
  if within : offset < window.length then
    have := window.inside
    if window.file[window.start + offset] = 0 then some offset else window.zeroFrom? (offset + 1)
  else none
termination_by window.length - offset

/-- A text that ends before a zero byte. A text that starts past the end of the window is a read
of no bytes there. -/
def text (window : Window) (offset : Nat) : Except ReadError RomanString :=
  if offset ≤ window.length then
    match window.zeroFrom? offset with
    | some last => .ok ⟨window.slice offset (last - offset)⟩
    | none => .error (.missingTerminator offset)
  else .error (.outOfBounds offset 0 window.length)

/-- The results of a read at the indexes below a number, in order, or the first failure. -/
def collect {α : Type} (read : Nat → Except ReadError α) :
    (index count : Nat) → Except ReadError (List α)
  | _, 0 => .ok []
  | index, count + 1 => do
    let first ← read index
    let rest ← collect read (index + 1) count
    return first :: rest

end Window
end HyperCard
