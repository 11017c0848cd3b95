/-!
# Hexadecimal text

Numbers in lowercase digits of base sixteen, marked as such or padded to a width.
-/
namespace HyperCard.Hexadecimal

/-- The digits of a number. -/
def digits (number : Nat) : String := String.ofList (Nat.toDigits 16 number)

/-- The digits of a number, with zeros before them up to a width. -/
def padded (width number : Nat) : String :=
  let written := Nat.toDigits 16 number
  String.ofList (List.replicate (width - written.length) '0' ++ written)

/-- The digits of a number after their mark. -/
def marked (number : Nat) : String := "0x" ++ digits number

/-- A number of 32 bits after its mark, in eight digits. -/
def word (number : Nat) : String := "0x" ++ padded 8 number

/-- A byte in two digits. -/
def byte (value : UInt8) : String := padded 2 value.toNat

end HyperCard.Hexadecimal
