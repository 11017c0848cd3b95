/-!
# Instructions of compressed rasters

A compressed raster is a sequence of instructions of one byte each, some with data after them.
An instruction fills part of a row or whole rows, or sets how later ones work.
-/
namespace HyperCard

/-- An instruction, by what it does. -/
inductive Instruction
  /-- White bytes, then bytes that follow the instruction. -/
  | run (zeros count : Nat)
  /-- White pixels, in units of sixteen bytes. -/
  | skip (units : Nat)
  /-- Whole rows of words that follow the instruction. -/
  | copiedRows
  /-- Whole rows left as they are. -/
  | whiteRows
  /-- Whole black rows. -/
  | blackRows
  /-- Whole rows of one byte, which follows the instruction and is remembered. -/
  | byteRows
  /-- Whole rows of the byte remembered for each of them. -/
  | rememberedRows
  /-- Whole rows like the one so many rows above. -/
  | rowsAbove (distance : Nat)
  /-- From now on, combine each row built from parts with itself shifted right by so many pixels
  and with the row so far above. -/
  | combine (dx dy : Nat)
  /-- How often the next instruction acts. -/
  | repeatNext (count : Nat)
  /-- No instruction. -/
  | unknown
  deriving DecidableEq, Repr

/-- The instruction of a byte. -/
def Instruction.ofByte (byte : UInt8) : Instruction :=
  let low := byte.toNat % 32
  if byte < 0x80 then .run (byte.toNat % 16) (byte.toNat / 16)
  else if 0xE0 ≤ byte then .skip low
  else if 0xC0 ≤ byte then .run 0 (8 * low)
  else if 0xA0 ≤ byte then .repeatNext low
  else
    match byte with
    | 0x80 => .copiedRows
    | 0x81 => .whiteRows
    | 0x82 => .blackRows
    | 0x83 => .byteRows
    | 0x84 => .rememberedRows
    | 0x85 => .rowsAbove 1
    | 0x86 => .rowsAbove 2
    | 0x88 => .combine 16 0
    | 0x89 => .combine 0 0
    | 0x8A => .combine 0 1
    | 0x8B => .combine 0 2
    | 0x8C => .combine 1 0
    | 0x8D => .combine 1 1
    | 0x8E => .combine 2 2
    | 0x8F => .combine 8 0
    | _ => .unknown

end HyperCard
