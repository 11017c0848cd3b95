import HyperCard.Archive.Error

/-!
# Versions of the format

The first generation of the format lacks a field of four bytes after the header of most blocks,
so the fields behind it stand four bytes earlier than in the second one. Offsets are stated for
the second generation and shifted for the first.
-/
namespace HyperCard

/-- The two generations of the format. -/
inductive FormatVersion
  /-- Formats up to 8. -/
  | one
  /-- Formats 9 and 10. -/
  | two
  deriving DecidableEq, Repr

namespace FormatVersion

/-- The generation of a format number. -/
def ofFormat (format : Nat) : Except ArchiveError FormatVersion :=
  if 1 ≤ format ∧ format ≤ 8 then .ok .one
  else if format = 9 ∨ format = 10 then .ok .two
  else .error (.unsupportedFormat format)

/-- Whether this is the second generation. -/
def isTwo (version : FormatVersion) : Bool := version = .two

/-- The name of a generation. -/
def name : FormatVersion → String
  | .one => "V1"
  | .two => "V2"

/-- Where the field at an offset of the second generation stands in this one. -/
def shift : FormatVersion → Nat → Nat
  | .one, offset => offset - 4
  | .two, offset => offset

end FormatVersion
end HyperCard
