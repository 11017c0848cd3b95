/-!
# Binary numbers of double precision

A number of 64 bits stands for a whole significand times a power of two. Scripts write numbers
without a sign, so every number here is positive or zero, or infinite. A ratio of whole numbers
is rounded to the nearest number, a tie to the one with the even significand.
-/
namespace HyperCard

/-- A number in the 64-bit binary format, by its bits. -/
structure Double where
  /-- Eleven bits of exponent above 52 bits of fraction. -/
  bits : UInt64
  deriving DecidableEq, Repr, Inhabited

/-- The quotient rounded to the nearest whole number, a tie to the even one. -/
def roundHalfEven (numerator denominator : Nat) : Nat :=
  let quotient := numerator / denominator
  let twice := 2 * (numerator % denominator)
  if twice < denominator then quotient
  else if denominator < twice then quotient + 1
  else quotient + quotient % 2

namespace Double

/-- The least exponent of a significand. -/
def leastExponent : Int := -1074

/-- The bit of the significand above its fraction, which numbers of all but the least exponent
have without writing it: two to the 52nd. -/
def hiddenBit : Nat := 0x10000000000000

/-- The number zero. -/
def zero : Double := ⟨0⟩

/-- The bits above every finite number. -/
def infinity : Double := ⟨0x7FF0000000000000⟩

/-- The fraction and the biased exponent of the bits. -/
def fields (number : Double) : Nat × Nat :=
  (number.bits.toNat % hiddenBit, number.bits.toNat / hiddenBit % 2048)

/-- The whole significand. -/
def significand (number : Double) : Nat :=
  let (fraction, biased) := number.fields
  if biased = 0 then fraction else fraction + hiddenBit

/-- The power of two that the significand is multiplied with. -/
def exponent (number : Double) : Int :=
  let biased := number.fields.2
  leastExponent + (biased - 1 : Nat)

/-- Whether the number is finite. -/
def isFinite (number : Double) : Bool := number.fields.2 < 2047

/-- The greatest power of two that is at most a positive ratio, as an exponent. -/
def magnitude (numerator denominator : Nat) : Int :=
  let estimate : Int := (numerator.log2 : Int) - denominator.log2
  if denominator <<< estimate.toNat ≤ numerator <<< (-estimate).toNat then estimate
  else estimate - 1

/-- The number nearest to a ratio. -/
def ofRatio (numerator denominator : Nat) : Double :=
  if numerator = 0 then zero
  else
    let exponent := max (magnitude numerator denominator - 52) leastExponent
    let significand :=
      roundHalfEven (numerator <<< (-exponent).toNat) (denominator <<< exponent.toNat)
    let bits := (exponent - leastExponent).toNat * hiddenBit + significand
    if bits < infinity.bits.toNat then ⟨UInt64.ofNat bits⟩ else infinity

end Double
end HyperCard
