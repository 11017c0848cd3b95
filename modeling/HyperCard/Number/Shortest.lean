import HyperCard.Number.Double

/-!
# Shortest decimal text of a number

The reals that round to a number form an interval around it, with its ends if the significand
is even. Of all decimals in that interval the text shows one with the fewest digits, and of
those the nearest, a tie going up. Such a decimal is a multiple of the greatest power of ten
that has a multiple in the interval at all, and it is one of the two multiples next to the
number.
-/
namespace HyperCard

/-- A decimal: whole digits times a power of ten. -/
structure Decimal where
  /-- The digits as one number. -/
  digits : Nat
  /-- The power of ten. -/
  exponent : Int
  deriving DecidableEq, Repr

namespace Double

/-- The multiple of a power of ten that the number is written with, if one of the two multiples
next to it rounds to it. Both are compared with the interval on a grid fine enough for both. -/
def multipleOf? (number : Double) (power : Int) : Option Decimal :=
  let significand := number.significand
  let quarter := number.exponent - 2
  let step := Nat.pow 10 power.toNat <<< (-quarter).toNat
  let unit := Nat.pow 10 (-power).toNat <<< quarter.toNat
  let narrow := significand == hiddenBit && leastExponent < number.exponent
  let least := (4 * significand - if narrow then 1 else 2) * unit
  let value := 4 * significand * unit
  let greatest := (4 * significand + 2) * unit
  let rounds (candidate : Nat) : Bool :=
    if significand % 2 == 0 then least ≤ candidate && candidate ≤ greatest
    else least < candidate && candidate < greatest
  let below := value / step
  let above := below + 1
  let roundUp : Bool := step ≤ 2 * (value - below * step)
  match rounds (below * step), rounds (above * step) with
  | false, false => none
  | true, false => some ⟨below, power⟩
  | false, true => some ⟨above, power⟩
  | true, true => some ⟨if roundUp then above else below, power⟩

/-- The powers of ten that a finite number may be a multiple of, from the greatest. -/
def powers : List Int := (List.range 640).map fun (index : Nat) => 310 - (index : Int)

/-- The shortest decimal that rounds to a finite number. -/
def shortest (number : Double) : Decimal :=
  if number.significand = 0 then ⟨0, 0⟩
  else (powers.findSome? number.multipleOf?).getD ⟨0, 0⟩

end Double

namespace Decimal

/-- The digits as text. -/
def digitText (decimal : Decimal) : List Char := Nat.toDigits 10 decimal.digits

/-- The power of ten of the first digit. -/
def leading (decimal : Decimal) : Int := decimal.digitText.length - 1 + decimal.exponent

/-- Digits with a point, and at least one digit on each side of it. -/
def positional (decimal : Decimal) : List Char :=
  let digits := decimal.digitText
  if 0 ≤ decimal.exponent then
    digits ++ List.replicate decimal.exponent.toNat '0' ++ ['.', '0']
  else
    let places := (-decimal.exponent).toNat
    let padded := List.replicate (places + 1 - digits.length) '0' ++ digits
    padded.take (padded.length - places) ++ '.' :: padded.drop (padded.length - places)

/-- The first digit, a point if more digits follow, and the power of ten. -/
def scientific (decimal : Decimal) : List Char :=
  let rest := decimal.digitText.drop 1
  decimal.digitText.take 1 ++ (if rest.isEmpty then [] else '.' :: rest) ++
    'e' :: (toString decimal.leading).toList

end Decimal

/-- The text of a number: positional from a ten-thousandth up to below ten to the sixteenth, and
with a power of ten elsewhere. -/
def Double.text (number : Double) : String :=
  if number.isFinite then
    let decimal := number.shortest
    let isPositional := -4 ≤ decimal.leading && decimal.leading < 16
    String.ofList (if isPositional then decimal.positional else decimal.scientific)
  else "inf"

end HyperCard
