import HyperCard.Text.RomanString
import HyperCard.Number.Double

/-!
# Numbers as scripts write them

A number is written in ASCII digits with at most one point among them. Digits alone are a whole
number while they fit the 31 bits that whole numbers have; every other number has the 64-bit
binary format.

Zeros in front are of no account. Of the digits after them the first ones decide: a finite number
of the binary format, or the middle of two neighbours, has at most 768 digits from the first that
is not zero, so none lies strictly between two decimals that agree in their first 800 digits, and
it only matters whether there is anything beyond those.
-/
namespace HyperCard.Written

/-- The greatest whole number. -/
def greatestWhole : Nat := 2147483647

/-- The number of digits of the greatest whole number. -/
def wholeDigits : Nat := 10

/-- The digits that decide on the nearest number. -/
def decisiveDigits : Nat := 800

/-- More digits before the point than any finite number has. -/
def greatestDigits : Nat := 310

/-- More zeros after the point than any number but zero has. -/
def greatestZeros : Nat := 330

/-- The value of a run of digits, after digits of the given value. -/
def valueFrom (value : Nat) (digits : List UInt8) : Nat :=
  digits.foldl (fun value digit => 10 * value + (digit.toNat - 0x30)) value

/-- Digits without the zeros in front. -/
def significant (digits : List UInt8) : List UInt8 := digits.dropWhile (· == Character.zero)

/-- The whole number that a text of digits stands for. -/
def whole? (text : RomanString) : Option Nat :=
  if !text.isEmpty && text.characters.all Character.isDigit then
    let digits := significant text.characters
    if digits.length ≤ wholeDigits && valueFrom 0 digits ≤ greatestWhole then
      some (valueFrom 0 digits)
    else none
  else none

/-- The number nearest to a decimal with so many of its digits after the point. -/
def nearest (digits : List UInt8) (places : Nat) : Double :=
  let digits := significant digits
  let count := digits.length
  if places + greatestDigits < count then .infinity
  else if count + greatestZeros < places then .zero
  else
    let (decisive, others) := digits.splitAt decisiveDigits
    let value := valueFrom 0 decisive
    if others.all (· == Character.zero) then
      .ofRatio (value * Nat.pow 10 (others.length - places)) (Nat.pow 10 (places - others.length))
    else .ofRatio (10 * value + 1) (Nat.pow 10 (places + 1 - others.length))

/-- The number that digits with at most one point stand for. -/
def real? (text : RomanString) : Option Double :=
  let (digits, fraction) := text.characters.span Character.isDigit
  let places :=
    match fraction with
    | [] => some []
    | mark :: places =>
      if mark == Character.point && places.all Character.isDigit then some places else none
  match places with
  | none => none
  | some places =>
    if digits.isEmpty && places.isEmpty then none
    else some (nearest (digits ++ places) places.length)

end HyperCard.Written
