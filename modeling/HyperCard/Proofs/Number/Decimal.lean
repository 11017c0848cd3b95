import HyperCard.Number.Written
import Mathlib.Data.Nat.Digits.Lemmas

/-!
# Whole numbers in decimal digits

Digits are read as the number that they stand for to the base ten, as long as it is not too great,
however many zeros are in front. So a whole number that is written in decimal digits is read back
from them.
-/
namespace HyperCard.Written

/-- The decimal digits of a number. -/
def decimal (value : Nat) : List UInt8 :=
  (Nat.toDigits 10 value).map fun digit => UInt8.ofNat digit.toNat

/-- Every number has a digit. -/
theorem decimal_ne_nil (value : Nat) : decimal value ≠ [] := by
  simp [decimal, Nat.toDigits_ne_nil]

/-- A decimal digit as a byte is the same number as a character. -/
theorem toNat_digit {value : Nat} {digit : Char} (member : digit ∈ Nat.toDigits 10 value) :
    (UInt8.ofNat digit.toNat).toNat = digit.toNat ∧ 0x30 ≤ digit.toNat ∧ digit.toNat ≤ 0x39 := by
  have isDigit : digit.isDigit := Nat.isDigit_of_mem_toDigits (by decide) (by decide) member
  simp only [Char.isDigit, Bool.and_eq_true, decide_eq_true_eq] at isDigit
  have least : 0x30 ≤ digit.toNat := UInt32.le_iff_toNat_le.mp isDigit.1
  have most : digit.toNat ≤ 0x39 := UInt32.le_iff_toNat_le.mp isDigit.2
  refine ⟨?_, least, most⟩
  rw [UInt8.toNat_ofNat']
  omega

/-- Decimal digits are digits. -/
theorem isDigit_decimal (value : Nat) :
    ∀ character ∈ decimal value, Character.isDigit character := by
  intro character member
  obtain ⟨digit, inside, rfl⟩ := List.mem_map.mp member
  obtain ⟨same, least, most⟩ := toNat_digit inside
  simp only [Character.isDigit, Bool.and_eq_true, decide_eq_true_eq, UInt8.le_iff_toNat_le, same]
  exact ⟨least, most⟩

/-- The value of decimal digits is the number. -/
theorem valueFrom_decimal (value : Nat) : valueFrom 0 (decimal value) = value := by
  have digits : ∀ (characters : List Char) (start : Nat),
      (∀ digit ∈ characters, digit ∈ Nat.toDigits 10 value) →
      valueFrom start (characters.map fun digit => UInt8.ofNat digit.toNat) =
        Nat.ofDigitChars 10 characters start := by
    intro characters
    induction characters with
    | nil => exact fun _ _ => Nat.ofDigitChars_nil.symm
    | cons digit others ih =>
      intro start members
      have same := (toNat_digit (members digit (by simp))).1
      rw [List.map_cons, Nat.ofDigitChars_cons, ← ih _ fun other member =>
        members other (by simp [member])]
      simp only [valueFrom, List.foldl_cons, same]
      rfl
  rw [decimal, digits _ 0 fun _ member => member, Nat.ofDigitChars_ten_toDigits]

/-- Zeros in front do not change a value. -/
theorem valueFrom_significant (digits : List UInt8) :
    valueFrom 0 (significant digits) = valueFrom 0 digits := by
  unfold significant
  induction digits with
  | nil => rfl
  | cons digit digits ih =>
    rw [List.dropWhile_cons]
    by_cases isZero : digit = Character.zero
    · simp only [isZero, beq_self_eq_true, ↓reduceIte, ih]
      rfl
    · simp [isZero]

/-- The number that digits stand for to the base ten, the last one being the lowest. -/
def decimalValue (digits : List UInt8) : Nat :=
  Nat.ofDigits 10 (digits.reverse.map fun digit => digit.toNat - 0x30)

/-- Digits that are read from left to right have the value of all of them. -/
theorem valueFrom_eq_decimalValue (digits : List UInt8) :
    valueFrom 0 digits = decimalValue digits := by
  induction digits using List.reverseRecOn with
  | nil => rfl
  | append_singleton digits last ih =>
    have before : digits.foldl (fun value digit => 10 * value + (digit.toNat - 0x30)) 0 =
        decimalValue digits := ih
    unfold decimalValue at before ⊢
    rw [valueFrom, List.foldl_append, List.foldl_cons, List.foldl_nil, before,
      List.reverse_append, List.reverse_singleton, List.singleton_append, List.map_cons,
      Nat.ofDigits_cons, Nat.add_comm]

/-- A number that is not too great has no more digits than the greatest one, zeros in front left
aside. -/
theorem length_significant_le {digits : List UInt8}
    (isDigit : ∀ digit ∈ digits, Character.isDigit digit)
    (small : decimalValue digits ≤ greatestWhole) : (significant digits).length ≤ wholeDigits := by
  by_cases zeros : significant digits = []
  · rw [zeros]
    exact Nat.zero_le _
  have value : decimalValue (significant digits) = decimalValue digits := by
    rw [← valueFrom_eq_decimalValue, valueFrom_significant, valueFrom_eq_decimalValue]
  have first : (significant digits).head zeros ∈ digits :=
    (List.dropWhile_sublist _).subset (List.head_mem zeros)
  have positive : ∀ digit, Character.isDigit digit = true → (digit == Character.zero) = false →
      digit.toNat - 0x30 ≠ 0 := by
    intro digit isDigit nonzero
    rw [beq_eq_false_iff_ne, ne_eq, ← UInt8.toNat_inj] at nonzero
    simp only [Character.isDigit, Bool.and_eq_true, decide_eq_true_eq, UInt8.le_iff_toNat_le]
      at isDigit
    have least : 0x30 ≤ digit.toNat := isDigit.1
    have zero : ¬digit.toNat = 0x30 := nonzero
    omega
  have leading := positive _ (isDigit _ first) (List.head_dropWhile_not _ zeros)
  have power : 10 ^ (significant digits).length ≤ 10 * decimalValue (significant digits) := by
    have bound := @Nat.pow_length_le_mul_ofDigits 8
      ((significant digits).reverse.map fun digit => digit.toNat - 0x30) (by simpa using zeros)
    rw [List.length_map, List.length_reverse] at bound
    apply bound
    rw [List.getLast_map, List.getLast_reverse]
    exact leading
  by_contra long
  have more : 10 ^ 11 ≤ 10 ^ (significant digits).length :=
    Nat.pow_le_pow_right (by decide) (Nat.lt_of_not_le long)
  unfold greatestWhole at small
  omega

/-- Digits are a whole number as long as their value is not too great. -/
theorem whole?_eq {digits : List UInt8} (nonempty : digits ≠ [])
    (isDigit : ∀ digit ∈ digits, Character.isDigit digit) :
    whole? ⟨digits⟩ =
      if decimalValue digits ≤ greatestWhole then some (decimalValue digits) else none := by
  have written : (!(RomanString.mk digits).isEmpty && digits.all Character.isDigit) = true := by
    rw [List.all_eq_true.mpr isDigit, RomanString.isEmpty, Bool.and_true, Bool.not_eq_true',
      List.isEmpty_eq_false_iff]
    exact nonempty
  rw [whole?, if_pos written]
  dsimp only
  rw [valueFrom_significant, valueFrom_eq_decimalValue]
  by_cases small : decimalValue digits ≤ greatestWhole
  · have short := length_significant_le isDigit small
    rw [if_pos small, decide_eq_true short, decide_eq_true small]
    rfl
  · rw [if_neg small, decide_eq_false small, Bool.and_false]
    rfl

/-- A whole number that is not too great is read back from its decimal digits. -/
theorem whole?_decimal {value : Nat} (small : value ≤ greatestWhole) :
    whole? ⟨decimal value⟩ = some value := by
  rw [whole?_eq (decimal_ne_nil value) (isDigit_decimal value), ← valueFrom_eq_decimalValue,
    valueFrom_decimal, if_pos small]

end HyperCard.Written
