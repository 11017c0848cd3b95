import HyperCard.Proofs.Bytes.Contents

/-!
# Writing what windows read

Numbers are written with their highest byte first, and texts with a zero byte behind them. Where a
window holds what was written, reading there gives the number or the text back, and cutting there
gives a window on exactly those bytes.
-/
namespace HyperCard.Window

/-- A number in so many bytes, the highest first; what does not fit is left out. -/
def bigEndian : (size value : Nat) → List UInt8
  | 0, _ => []
  | size + 1, value => bigEndian size (value / 256) ++ [UInt8.ofNat value]

/-- A number with sign in four bytes. -/
def signedWord (value : Int32) : List UInt8 := bigEndian 4 value.toUInt32.toNat

/-- A number with sign in two bytes. -/
def signedHalf (value : Int16) : List UInt8 := bigEndian 2 value.toUInt16.toNat

/-- A number takes as many bytes as it is given. -/
@[simp] theorem length_bigEndian (size value : Nat) : (bigEndian size value).length = size := by
  induction size generalizing value with
  | zero => rfl
  | succ size ih => rw [bigEndian, List.length_append, ih, List.length_singleton]

/-- A number with sign takes four bytes as a word. -/
@[simp] theorem length_signedWord (value : Int32) : (signedWord value).length = 4 :=
  length_bigEndian 4 _

/-- It takes two as a half word. -/
@[simp] theorem length_signedHalf (value : Int16) : (signedHalf value).length = 2 :=
  length_bigEndian 2 _

/-- The bytes of a number stand for the number. -/
theorem naturalOf_bigEndian (size value : Nat) :
    naturalOf (bigEndian size value) = value % Nat.pow 256 size := by
  induction size generalizing value with
  | zero => exact (Nat.mod_one value).symm
  | succ size ih =>
    have last : (UInt8.ofNat value).toNat = value % 256 := UInt8.toNat_ofNat'
    have before := ih (value / 256)
    unfold naturalOf at before ⊢
    rw [bigEndian, List.foldl_append, before, List.foldl_cons, List.foldl_nil, last]
    show 256 * (value / 256 % 256 ^ size) + value % 256 = value % (256 ^ size * 256)
    rw [Nat.mul_comm (256 ^ size), Nat.mod_mul, Nat.add_comm]

/-- The bytes of a number bound it. -/
theorem naturalOf_lt (bytes : List UInt8) : naturalOf bytes < Nat.pow 256 bytes.length := by
  have after : ∀ value, bytes.foldl (fun value byte => 256 * value + byte.toNat) value <
      (value + 1) * Nat.pow 256 bytes.length := by
    induction bytes with
    | nil =>
      intro value
      show value < (value + 1) * 1
      omega
    | cons byte bytes ih =>
      intro value
      have small := byte.toNat_lt
      calc
        (byte :: bytes).foldl (fun value byte => 256 * value + byte.toNat) value
          < (256 * value + byte.toNat + 1) * Nat.pow 256 bytes.length := ih _
        _ ≤ ((value + 1) * 256) * Nat.pow 256 bytes.length :=
          Nat.mul_le_mul_right _ (by omega)
        _ = (value + 1) * Nat.pow 256 (byte :: bytes).length := by
          rw [Nat.mul_assoc, Nat.mul_comm 256]
          rfl
  have start := after 0
  rw [Nat.zero_add, Nat.one_mul] at start
  exact start

section Reading

variable {window inner : Window} {offset : Nat}

/-- A number that was written is read back. -/
theorem Holds.unsigned {size value : Nat} (holds : window.Holds offset (bigEndian size value))
    (positive : 0 < size) (fits : value < Nat.pow 256 size) :
    window.unsigned size offset = .ok value := by
  have nonempty : bigEndian size value ≠ [] := by
    apply List.ne_nil_of_length_pos
    rw [length_bigEndian]
    exact positive
  have read := holds.unsigned_eq nonempty
  rw [length_bigEndian, naturalOf_bigEndian, Nat.mod_eq_of_lt fits] at read
  exact read

/-- A number with sign that was written is read back. -/
theorem Holds.signed {value : Int32} (holds : window.Holds offset (signedWord value)) :
    window.signed 4 offset = .ok value.toInt := by
  have small : value.toUInt32.toNat < Nat.pow 256 4 := value.toUInt32.toNat_lt
  have sign : twosComplement 4 value.toUInt32.toNat = value.toInt :=
    (BitVec.toInt_eq_toNat_cond value.toBitVec).symm
  rw [Window.signed, holds.unsigned (by decide) small, ← sign]
  rfl

/-- So is one in two bytes. -/
theorem Holds.half {value : Int16} (holds : window.Holds offset (signedHalf value)) :
    window.signed 2 offset = .ok value.toInt := by
  have small : value.toUInt16.toNat < Nat.pow 256 2 := value.toUInt16.toNat_lt
  have sign : twosComplement 2 value.toUInt16.toNat = value.toInt :=
    (BitVec.toInt_eq_toNat_cond value.toBitVec).symm
  rw [Window.signed, holds.unsigned (by decide) small, ← sign]
  rfl

/-- One bit of a number that was written. -/
theorem Holds.flag {value : Nat} (holds : window.Holds offset (bigEndian 2 value))
    (fits : value < 0x10000) (bit : Nat) : window.flag offset bit = .ok (value.testBit bit) := by
  rw [Window.flag, holds.unsigned (by decide) fits]
  rfl

/-- A text ends before its zero byte. -/
theorem Holds.zeroFrom? {text : List UInt8} (holds : window.Holds offset (text ++ [0]))
    (nonzero : 0 ∉ text) : window.zeroFrom? offset = some (offset + text.length) := by
  induction text generalizing offset with
  | nil =>
    have here := holds 0 (by decide)
    rw [Nat.add_zero] at here
    rw [Alike.zeroFrom?_eq, here]
    rfl
  | cons character text ih =>
    obtain ⟨here, later⟩ := holds.cons
    rw [List.mem_cons, not_or] at nonzero
    rw [Alike.zeroFrom?_eq, here, ih later nonzero.2]
    simp only [if_neg (Ne.symm nonzero.1), List.length_cons, Nat.add_assoc, Nat.add_comm 1]

/-- A text that was written with its zero byte is read back. -/
theorem Holds.text {text : List UInt8} (holds : window.Holds offset (text ++ [0]))
    (nonzero : 0 ∉ text) : window.text offset = .ok ⟨text⟩ := by
  have last := holds.append.2 0 (by decide)
  have within := (byte_eq_ok last).1
  rw [Window.text, if_pos (by omega), holds.zeroFrom? nonzero]
  simp only [Nat.add_sub_cancel_left, holds.append.1.slice_eq]

/-- A window that was cut out starts so many bytes further on. -/
theorem start_of_sub {length : Nat} (cut : window.sub offset length = .ok inner) :
    inner.start = window.start + offset := by
  have fits := le_of_sub cut
  rw [sub, dif_pos fits] at cut
  cases cut
  rfl

/-- It is a window on the same file. -/
theorem file_of_sub {length : Nat} (cut : window.sub offset length = .ok inner) :
    inner.file = window.file := by
  have fits := le_of_sub cut
  rw [sub, dif_pos fits] at cut
  cases cut
  rfl

/-- Records of one size, one after the other, stand at that distance. -/
theorem Holds.record {α : Type} {bytes : α → List UInt8} {size : Nat}
    (sized : ∀ record, (bytes record).length = size) {records : List α}
    (holds : window.Holds offset (records.flatMap bytes)) {index : Nat}
    (inside : index < records.length) :
    window.Holds (offset + size * index) (bytes records[index]) := by
  induction records generalizing offset index with
  | nil => cases inside
  | cons record records ih =>
    rw [List.flatMap_cons] at holds
    obtain ⟨here, later⟩ := holds.append
    cases index with
    | zero => exact here
    | succ index =>
      have next := ih later (Nat.lt_of_succ_lt_succ inside)
      rw [sized, Nat.add_assoc, Nat.add_comm size, ← Nat.mul_succ] at next
      exact next

/-- What is written can be cut out, and stands where it was written. -/
theorem Holds.exists_cut {bytes : List UInt8} (holds : window.Holds offset bytes)
    (nonempty : bytes ≠ []) : ∃ inner, window.sub offset bytes.length = .ok inner ∧
      (inner.start, inner.toList) = (window.start + offset, bytes) := by
  obtain ⟨inner, cut, same⟩ := holds.exists_sub nonempty
  exact ⟨inner, cut, Prod.ext (start_of_sub cut) same⟩

end Reading
end HyperCard.Window
