import HyperCard.Bytes.Window

/-!
# Bytes of windows

A window holds bytes at an offset when reading byte by byte from there gives them. Longer reads
then give what the bytes stand for. What a single byte may be is checked digit by digit.
-/
namespace HyperCard

/-- What holds of the byte of any two digits to the base 16 holds of every byte. -/
theorem forall_byte {p : UInt8 → Prop}
    (each : ∀ high low : Fin 16, p (.ofNat (16 * high + low))) (byte : UInt8) : p byte := by
  have above : byte.toNat / 16 < 16 := by
    have limit := byte.toNat_lt
    omega
  have whole : UInt8.ofNat (16 * (byte.toNat / 16) + byte.toNat % 16) = byte := by
    rw [Nat.div_add_mod, UInt8.ofNat_toNat]
  have here := each ⟨byte.toNat / 16, above⟩ ⟨byte.toNat % 16, Nat.mod_lt _ (by decide)⟩
  rw [whole] at here
  exact here

/-- What is computed from a value needs the value. -/
theorem exists_of_bind {ε α β : Type} {computed : Except ε α} {next : α → Except ε β} {result : β}
    (succeeded : computed >>= next = .ok result) :
    ∃ value, computed = .ok value ∧ next value = .ok result := by
  cases computed with
  | error error => cases succeeded
  | ok value => exact ⟨value, rfl, succeeded⟩

/-- What is computed from a read needs the read, whatever its error becomes. -/
theorem exists_of_read {ε δ α β : Type} {becomes : ε → δ} {read : Except ε α}
    {next : α → Except δ β} {result : β}
    (succeeded : read.mapError becomes >>= next = .ok result) :
    ∃ value, read = .ok value ∧ next value = .ok result := by
  cases read with
  | error error => cases succeeded
  | ok value => exact ⟨value, rfl, succeeded⟩

/-- A value that was computed has what can be checked of it. -/
theorem exists_of_check {ε α : Type} {computed : Except ε α} {holds : α → Prop}
    [DecidablePred holds] (checked : computed.toOption.any (holds ·) = true) :
    ∃ value, computed = .ok value ∧ holds value := by
  cases computed with
  | error error => cases checked
  | ok value => exact ⟨value, rfl, of_decide_eq_true checked⟩

namespace Window

variable {window : Window} {offset : Nat} {bytes rest : List UInt8} {value : UInt8}

/-- Whether bytes stand in a window from an offset on. -/
def Holds (window : Window) (offset : Nat) (bytes : List UInt8) : Prop :=
  ∀ index (inside : index < bytes.length), window.byte (offset + index) = .ok bytes[index]

/-- A byte that can be read is one of the file. -/
theorem byte_eq_ok (found : window.byte offset = .ok value) :
    offset < window.length ∧ window.file[window.start + offset]? = some value := by
  have inside := window.inside
  by_cases within : offset < window.length
  · rw [byte, dif_pos within] at found
    refine ⟨within, ?_⟩
    rw [Array.getElem?_eq_getElem (by omega)]
    exact congrArg some (Except.ok.inj found)
  · rw [byte, dif_neg within] at found
    cases found

/-- A window that holds bytes holds both parts of them, one behind the other. -/
theorem Holds.append (holds : window.Holds offset (bytes ++ rest)) :
    window.Holds offset bytes ∧ window.Holds (offset + bytes.length) rest := by
  constructor
  · intro index inside
    rw [holds index (by rw [List.length_append]; omega), List.getElem_append_left inside]
  · intro index inside
    rw [Nat.add_assoc, holds (bytes.length + index) (by rw [List.length_append]; omega),
      List.getElem_append_right (Nat.le_add_right _ _)]
    simp only [Nat.add_sub_cancel_left]

/-- It holds the first byte, and the others from the next offset on. -/
theorem Holds.cons (holds : window.Holds offset (value :: bytes)) :
    window.byte offset = .ok value ∧ window.Holds (offset + 1) bytes := by
  obtain ⟨first, later⟩ := @append window offset [value] bytes holds
  exact ⟨first 0 (by simp), later⟩

/-- Bytes that are held are read together. -/
theorem Holds.bytes_eq (holds : window.Holds offset bytes) (nonempty : bytes ≠ []) :
    window.bytes offset bytes.length = .ok bytes := by
  have positive : 0 < bytes.length := List.length_pos_iff.mpr nonempty
  obtain ⟨within, _⟩ := byte_eq_ok (holds (bytes.length - 1) (by omega))
  have fits : offset + bytes.length ≤ window.length := by omega
  have inside := window.inside
  rw [Window.bytes, if_pos fits]
  congr 1
  apply List.ext_getElem?
  intro index
  have most : min (window.start + min (offset + bytes.length) window.length) window.file.size -
      (window.start + offset) = bytes.length := by omega
  rw [slice, Array.getElem?_toList, Array.getElem?_extract, most]
  by_cases less : index < bytes.length
  · obtain ⟨_, found⟩ := byte_eq_ok (holds index less)
    rw [if_pos less, Nat.add_assoc, found, List.getElem?_eq_getElem less]
  · rw [if_neg less, List.getElem?_eq_none (Nat.not_lt.mp less)]

end Window
end HyperCard
