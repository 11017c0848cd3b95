import HyperCard.Proofs.Picture.Steps
import Mathlib.Order.Interval.Set.Basic

/-!
# What a step changes

The words that are changed by an instruction for whole rows, or when a row is combined, are those
of the rows that are finished by it. An instruction for whole rows changes each of their words to
the one that it computes for it, whatever was there before. What is computed may depend on earlier
words, and these are as they will be when the instruction is done.
-/
namespace HyperCard.Decoder

variable {frame : Frame} {progress : Progress} {words next filled : Words} {places more : Set Nat}

/-- Whether words differ from earlier ones only at some places. -/
structure ChangesOnly (places : Set Nat) (words filled : Words) : Prop where
  /-- There are as many. -/
  size : filled.size = words.size
  /-- The words at other places are the same. -/
  elsewhere : ∀ index, index ∉ places → filled[index]? = words[index]?

namespace ChangesOnly

/-- Words that stay the same are changed nowhere. -/
theorem refl (places : Set Nat) (words : Words) : ChangesOnly places words words :=
  ⟨rfl, fun _ _ => rfl⟩

/-- Changes at the same places, one after the other, are changes at these places. -/
theorem trans (changes : ChangesOnly places words next) (also : ChangesOnly places next filled) :
    ChangesOnly places words filled :=
  ⟨also.size.trans changes.size, fun index outside =>
    (also.elsewhere index outside).trans (changes.elsewhere index outside)⟩

/-- Changes at some places are changes at more places, too. -/
theorem mono (changes : ChangesOnly places words filled) (within : places ⊆ more) :
    ChangesOnly more words filled :=
  ⟨changes.size, fun index outside => changes.elsewhere index fun inside => outside (within inside)⟩

/-- A word that is set changes its place, or none if there is no such place. -/
theorem setIfInBounds (words : Words) (index : Nat) (word : UInt32) :
    ChangesOnly {index} words (words.setIfInBounds index word) :=
  ⟨Array.size_setIfInBounds, fun _ other => Array.getElem?_setIfInBounds_ne (Ne.symm other)⟩

/-- Words that are put in place of others change these. -/
theorem overwrite (words : Words) (first : Nat) (row : List UInt32) :
    ChangesOnly (Set.Ico first (first + row.length)) words (overwrite words first row) := by
  unfold Decoder.overwrite
  induction row generalizing words first with
  | nil => exact refl _ words
  | cons word row ih =>
    rw [List.foldl_cons, List.length_cons]
    refine trans ((setIfInBounds words first word).mono ?_) ((ih _ (first + 1)).mono ?_)
    · intro index same
      rw [Set.mem_singleton_iff] at same
      rw [Set.mem_Ico]
      omega
    · intro index within
      rw [Set.mem_Ico] at within ⊢
      omega

end ChangesOnly

/-- A slice of words has as many as were asked for. -/
theorem length_of_slice? {first count : Nat} {row : List UInt32}
    (sliced : slice? words first count = some row) : row.length = count := by
  unfold slice? at sliced
  split at sliced
  · cases sliced
    rw [Array.length_toList, Array.size_extract]
    omega
  · cases sliced

/-- A row keeps its length when it is combined across. -/
theorem length_combineAcross (dx : Nat) (carry : UInt32) (row : List UInt32) :
    (combineAcross dx carry row).length = row.length := by
  induction row generalizing carry with
  | nil => rfl
  | cons word row ih => rw [combineAcross, List.length_cons, List.length_cons, ih]

namespace ChangesOnly

/-- Combining a row with itself changes the words of the row. -/
theorem combineWithSelf (done : combineWithSelf frame progress words = .ok filled) :
    ChangesOnly (Set.Ico progress.rowStart (progress.rowStart + frame.wordsPerRow)) words
      filled := by
  unfold Decoder.combineWithSelf at done
  split at done
  · cases done
    exact refl _ _
  · split at done
    · rename_i row sliced
      cases done
      have changes := overwrite words progress.rowStart (combineAcross progress.dx 0 row)
      rw [length_combineAcross, length_of_slice? sliced] at changes
      exact changes
    · cases done

/-- Combining it with a row above changes the same words. -/
theorem combineWithAbove (done : combineWithAbove frame progress words = .ok filled) :
    ChangesOnly (Set.Ico progress.rowStart (progress.rowStart + frame.wordsPerRow)) words
      filled := by
  unfold Decoder.combineWithAbove at done
  dsimp only at done
  split at done
  · cases done
    exact refl _ _
  · split at done
    · cases done
    · split at done
      · rename_i above row slicedAbove sliced
        cases done
        have changes := overwrite words progress.rowStart (List.zipWith (· ^^^ ·) row above)
        rw [List.length_zipWith, length_of_slice? sliced, length_of_slice? slicedAbove,
          Nat.min_self] at changes
        exact changes
      · cases done

/-- Combining a row changes nothing but the row. -/
theorem combineRow (done : combineRow frame progress words = .ok filled) :
    ChangesOnly (Set.Ico progress.rowStart (progress.rowStart + frame.wordsPerRow)) words
      filled := by
  unfold Decoder.combineRow at done
  obtain ⟨next, self, done⟩ := exists_of_bind done
  exact (combineWithSelf self).trans (combineWithAbove done)

end ChangesOnly

/-- What setting a word does. -/
theorem setWord?_spec {index : Nat} {word : UInt32}
    (done : setWord? words index word = some filled) :
    ChangesOnly {index} words filled ∧ filled[index]? = some word := by
  unfold setWord? at done
  split at done
  · rename_i inside
    cases done
    refine ⟨⟨Array.size_set inside, fun other apart => ?_⟩, Array.getElem?_set_self inside⟩
    exact Array.getElem?_set_ne inside (Ne.symm apart)
  · cases done

section Filling

/-- Whether a word is computed from earlier ones only. -/
def LooksBack (word : Words → Nat → Except BitmapError UInt32) : Prop :=
  ∀ (words others : Words) (index : Nat), others.size = words.size →
    (∀ place < index, others[place]? = words[place]?) → word others index = word words index

/-- Whether a word is there that is computed for its place. -/
def Computed (word : Words → Nat → Except BitmapError UInt32) (words : Words) (place : Nat) :
    Prop :=
  ∃ value, word words place = .ok value ∧ words[place]? = some value

/-- What is computed stays so while later words are changed. -/
theorem Computed.later {word : Words → Nat → Except BitmapError UInt32} {place : Nat}
    (computed : Computed word words place) (looksBack : LooksBack word)
    (changes : ChangesOnly places words filled) (behind : ∀ index ∈ places, place < index) :
    Computed word filled place := by
  have same : ∀ index ≤ place, filled[index]? = words[index]? := by
    intro index least
    apply changes.elsewhere
    intro inside
    have more := behind index inside
    omega
  obtain ⟨value, found, there⟩ := computed
  refine ⟨value, ?_, ?_⟩
  · rw [looksBack words filled place changes.size fun index less => same index (Nat.le_of_lt less)]
    exact found
  · rw [same place (Nat.le_refl place)]
    exact there

/-- What filling the rest of a row does. -/
theorem fillRow_spec {word : Words → Nat → Except BitmapError UInt32} {columns index : Nat}
    (done : fillRow progress word columns index words = .ok filled) :
    ChangesOnly (Set.Ico index (index + columns)) words filled ∧
      (LooksBack word → ∀ place ∈ Set.Ico index (index + columns), Computed word filled place) := by
  induction columns generalizing index words with
  | zero =>
    cases done
    refine ⟨.refl _ _, fun _ place within => ?_⟩
    rw [Set.mem_Ico] at within
    omega
  | succ columns ih =>
    rw [fillRow] at done
    obtain ⟨value, found, done⟩ := exists_of_bind done
    dsimp only at done
    cases here : setWord? words index value with
    | none =>
      rw [here] at done
      cases done
    | some next =>
      rw [here] at done
      obtain ⟨first, set⟩ := setWord?_spec here
      obtain ⟨rest, computes⟩ := ih done
      refine ⟨?_, fun looksBack place within => ?_⟩
      · refine (first.mono ?_).trans (rest.mono ?_)
        · intro place same
          rw [Set.mem_singleton_iff] at same
          rw [Set.mem_Ico]
          omega
        · intro place within
          rw [Set.mem_Ico] at within ⊢
          omega
      · rw [Set.mem_Ico] at within
        by_cases same : place = index
        · subst same
          have computed : Computed word next place := by
            refine ⟨value, ?_, set⟩
            rw [looksBack words next place first.size fun other less =>
              first.elsewhere other (Nat.ne_of_lt less)]
            exact found
          apply computed.later looksBack rest
          intro other inside
          exact inside.1
        · apply computes looksBack
          rw [Set.mem_Ico]
          omega

/-- What filling whole rows does. -/
theorem fillRows_spec {word : Int → Words → Nat → Except BitmapError UInt32} {rows index : Nat}
    {y : Int} (done : fillRows frame progress word rows y index words = .ok filled) :
    ChangesOnly (Set.Ico index (index + rows * frame.wordsPerRow)) words filled ∧
      ((∀ y, LooksBack (word y)) → ∀ row < rows, ∀ column < frame.wordsPerRow,
        Computed (word (y + row)) filled (index + row * frame.wordsPerRow + column)) := by
  induction rows generalizing y index words with
  | zero =>
    cases done
    exact ⟨.refl _ _, fun _ row few => absurd few (Nat.not_lt_zero row)⟩
  | succ rows ih =>
    rw [fillRows] at done
    obtain ⟨next, here, done⟩ := exists_of_bind done
    obtain ⟨first, computes⟩ := fillRow_spec here
    obtain ⟨rest, others⟩ := ih done
    rw [Nat.succ_mul]
    refine ⟨?_, fun looksBack row few column inside => ?_⟩
    · refine (first.mono ?_).trans (rest.mono ?_)
      · intro place within
        rw [Set.mem_Ico] at within ⊢
        omega
      · intro place within
        rw [Set.mem_Ico] at within ⊢
        omega
    · cases row with
      | zero =>
        rw [Nat.zero_mul, Nat.add_zero, Int.natCast_zero, Int.add_zero]
        have computed := computes (looksBack y) (index + column) ⟨by omega, by omega⟩
        apply computed.later (looksBack y) rest
        intro other within
        rw [Set.mem_Ico] at within
        omega
      | succ row =>
        have computed := others looksBack row (by omega) column inside
        have place : index + (row + 1) * frame.wordsPerRow + column =
            index + frame.wordsPerRow + row * frame.wordsPerRow + column := by
          rw [Nat.succ_mul]
          omega
        have later : y + ((row + 1 : Nat) : Int) = y + 1 + row := by omega
        rw [place, later]
        exact computed

/-- The words above are looked for among the earlier ones. -/
theorem looksBack_wordAbove (progress : Progress) {distance : Nat} (above : 0 < distance) :
    LooksBack (wordAbove progress distance) := by
  intro words others index size same
  unfold wordAbove
  by_cases missing : index < distance
  · rw [if_pos missing, if_pos missing]
  · rw [if_neg missing, if_neg missing, same (index - distance) (by omega), size]

end Filling

section Columns

/-- What putting a word into a column of several rows does. -/
theorem setColumn?_spec {width rows index : Nat} {word : UInt32}
    (done : setColumn? width word rows index words = some filled) :
    ChangesOnly {place | ∃ row < rows, place = index + row * width} words filled ∧
      ∀ row < rows, filled[index + row * width]? = some word := by
  induction rows generalizing index words with
  | zero =>
    cases done
    exact ⟨.refl _ _, fun row few => absurd few (Nat.not_lt_zero row)⟩
  | succ rows ih =>
    rw [setColumn?] at done
    cases here : setWord? words index word with
    | none =>
      rw [here] at done
      cases done
    | some next =>
      rw [here] at done
      obtain ⟨first, set⟩ := setWord?_spec here
      obtain ⟨rest, others⟩ := ih done
      refine ⟨(first.mono ?_).trans (rest.mono ?_), fun row few => ?_⟩
      · intro place same
        rw [Set.mem_singleton_iff] at same
        exact ⟨0, Nat.succ_pos rows, by omega⟩
      · intro place within
        obtain ⟨row, few, same⟩ := within
        exact ⟨row + 1, by omega, by rw [Nat.succ_mul]; omega⟩
      · cases row with
        | zero =>
          -- A row of no width is the same place again, and gets the same word.
          rw [Nat.zero_mul, Nat.add_zero]
          by_cases again : ∃ row < rows, index = index + width + row * width
          · obtain ⟨row, few, same⟩ := again
            have there := others row few
            rw [← same] at there
            exact there
          · rw [rest.elsewhere index again]
            exact set
        | succ row =>
          have there := others row (by omega)
          have place : index + (row + 1) * width = index + width + row * width := by
            rw [Nat.succ_mul]
            omega
          rw [place]
          exact there

/-- What copying rows does: each column takes one word of the stream. -/
theorem copyRows_spec {columns offset index : Nat} (narrow : columns ≤ frame.wordsPerRow)
    (done : copyRows frame progress columns offset index words = .ok filled) :
    ChangesOnly {place | ∃ row < progress.repetitions, ∃ column < columns,
        place = index + column + row * frame.wordsPerRow} words filled ∧
      ∀ row < progress.repetitions, ∀ column < columns, ∃ word,
        frame.data.unsigned 4 (offset + 4 * column) = .ok word ∧
          filled[index + column + row * frame.wordsPerRow]? = some (UInt32.ofNat word) := by
  induction columns generalizing offset index words with
  | zero =>
    cases done
    exact ⟨.refl _ _, fun _ _ column none => absurd none (Nat.not_lt_zero column)⟩
  | succ columns ih =>
    obtain ⟨word, next, found, here, done⟩ := exists_of_copyRows done
    obtain ⟨first, set⟩ := setColumn?_spec here
    obtain ⟨rest, others⟩ := ih (by omega) done
    refine ⟨(first.mono ?_).trans (rest.mono ?_), fun row few column inside => ?_⟩
    · intro place within
      obtain ⟨row, few, same⟩ := within
      exact ⟨row, few, 0, Nat.succ_pos columns, by omega⟩
    · intro place within
      obtain ⟨row, few, column, inside, same⟩ := within
      exact ⟨row, few, column + 1, by omega, by omega⟩
    · cases column with
      | zero =>
        refine ⟨word, found, ?_⟩
        rw [Nat.add_zero, ← set row few]
        apply rest.elsewhere
        -- The other columns are not at a multiple of the width from this one.
        rintro ⟨other, _, column, inside, same⟩
        have apart : row * frame.wordsPerRow = column + 1 + other * frame.wordsPerRow := by
          omega
        have remainder := congrArg (· % frame.wordsPerRow) apart
        rw [Nat.mul_mod_left, Nat.add_mul_mod_self_right, Nat.mod_eq_of_lt (by omega)]
          at remainder
        omega
      | succ column =>
        obtain ⟨other, read, there⟩ := others row few column (by omega)
        have place : offset + 4 * (column + 1) = offset + 4 + 4 * column := by omega
        have index : index + (column + 1) + row * frame.wordsPerRow =
            index + 1 + column + row * frame.wordsPerRow := by omega
        rw [place, index]
        exact ⟨other, read, there⟩

end Columns

namespace ChangesOnly

variable {instruction : Instruction}

/-- A byte that is drawn changes the word that its pixels lie in. -/
theorem writeByte? {rowStart x : Nat} {byte : UInt8}
    (done : writeByte? words rowStart x byte = some filled) :
    ChangesOnly {rowStart + x / 32} words filled := by
  unfold Decoder.writeByte? at done
  dsimp only at done
  split at done
  · rename_i inside
    cases done
    exact ⟨Array.size_set inside, fun _ other => Array.getElem?_set_ne inside (Ne.symm other)⟩
  · cases done

/-- Its copies go on from there, so nothing before the current row is changed. -/
theorem writeCopies? {rowStart stride copies x : Nat} {byte : UInt8}
    (done : writeCopies? rowStart stride byte copies x words = some filled) :
    ChangesOnly (Set.Ici rowStart) words filled := by
  induction copies generalizing x words with
  | zero =>
    cases done
    exact refl _ _
  | succ copies ih =>
    obtain ⟨next, here, done⟩ := exists_of_writeCopies? done
    refine ((writeByte? here).mono ?_).trans (ih done)
    intro place same
    rw [Set.mem_singleton_iff] at same
    rw [Set.mem_Ici]
    omega

/-- Nor is it by a run of bytes with their copies. -/
theorem writeRun {stride count offset x : Nat}
    (done : writeRun frame progress stride count offset x words = .ok filled) :
    ChangesOnly (Set.Ici progress.rowStart) words filled := by
  induction count generalizing offset x words with
  | zero =>
    cases done
    exact refl _ _
  | succ count ih =>
    obtain ⟨byte, next, _, here, done⟩ := exists_of_writeRun done
    exact (writeCopies? here).trans (ih done)

/-- An instruction that is no run changes nothing but the rows that it leads over. -/
theorem rows (other : ∀ zeros count, instruction ≠ .run zeros count)
    (done : written frame instruction progress words = .ok filled) :
    ChangesOnly (Set.Ico progress.rowStart (after frame instruction progress).rowStart) words
      filled := by
  cases instruction with
  | run zeros count => exact absurd rfl (other zeros count)
  | copiedRows =>
    refine (copyRows_spec (Nat.le_refl _) done).1.mono ?_
    rintro place ⟨row, few, column, inside, rfl⟩
    have rows := Nat.mul_le_mul_right frame.wordsPerRow few
    rw [Nat.succ_mul] at rows
    show _ ∧ _ < progress.rowStart + progress.repetitions * frame.wordsPerRow
    omega
  | byteRows =>
    obtain ⟨byte, _, done, leads⟩ := exists_of_byteRows done
    rw [leads]
    exact (fillRows_spec done).1
  | blackRows | rememberedRows | rowsAbove _ => exact (fillRows_spec done).1
  | skip _ | whiteRows | combine _ _ | repeatNext _ | unknown =>
    cases done
    exact refl _ _

/-- An instruction changes nothing above the current row. -/
theorem written (done : written frame instruction progress words = .ok filled) :
    ChangesOnly (Set.Ici progress.rowStart) words filled := by
  cases instruction with
  | run zeros count => exact writeRun done
  | copiedRows | byteRows | blackRows | rememberedRows | rowsAbove _ | skip _ | whiteRows
  | combine _ _ | repeatNext _ | unknown =>
    exact (rows (by simp) done).mono Set.Ico_subset_Ici_self

end ChangesOnly

end HyperCard.Decoder
