import HyperCard.Proofs.Picture.Stream

/-!
# Words while they are filled

The decoder writes all rows into one array of words. What the array holds is told in two parts: the
words of the finished rows, and what every word after them is. Each way of writing leaves the
finished rows alone. A row of the raster is a part of the words.
-/
namespace HyperCard.Decoder

open RasterStream (wordOfBytes)

/-- Repetitions of a list, looked up. -/
theorem getElem?_flatten_replicate {α : Type} (part : List α) (copies index : Nat) :
    (List.replicate copies part).flatten[index]? =
      if index < copies * part.length then part[index % part.length]? else none := by
  induction copies generalizing index with
  | zero => simp
  | succ copies ih =>
    rw [List.replicate_succ, List.flatten_cons]
    by_cases first : index < part.length
    · have inside : index < (copies + 1) * part.length := by
        rw [Nat.succ_mul]
        omega
      rw [List.getElem?_append_left first, if_pos inside, Nat.mod_eq_of_lt first]
    · have later : part.length ≤ index := Nat.not_lt.mp first
      have bound : index - part.length < copies * part.length ↔
          index < (copies + 1) * part.length := by
        rw [Nat.succ_mul]
        omega
      rw [List.getElem?_append_right later, ih, Nat.mod_eq_sub_mod later]
      simp only [bound]

section Rows

variable {α : Type} {rows : List (List α)} {width : Nat} (widths : ∀ row ∈ rows, row.length = width)

include widths

/-- Rows of one width have together so many words for each. -/
theorem length_flatten_rows : rows.flatten.length = rows.length * width := by
  have lengths : rows.map List.length = List.replicate rows.length width := by
    rw [List.eq_replicate_iff]
    refine ⟨List.length_map _, fun length member => ?_⟩
    obtain ⟨row, inside, rfl⟩ := List.mem_map.mp member
    exact widths row inside
  rw [List.length_flatten, lengths, List.sum_replicate_nat]

/-- A word of a row among all rows. -/
theorem getElem?_flatten_rows {row : List α} {index column : Nat}
    (found : rows[index]? = some row) (inside : column < width) :
    rows.flatten[index * width + column]? = row[column]? := by
  induction rows generalizing index with
  | nil => simp at found
  | cons head rows ih =>
    have length : head.length = width := widths head List.mem_cons_self
    rw [List.flatten_cons]
    cases index with
    | zero =>
      obtain rfl : head = row := by simpa using found
      rw [Nat.zero_mul, Nat.zero_add, List.getElem?_append_left (by omega)]
    | succ index =>
      have further : head.length ≤ (index + 1) * width + column := by
        rw [Nat.succ_mul]
        omega
      have place : (index + 1) * width + column - head.length = index * width + column := by
        rw [Nat.succ_mul]
        omega
      rw [List.getElem?_append_right further, place]
      exact ih (fun row member => widths row (List.mem_cons_of_mem _ member)) (by simpa using found)

end Rows

/-- Part of the words as a list. -/
theorem slice?_eq (words : Words) (first : Nat) (row : List UInt32)
    (fits : first + row.length ≤ words.size)
    (same : ∀ index < row.length, words[first + index]? = row[index]?) :
    slice? words first row.length = some row := by
  rw [slice?, if_pos fits]
  congr 1
  apply List.ext_getElem?
  intro index
  rw [Array.getElem?_toList, Array.getElem?_extract]
  by_cases inside : index < row.length
  · rw [if_pos (by omega), same index inside]
  · rw [if_neg (by omega), List.getElem?_eq_none (Nat.not_lt.mp inside)]

/-- An array that holds finished words and, from there on, what a function tells. -/
structure Shows (words : Words) (finished : List UInt32) (tail : Nat → UInt32) : Prop where
  /-- The finished words fit. -/
  fits : finished.length ≤ words.size
  /-- The finished words come first. -/
  before : ∀ index < finished.length, words[index]? = finished[index]?
  /-- The others follow. -/
  after : ∀ index, finished.length + index < words.size →
    words[finished.length + index]? = some (tail index)

namespace Shows

variable {words : Words} {finished : List UInt32} {tail other : Nat → UInt32}

/-- Behind the finished words only those count that the array has a place for. -/
theorem congr (shows : Shows words finished tail)
    (same : ∀ index, finished.length + index < words.size → tail index = other index) :
    Shows words finished other :=
  ⟨shows.fits, shows.before, fun index inside => by
    rw [shows.after index inside, same index inside]⟩

/-- Words after the finished ones may be counted among them. -/
theorem append (shows : Shows words finished tail) (row : List UInt32)
    (fits : finished.length + row.length ≤ words.size)
    (same : ∀ index (inside : index < row.length), tail index = row[index]) :
    Shows words (finished ++ row) fun index => tail (row.length + index) := by
  refine ⟨by simpa using fits, ?_, ?_⟩
  · intro index inside
    rw [List.length_append] at inside
    by_cases early : index < finished.length
    · rw [List.getElem?_append_left early]
      exact shows.before index early
    · have late : finished.length ≤ index := Nat.not_lt.mp early
      obtain ⟨place, rfl⟩ := Nat.exists_eq_add_of_le late
      have within : place < row.length := by omega
      rw [List.getElem?_append_right late, shows.after place (by omega), same place within,
        Nat.add_sub_cancel_left, List.getElem?_eq_getElem within]
  · intro index inside
    rw [List.length_append, Nat.add_assoc] at inside ⊢
    exact shows.after _ inside

/-- Finished words may be counted among those after them. -/
theorem split {row : List UInt32} (shows : Shows words (finished ++ row) tail) :
    Shows words finished fun index =>
      if inside : index < row.length then row[index] else tail (index - row.length) := by
  have fits := shows.fits
  rw [List.length_append] at fits
  refine ⟨by omega, ?_, ?_⟩
  · intro index inside
    rw [shows.before index (by rw [List.length_append]; omega), List.getElem?_append_left inside]
  · intro index inside
    by_cases early : index < row.length
    · rw [shows.before _ (by rw [List.length_append]; omega),
        List.getElem?_append_right (Nat.le_add_right _ _), Nat.add_sub_cancel_left, dif_pos early,
        List.getElem?_eq_getElem early]
    · have place : finished.length + index = (finished ++ row).length + (index - row.length) := by
        rw [List.length_append]
        omega
      rw [dif_neg early, place, shows.after _ (by rw [← place]; exact inside)]

/-- A word that is set is the only one that changes. -/
theorem set (shows : Shows words finished tail) (index : Nat) (word : UInt32)
    (inside : finished.length + index < words.size) :
    Shows (words.set (finished.length + index) word inside) finished
      (Function.update tail index word) := by
  refine ⟨by rw [Array.size_set]; exact shows.fits, ?_, ?_⟩
  · intro place early
    rw [Array.getElem?_set_ne inside (by omega)]
    exact shows.before place early
  · intro place within
    rw [Array.size_set] at within
    by_cases same : place = index
    · subst same
      rw [Array.getElem?_set_self inside, Function.update_self]
    · rw [Array.getElem?_set_ne inside (by omega), Function.update_of_ne same]
      exact shows.after place within

/-- One more word is finished. -/
theorem push (shows : Shows words finished tail) (word : UInt32)
    (inside : finished.length < words.size) :
    Shows (words.set finished.length word inside) (finished ++ [word])
      fun index => tail (1 + index) := by
  have written := shows.set 0 word inside
  have fits : finished.length + [word].length ≤ (words.set finished.length word inside).size := by
    rw [Array.size_set, List.length_singleton]
    exact inside
  refine (written.append [word] fits ?_).congr ?_
  · intro index first
    obtain rfl : index = 0 := by simpa using first
    rw [Function.update_self, List.getElem_singleton]
  · intro index _
    rw [List.length_singleton, Function.update_of_ne (by omega)]

/-- Words put in place of those after the finished ones. -/
theorem overwrite (shows : Shows words finished tail) (row : List UInt32)
    (fits : finished.length + row.length ≤ words.size) :
    (Decoder.overwrite words finished.length row).size = words.size ∧
      Shows (Decoder.overwrite words finished.length row) (finished ++ row)
        fun index => tail (row.length + index) := by
  unfold Decoder.overwrite
  induction row generalizing words finished tail with
  | nil => simpa using shows
  | cons word row ih =>
    rw [List.length_cons] at fits
    have inside : finished.length < words.size := by omega
    have later := ih (shows.push word inside)
      (by rw [List.length_append, List.length_singleton, Array.size_set]; omega)
    rw [List.length_append, List.length_singleton, Array.size_set, List.append_assoc] at later
    rw [List.foldl_cons, Array.setIfInBounds_def, dif_pos inside]
    refine ⟨later.1, later.2.congr fun index _ => ?_⟩
    congr 1
    rw [List.length_cons]
    omega

end Shows

end HyperCard.Decoder

namespace HyperCard.Raster

variable {raster : Raster} {row : List UInt32} {y : Nat}

/-- A row that lies among the words of a raster can be taken. -/
theorem exists_row? (inside : (y + 1) * raster.wordsPerRow ≤ raster.words.size) :
    ∃ row, raster.row? y = some row := by
  rw [Nat.succ_mul] at inside
  exact ⟨_, if_pos inside⟩

/-- The words of a row are words of the raster. -/
theorem row?_eq_some_iff :
    raster.row? y = some row ↔ y * raster.wordsPerRow + raster.wordsPerRow ≤ raster.words.size ∧
      row.length = raster.wordsPerRow ∧ ∀ column < raster.wordsPerRow,
        raster.words[y * raster.wordsPerRow + column]? = row[column]? := by
  constructor
  · intro found
    unfold row? at found
    dsimp only at found
    split at found
    · rename_i fits
      cases found
      refine ⟨fits, by rw [Array.length_toList, Array.size_extract]; omega, fun column inside => ?_⟩
      rw [Array.getElem?_toList, Array.getElem?_extract, if_pos (by omega)]
    · cases found
  · rintro ⟨fits, length, same⟩
    rw [← length] at fits same
    have sliced := Decoder.slice?_eq raster.words _ row fits same
    rw [length] at sliced
    exact sliced

/-- A row of equal words. -/
theorem eq_replicate_of_row? {word : UInt32} (found : raster.row? y = some row)
    (same : ∀ column < raster.wordsPerRow,
      raster.words[y * raster.wordsPerRow + column]? = some word) :
    row = List.replicate raster.wordsPerRow word := by
  obtain ⟨_, length, shown⟩ := row?_eq_some_iff.mp found
  apply List.eq_replicate_iff.mpr
  refine ⟨length, fun value member => ?_⟩
  obtain ⟨column, inside, rfl⟩ := List.getElem_of_mem member
  rw [length] at inside
  have here := shown column inside
  rw [same column inside, List.getElem?_eq_getElem (by omega)] at here
  exact (Option.some_inj.mp here).symm

/-- A row of the same words as another one. -/
theorem row?_of_same {source : Nat} (above : source ≤ y) (found : raster.row? y = some row)
    (same : ∀ column < raster.wordsPerRow,
      raster.words[source * raster.wordsPerRow + column]? =
        raster.words[y * raster.wordsPerRow + column]?) : raster.row? source = some row := by
  obtain ⟨fits, length, shown⟩ := row?_eq_some_iff.mp found
  apply row?_eq_some_iff.mpr
  refine ⟨?_, length, fun column inside => (same column inside).trans (shown column inside)⟩
  have before := Nat.mul_le_mul_right raster.wordsPerRow above
  omega

end HyperCard.Raster
