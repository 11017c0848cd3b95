import HyperCard.Proofs.Picture.Filling

/-!
# Filling rows

Whole rows are filled word after word, each word computed from those so far, and a row built from
parts is combined with itself and with a row above. In both ways the words of the array become those
of one more row of the draft.
-/
namespace HyperCard.Decoder

open RasterStream (Draft Content Extent wordAt rowOf)

variable {frame : Frame} {progress : Progress} {words : Words} {finished row : List UInt32}

/-- Whether words are computed as those of a row that comes after finished words. -/
def Gives (value : Words → Nat → Except BitmapError UInt32) (finished row : List UInt32) : Prop :=
  ∀ left word right, row = left ++ word :: right → ∀ words,
    Shows words (finished ++ left) (fun _ => 0) →
      value words (finished.length + left.length) = .ok word

/-- The same word everywhere gives a row of it. -/
theorem gives_replicate (finished : List UInt32) (width : Nat) (word : UInt32) :
    Gives (fun _ _ => .ok word) finished (List.replicate width word) := by
  intro left other right parts _ _
  have member : other ∈ List.replicate width word := by
    rw [parts]
    exact List.mem_append_right _ List.mem_cons_self
  rw [List.eq_of_mem_replicate member]

/-- The row so far above the next one begins so far before the end of the finished words. -/
theorem length_above {rows : List (List UInt32)} {width distance : Nat}
    (widths : ∀ row ∈ rows, row.length = width) (exists_above : distance ≤ rows.length) :
    (rows.length - distance) * width + distance * width = rows.flatten.length := by
  rw [length_flatten_rows widths, ← Nat.add_mul, Nat.sub_add_cancel exists_above]

/-- Each of the finished rows is found in the array. -/
theorem Shows.word_of_row {rows : List (List UInt32)} {width index column : Nat}
    {more : List UInt32} {tail : Nat → UInt32} (shows : Shows words (rows.flatten ++ more) tail)
    (widths : ∀ row ∈ rows, row.length = width) (found : rows[index]? = some row)
    (inside : column < width) : words[index * width + column]? = row[column]? := by
  have less := (List.getElem?_eq_some_iff.mp found).1
  have part : (index + 1) * width ≤ rows.length * width := Nat.mul_le_mul_right _ less
  rw [Nat.succ_mul, ← length_flatten_rows widths] at part
  have early : index * width + column < rows.flatten.length := by omega
  rw [shows.before _ (by rw [List.length_append]; omega), List.getElem?_append_left early,
    getElem?_flatten_rows widths found inside]

/-- The words above give the row above. -/
theorem gives_above {rows : List (List UInt32)} {width distance : Nat}
    (widths : ∀ row ∈ rows, row.length = width) (exists_above : distance ≤ rows.length)
    (positive : 0 < distance) :
    Gives (wordAbove progress (distance * width)) rows.flatten
      (rows.getD (rows.length - distance) []) := by
  intro left word right parts words shows
  have less : rows.length - distance < rows.length := by omega
  have found : rows[rows.length - distance]? = some (left ++ word :: right) := by
    rw [← parts, List.getD_eq_getElem _ _ less, List.getElem?_eq_getElem less]
  have width_eq : (left ++ word :: right).length = width :=
    widths _ (List.mem_of_getElem? found)
  have inside : left.length < width := by
    rw [← width_eq, List.length_append, List.length_cons]
    omega
  have split := length_above widths exists_above
  have source : rows.flatten.length + left.length - distance * width =
      (rows.length - distance) * width + left.length := by omega
  have above : words[rows.flatten.length + left.length - distance * width]? = some word := by
    rw [source, shows.word_of_row widths found inside, List.getElem?_append_right (Nat.le_refl _),
      Nat.sub_self]
    rfl
  rw [wordAbove, if_neg (by omega), above]

/-- A row is filled with the words computed for it. -/
theorem fillRow_shows (progress : Progress) {value : Words → Nat → Except BitmapError UInt32}
    (shows : Shows words finished fun _ => 0) (fits : finished.length + row.length ≤ words.size)
    (gives : Gives value finished row) :
    ∃ filled, fillRow progress value row.length finished.length words = .ok filled ∧
      filled.size = words.size ∧ Shows filled (finished ++ row) fun _ => 0 := by
  induction row generalizing words finished with
  | nil =>
    refine ⟨words, rfl, rfl, ?_⟩
    rwa [List.append_nil]
  | cons word row ih =>
    rw [List.length_cons] at fits
    have inside : finished.length < words.size := by omega
    have first : value words finished.length = .ok word :=
      gives [] word row rfl words (by rwa [List.append_nil])
    have pushed := shows.push word inside
    have others : Gives value (finished ++ [word]) row := by
      intro left next right parts later shown
      have here := gives (word :: left) next right (by rw [parts, List.cons_append]) later
        (by rwa [List.append_assoc, List.singleton_append] at shown)
      have place : (finished ++ [word]).length + left.length =
          finished.length + (word :: left).length := by
        rw [List.length_append, List.length_singleton, List.length_cons]
        omega
      rwa [place]
    have room : (finished ++ [word]).length + row.length ≤
        (words.set finished.length word inside).size := by
      rw [List.length_append, List.length_singleton, Array.size_set]
      omega
    obtain ⟨filled, run, size, shown⟩ := ih pushed room others
    rw [Array.size_set] at size
    rw [List.append_assoc, List.singleton_append] at shown
    rw [List.length_append, List.length_singleton] at run
    refine ⟨filled, ?_, size, shown⟩
    rw [List.length_cons, fillRow, first]
    simp only [bind, Except.bind, setWord?, dif_pos inside]
    exact run

/-- Whole rows are filled one after the other. -/
theorem fillRows_shows {value : Int → Words → Nat → Except BitmapError UInt32} {extent : Extent}
    (width : frame.wordsPerRow = extent.wordsPerRow) (content : Content) (count : Nat)
    {draft : Draft} (widths : ∀ row ∈ draft.rows, row.length = extent.wordsPerRow)
    (room : (draft.rows.length + count) * extent.wordsPerRow ≤ words.size)
    (shows : Shows words draft.rows.flatten fun _ => 0)
    (gives : 0 < count → ∀ later : Draft, later.history = draft.history →
      draft.rows.length ≤ later.rows.length →
      (∀ row ∈ later.rows, row.length = extent.wordsPerRow) →
      (later.wholeRow extent content).length = extent.wordsPerRow ∧
        Gives (value (later.y extent)) later.rows.flatten (later.wholeRow extent content)) :
    ∃ filled,
      fillRows frame progress value count (draft.y extent) draft.rows.flatten.length words =
          .ok filled ∧
        filled.size = words.size ∧
          Shows filled (draft.addRows extent content count).rows.flatten (fun _ => 0) ∧
            ∀ row ∈ (draft.addRows extent content count).rows,
              row.length = extent.wordsPerRow := by
  induction count generalizing words draft with
  | zero => exact ⟨words, rfl, rfl, shows, widths⟩
  | succ count ih =>
    obtain ⟨length, given⟩ := gives (Nat.succ_pos _) draft rfl (Nat.le_refl _) widths
    have total := length_flatten_rows widths
    have enough : draft.rows.flatten.length + (draft.wholeRow extent content).length ≤
        words.size := by
      have part : (draft.rows.length + 1) * extent.wordsPerRow ≤
          (draft.rows.length + (count + 1)) * extent.wordsPerRow :=
        Nat.mul_le_mul_right _ (by omega)
      rw [Nat.succ_mul] at part
      omega
    obtain ⟨first, run, size, shown⟩ := fillRow_shows progress shows enough given
    let next : Draft := { draft with rows := draft.rows ++ [draft.wholeRow extent content] }
    have count_next : next.rows.length = draft.rows.length + 1 := by
      rw [List.length_append, List.length_singleton]
    have flat : next.rows.flatten = draft.rows.flatten ++ draft.wholeRow extent content := by
      rw [List.flatten_append, List.flatten_singleton]
    have later : next.y extent = draft.y extent + 1 := by
      rw [Draft.y, Draft.y, count_next]
      omega
    have kept : ∀ row ∈ next.rows, row.length = extent.wordsPerRow :=
      List.forall_mem_append.mpr ⟨widths, List.forall_mem_singleton.mpr length⟩
    have enough_next : (next.rows.length + count) * extent.wordsPerRow ≤ first.size := by
      rw [count_next, size, Nat.add_assoc, Nat.add_comm 1]
      exact room
    obtain ⟨filled, rest, same, done, all⟩ := ih kept enough_next (flat ▸ shown)
      fun _ other history more => gives (Nat.succ_pos _) other history (by omega)
    refine ⟨filled, ?_, same.trans size, done, all⟩
    rw [fillRows, width, ← length, run]
    rw [later, flat, List.length_append] at rest
    exact rest

/-- A row made of bytes has the width that is asked for. -/
theorem length_rowOf (width : Nat) (bytes : List UInt8) : (rowOf width bytes).length = width := by
  rw [rowOf, List.length_map, List.length_range]

/-- A row combined across has as many words. -/
theorem length_across (distance : Nat) (row : List UInt32) :
    (Raster.across distance row).length = row.length := by
  rw [Raster.across, List.length_map, List.length_range]

/-- A row built from parts, combined with itself. -/
def combinedAcross (draft : Draft) (row : List UInt32) : List UInt32 :=
  if draft.dx = 0 then row else Raster.across draft.dx row

/-- So has a row combined with itself, at whatever distance. -/
theorem length_combinedAcross (draft : Draft) (row : List UInt32) :
    (combinedAcross draft row).length = row.length := by
  rw [combinedAcross]
  by_cases zero : draft.dx = 0
  · rw [if_pos zero]
  · rw [if_neg zero, length_across]

/-- The extent that a frame fills. -/
def Frame.extent (frame : Frame) : Extent :=
  ⟨frame.wordsPerRow, (frame.bottom - frame.top).toNat, frame.top⟩

/-- The extent has the width of the frame. -/
@[simp] theorem Frame.extent_wordsPerRow (frame : Frame) :
    frame.extent.wordsPerRow = frame.wordsPerRow := rfl

/-- It has a row for each one between its edges. -/
@[simp] theorem Frame.extent_height (frame : Frame) :
    frame.extent.height = (frame.bottom - frame.top).toNat := rfl

/-- It begins at the upper edge. -/
@[simp] theorem Frame.extent_top (frame : Frame) : frame.extent.top = frame.top := rfl

/-- Decoding has come as far as a draft, and the array shows its rows and the bytes of the next
one. -/
structure Follows (frame : Frame) (draft : Draft) (progress : Progress) (words : Words) : Prop where
  /-- The array holds the raster. -/
  size : words.size = frame.extent.height * frame.wordsPerRow
  /-- The rows that are finished belong to the raster. -/
  inside : draft.rows.length ≤ frame.extent.height
  /-- They all have its width. -/
  widths : ∀ row ∈ draft.rows, row.length = frame.wordsPerRow
  /-- They come first, and then the bytes of the next row. -/
  shows : Shows words draft.rows.flatten (wordAt draft.current)
  /-- What lies beyond the next row is white. -/
  white : ∀ index, 4 * frame.wordsPerRow ≤ index → draft.current.getD index 0 = 0
  /-- The next row begins after the finished ones. -/
  rowStart : progress.rowStart = draft.rows.flatten.length
  /-- It is the row of the draft. -/
  y : progress.y = draft.y frame.extent
  /-- Its next pixel comes after the bytes of the draft. -/
  x : progress.x = 8 * draft.current.length
  /-- The next instruction acts as often. -/
  repetitions : progress.repetitions = draft.copies
  /-- Rows are combined across in the same way. -/
  dx : progress.dx = draft.dx
  /-- The distance across divides a word. -/
  whole : draft.dx = 0 ∨ ∃ copies, draft.dx * copies = 32
  /-- Rows are combined with those above in the same way. -/
  dy : progress.dy = draft.dy
  /-- The same bytes are remembered. -/
  remembered : ∀ y, progress.remembered y = draft.history y

section Combine

variable {draft : Draft} {tail : Nat → UInt32}

/-- There is room for the next row. -/
theorem Follows.room (follows : Follows frame draft progress words)
    (unfinished : draft.rows.length < frame.extent.height) :
    draft.rows.flatten.length + frame.wordsPerRow ≤ words.size := by
  have some : (draft.rows.length + 1) * frame.wordsPerRow ≤
      frame.extent.height * frame.wordsPerRow := Nat.mul_le_mul_right _ unfinished
  rw [length_flatten_rows follows.widths, follows.size]
  rwa [Nat.succ_mul] at some

/-- A row built from parts is combined with itself. -/
theorem combineWithSelf_shows (follows : Follows frame draft progress words)
    (unfinished : draft.rows.length < frame.extent.height) :
    ∃ filled, combineWithSelf frame progress words = .ok filled ∧ filled.size = words.size ∧
      Shows filled
        (draft.rows.flatten ++ combinedAcross draft (rowOf frame.wordsPerRow draft.current))
        fun index => wordAt draft.current (frame.wordsPerRow + index) := by
  have room := follows.room unfinished
  have length := length_rowOf frame.wordsPerRow draft.current
  have word : ∀ index (inside : index < (rowOf frame.wordsPerRow draft.current).length),
      wordAt draft.current index = (rowOf frame.wordsPerRow draft.current)[index] := by
    intro index inside
    simp only [rowOf, List.getElem_map, List.getElem_range]
  rw [combineWithSelf, follows.dx, combinedAcross]
  by_cases zero : draft.dx = 0
  · have shown := follows.shows.append _ (by rwa [length]) word
    rw [length] at shown
    rw [if_pos zero, if_pos zero]
    exact ⟨words, rfl, rfl, shown⟩
  · obtain ⟨copies, whole⟩ := follows.whole.resolve_left zero
    have sliced : slice? words progress.rowStart frame.wordsPerRow =
        some (rowOf frame.wordsPerRow draft.current) := by
      have found := slice?_eq words progress.rowStart (rowOf frame.wordsPerRow draft.current)
        (by rw [length, follows.rowStart]; exact room) fun index less => by
          rw [follows.rowStart, follows.shows.after index (by rw [length] at less; omega),
            word index less, List.getElem?_eq_getElem less]
      rwa [length] at found
    rw [if_neg zero, if_neg zero, sliced]
    dsimp only
    rw [combineAcross_eq whole, follows.rowStart]
    have combined := length_across draft.dx (rowOf frame.wordsPerRow draft.current)
    rw [length] at combined
    obtain ⟨size, shown⟩ := follows.shows.overwrite
      (Raster.across draft.dx (rowOf frame.wordsPerRow draft.current))
      (by rw [combined]; exact room)
    rw [combined] at shown
    exact ⟨_, rfl, size, shown⟩

/-- A row built from parts is combined with a row above. -/
theorem combineWithAbove_shows {before : Words} (follows : Follows frame draft progress before)
    (size : words.size = before.size) (unfinished : draft.rows.length < frame.extent.height)
    (length : row.length = frame.wordsPerRow)
    (shows : Shows words (draft.rows.flatten ++ row) tail) :
    ∃ filled, combineWithAbove frame progress words = .ok filled ∧ filled.size = words.size ∧
      Shows filled
        (draft.rows.flatten ++
          if draft.dy = 0 ∨ draft.rows.length < draft.dy then row
          else List.zipWith (· ^^^ ·) row (draft.rows.getD (draft.rows.length - draft.dy) []))
        tail := by
  have room := follows.room unfinished
  have near : progress.y - frame.top < draft.dy ↔ draft.rows.length < draft.dy := by
    rw [follows.y, Draft.y, Frame.extent_top]
    omega
  simp only [combineWithAbove, follows.dy, near]
  by_cases none : draft.dy = 0 ∨ draft.rows.length < draft.dy
  · rw [if_pos none, if_pos none]
    exact ⟨words, rfl, rfl, shows⟩
  · rw [not_or, Nat.not_lt] at none
    obtain ⟨some, high⟩ := none
    have less : draft.rows.length - draft.dy < draft.rows.length := by omega
    have found : draft.rows[draft.rows.length - draft.dy]? =
        .some (draft.rows.getD (draft.rows.length - draft.dy) []) := by
      rw [List.getD_eq_getElem _ _ less, List.getElem?_eq_getElem less]
    generalize draft.rows.getD (draft.rows.length - draft.dy) [] = above at found
    have above_length : above.length = frame.wordsPerRow :=
      follows.widths _ (List.mem_of_getElem? found)
    have split := length_above follows.widths high
    have least : frame.wordsPerRow ≤ draft.dy * frame.wordsPerRow :=
      Nat.le_mul_of_pos_left _ (Nat.pos_of_ne_zero some)
    have source : progress.rowStart - draft.dy * frame.wordsPerRow =
        (draft.rows.length - draft.dy) * frame.wordsPerRow := by
      rw [follows.rowStart]
      omega
    have first := slice?_eq words ((draft.rows.length - draft.dy) * frame.wordsPerRow) above
      (by omega) fun index less => by
        rw [above_length] at less
        exact shows.word_of_row follows.widths found less
    have second := slice?_eq words progress.rowStart row (by rw [follows.rowStart]; omega)
      fun index less => by
        rw [follows.rowStart, shows.before _ (by rw [List.length_append]; omega),
          List.getElem?_append_right (Nat.le_add_right _ _), Nat.add_sub_cancel_left]
    rw [above_length] at first
    rw [length] at second
    have mixed : (List.zipWith (· ^^^ ·) row above).length = frame.wordsPerRow := by
      rw [List.length_zipWith, length, above_length, Nat.min_self]
    obtain ⟨same, shown⟩ := shows.split.overwrite (List.zipWith (· ^^^ ·) row above)
      (by rw [mixed]; omega)
    rw [if_neg (by omega), if_neg (by rw [follows.rowStart]; omega), if_neg (by omega), source,
      first, second, follows.rowStart]
    refine ⟨_, rfl, same, shown.congr fun index _ => ?_⟩
    have beyond : ¬ frame.wordsPerRow + index < row.length := by omega
    rw [mixed, dif_neg beyond, length, Nat.add_sub_cancel_left]

/-- A row built from parts becomes the next row of the draft. -/
theorem combineRow_shows (follows : Follows frame draft progress words)
    (unfinished : draft.rows.length < frame.extent.height) :
    ∃ filled, combineRow frame progress words = .ok filled ∧ filled.size = words.size ∧
      Shows filled
        (draft.rows.flatten ++ draft.combined (rowOf frame.wordsPerRow draft.current))
        fun index => wordAt draft.current (frame.wordsPerRow + index) := by
  obtain ⟨first, across, size, shown⟩ := combineWithSelf_shows follows unfinished
  have length : (combinedAcross draft (rowOf frame.wordsPerRow draft.current)).length =
      frame.wordsPerRow := by
    rw [length_combinedAcross, length_rowOf]
  obtain ⟨filled, above, same, done⟩ :=
    combineWithAbove_shows follows size unfinished length shown
  refine ⟨filled, ?_, same.trans size, done⟩
  rw [combineRow, across]
  exact above

end Combine

end HyperCard.Decoder
