import HyperCard.Proofs.Picture.Decoding

/-!
# Writing a raster with combined rows

A raster can be written row by row as bytes, each row under its own way of combining. The encoder
takes the decoder's two steps back in the opposite order: it combines a row with the row so far
above, and the result with itself shifted right once. Summed over all multiples of the distance,
as the decoder does across, a row and its shifted copy cancel out but for the row itself. So every
raster is read back as it was written.
-/
namespace HyperCard

/-- Neighbours in a sum cancel out but for the first and the last. -/
theorem xorBelow.neighbours (count : Nat) (values : Nat → Bool) :
    (xorBelow count fun index => values index ^^ values (index + 1)) =
      (values 0 ^^ values count) := by
  induction count with
  | zero => rw [xorBelow, Bool.xor_self]
  | succ count ih =>
    rw [xorBelow, ih, Bool.xor_assoc, ← Bool.xor_assoc (values count), Bool.xor_self,
      Bool.false_xor]

namespace Raster

/-- A row shifted right by a distance; white pixels come in from the left. -/
def shifted (distance : Nat) (row : List UInt32) : List UInt32 :=
  (List.range row.length).map fun index => wordOfPixels fun column =>
    let x := 32 * index + column
    distance ≤ x && rowPixel row (x - distance)

section Rows

variable {left right row : List UInt32} {distance x : Nat}

/-- Rows of one width with the same pixels are the same. -/
theorem row_ext (width : left.length = right.length)
    (same : ∀ x < 32 * left.length, rowPixel left x = rowPixel right x) : left = right := by
  refine List.ext_getElem width fun index inLeft inRight => word_ext fun column inside => ?_
  have pixel := same (32 * index + column) (by omega)
  have word : (32 * index + column) / 32 = index := by omega
  have bit : (32 * index + column) % 32 = column := by omega
  rwa [rowPixel, rowPixel, word, bit, List.getD_eq_getElem _ _ inLeft,
    List.getD_eq_getElem _ _ inRight] at pixel

/-- The pixels of a row that is made from pixels. -/
theorem rowPixel_map (pixels : Nat → Bool) {count : Nat} (inside : x < 32 * count) :
    rowPixel ((List.range count).map fun index => wordOfPixels fun column =>
      pixels (32 * index + column)) x = pixels x := by
  have word : x / 32 < count := by omega
  rw [rowPixel, List.getD_eq_getElem _ _ (by simpa using word), List.getElem_map,
    List.getElem_range, wordPixel_wordOfPixels _ (Nat.mod_lt _ (by decide)), Nat.div_add_mod]

/-- The pixels of two rows that are combined are combined one by one. -/
theorem rowPixel_zipWith (width : left.length = right.length) :
    rowPixel (List.zipWith (· ^^^ ·) left right) x = (rowPixel left x ^^ rowPixel right x) := by
  have length : (List.zipWith (· ^^^ ·) left right).length = left.length := by
    rw [List.length_zipWith, width, Nat.min_self]
  by_cases inside : x / 32 < left.length
  · rw [rowPixel, List.getD_eq_getElem _ _ (length ▸ inside), List.getElem_zipWith, wordPixel_xor,
      rowPixel, List.getD_eq_getElem _ _ inside, rowPixel,
      List.getD_eq_getElem _ _ (width ▸ inside)]
  · have beyond := Nat.not_lt.mp inside
    rw [rowPixel, List.getD_eq_default _ _ (length ▸ beyond), rowPixel,
      List.getD_eq_default _ _ beyond, rowPixel, List.getD_eq_default _ _ (width ▸ beyond),
      wordPixel_zero]
    rfl

/-- A row keeps its length when it is shifted. -/
theorem length_shifted (distance : Nat) (row : List UInt32) :
    (shifted distance row).length = row.length := by
  rw [shifted, List.length_map, List.length_range]

/-- What is combined with itself shifted once is had back by combining it across. -/
theorem across_shifted (positive : 0 < distance) (row : List UInt32) :
    across distance (List.zipWith (· ^^^ ·) row (shifted distance row)) = row := by
  have width := length_shifted distance row
  have mixed : (List.zipWith (· ^^^ ·) row (shifted distance row)).length = row.length := by
    rw [List.length_zipWith, width, Nat.min_self]
  have length : (across distance (List.zipWith (· ^^^ ·) row (shifted distance row))).length =
      row.length := by
    rw [Decoder.length_across, mixed]
  refine row_ext length fun x inside => ?_
  rw [length] at inside
  -- The pixel so many distances to the left, as long as the row reaches there.
  let pixel (count : Nat) : Bool :=
    decide (distance * count ≤ x) && rowPixel row (x - distance * count)
  have terms : ∀ count < x / distance + 1,
      rowPixel (List.zipWith (· ^^^ ·) row (shifted distance row)) (x - distance * count) =
        (pixel count ^^ pixel (count + 1)) := by
    intro count less
    have fits : distance * count ≤ x :=
      Nat.le_trans (Nat.mul_le_mul_left _ (Nat.lt_succ_iff.mp less)) (Nat.mul_div_le _ _)
    have next : distance * (count + 1) = distance * count + distance := Nat.mul_succ _ _
    have reached : (distance ≤ x - distance * count) = (distance * count + distance ≤ x) := by
      apply propext
      omega
    rw [rowPixel_zipWith width.symm, shifted,
      rowPixel_map (fun x => decide (distance ≤ x) && rowPixel row (x - distance)) (by omega)]
    simp only [pixel, next, fits, reached, decide_true, Bool.true_and, Nat.sub_add_eq]
  have last : pixel (x / distance + 1) = false := by
    have beyond : x < distance * (x / distance + 1) := Nat.lt_mul_div_succ x positive
    simp [pixel, Nat.not_le.mpr beyond]
  have first : pixel 0 = rowPixel row x := by simp [pixel]
  rw [across, rowPixel_map (fun x => xorBelow (x / distance + 1) fun count =>
    rowPixel (List.zipWith (· ^^^ ·) row (shifted distance row)) (x - distance * count))
    (by rw [mixed]; exact inside), xorBelow.congr terms, xorBelow.neighbours, last, first,
    Bool.xor_false]

/-- What is combined with a row is had back by combining it with the same row again. -/
theorem zipWith_twice (width : left.length = right.length) :
    List.zipWith (· ^^^ ·) (List.zipWith (· ^^^ ·) left right) right = left := by
  have length : (List.zipWith (· ^^^ ·) left right).length = left.length := by
    rw [List.length_zipWith, width, Nat.min_self]
  refine List.ext_getElem (by rw [List.length_zipWith, length, width, Nat.min_self]) ?_
  intro index _ _
  rw [List.getElem_zipWith, List.getElem_zipWith, UInt32.xor_assoc, UInt32.xor_self,
    UInt32.xor_zero]

end Rows

/-- The rows of a raster, in order. -/
def rows (raster : Raster) : List (List UInt32) :=
  (List.range raster.height).map fun y => (raster.row? y).getD []

/-- A row as it is written for a way of combining: combined with the row so far above, if there is
one, and then with itself shifted. -/
def encodedRow (rows : List (List UInt32)) (y : Nat) (kind : Fin 8) : List UInt32 :=
  let (dx, dy) := RasterStream.deltas.get kind
  let row := rows.getD y []
  let mixed :=
    if 0 < dy ∧ dy ≤ y then List.zipWith (· ^^^ ·) row (rows.getD (y - dy) []) else row
  if 0 < dx then List.zipWith (· ^^^ ·) mixed (shifted dx mixed) else mixed

/-- The bytes of a raster, written with a way of combining for each row: the instruction to combine,
and for each word an instruction for four bytes. -/
def encoded (raster : Raster) (kinds : Nat → Fin 8) : List UInt8 :=
  (List.range raster.height).flatMap fun y =>
    UInt8.ofNat (0x88 + kinds y) ::
      (encodedRow raster.rows y (kinds y)).flatMap fun word => 0x40 :: RasterStream.wordBytes word

/-- Whether a raster has all its words and fits a rectangle, widened to whole words. -/
structure Fills (raster : Raster) (rectangle : Rectangle) : Prop where
  /-- The words are those of all rows. -/
  size : raster.words.size = raster.height * raster.wordsPerRow
  /-- The rows are as wide as the rectangle. -/
  width : rectangle.alignedToWords.width = raster.width
  /-- There are as many rows as in the rectangle. -/
  height : rectangle.height = raster.height

end Raster

namespace RasterStream

/-- The bytes of a word make the word. -/
theorem wordOfBytes_wordBytes (word : UInt32) :
    wordOfBytes (word >>> 24).toUInt8 (word >>> 16).toUInt8 (word >>> 8).toUInt8 word.toUInt8 =
      word := by
  apply UInt32.toNat_inj.mp
  apply Nat.eq_of_testBit_eq
  intro bit
  have beyond : 32 ≤ bit → word.toNat.testBit bit = false := fun large =>
    Nat.testBit_lt_two_pow
      (Nat.lt_of_lt_of_le word.toNat_lt (Nat.pow_le_pow_right (by decide) large))
  simp only [wordOfBytes, UInt32.toNat_or, UInt32.toNat_shiftLeft, UInt8.toNat_toUInt32,
    UInt32.toNat_toUInt8, UInt32.toNat_shiftRight, Nat.testBit_or, UInt32.reduceToNat,
    Nat.reduceMod, Nat.testBit_mod_two_pow, Nat.testBit_shiftLeft, Nat.testBit_shiftRight]
  grind

/-- The bytes of a row make the row. -/
theorem rowOf_flatMap_wordBytes (row : List UInt32) :
    rowOf row.length (row.flatMap wordBytes) = row := by
  induction row with
  | nil => rfl
  | cons word row ih =>
    rw [rowOf] at ih ⊢
    rw [List.length_cons, List.range_succ_eq_map, List.map_cons, List.map_map, List.flatMap_cons]
    exact List.cons_eq_cons.mpr ⟨wordOfBytes_wordBytes word, ih⟩

/-- The instruction for the four bytes of a word. -/
def wordPiece (word : UInt32) : Piece :=
  .packed ⟨0, Nat.succ_pos _⟩ ⟨4, by decide⟩
    #v[(word >>> 24).toUInt8, (word >>> 16).toUInt8, (word >>> 8).toUInt8, word.toUInt8]

/-- The instructions for a row with its way of combining. -/
def rowPieces (kind : Fin 8) (row : List UInt32) : List Piece :=
  .delta kind :: row.map wordPiece

/-- A row takes the byte of its kind, and five bytes for each of its words. -/
theorem bytes_rowPieces (kind : Fin 8) (row : List UInt32) :
    bytes (rowPieces kind row) =
      UInt8.ofNat (0x88 + kind) :: row.flatMap fun word => 0x40 :: wordBytes word := by
  have words : (row.map wordPiece).flatMap Piece.bytes =
      row.flatMap fun word => 0x40 :: wordBytes word := by
    rw [List.flatMap_map]
    rfl
  rw [bytes, rowPieces, List.flatMap_cons, words]
  rfl

namespace Draft

variable {extent : Extent} {draft next last : Draft} {pieces others : List Piece}

/-- Whether pieces may come next and lead to a draft. -/
structure Makes (extent : Extent) (draft : Draft) (pieces : List Piece) (next : Draft) : Prop where
  /-- What completes the raster after them completes it together with them. -/
  completes : ∀ stream, next.Completes extent stream → draft.Completes extent (pieces ++ stream)
  /-- They lead to the draft. -/
  made : pieces.foldl (step extent) draft = next

/-- No pieces lead nowhere else. -/
theorem Makes.nil : Makes extent draft [] draft := ⟨fun _ completes => completes, rfl⟩

/-- Pieces lead on from where other pieces led. -/
theorem Makes.append (first : Makes extent draft pieces next)
    (second : Makes extent next others last) : Makes extent draft (pieces ++ others) last where
  completes stream completes := by
    rw [List.append_assoc]
    exact first.completes _ (second.completes _ completes)
  made := by rw [List.foldl_append, first.made, second.made]

/-- A piece that is accepted before the last row may come first. -/
theorem Makes.cons {piece : Piece} (unfinished : draft.rows.length < extent.height)
    (accepts : draft.Accepts extent piece)
    (makes : Makes extent (draft.step extent piece) pieces next) :
    Makes extent draft (piece :: pieces) next :=
  ⟨fun stream completes => ⟨unfinished, accepts, makes.completes stream completes⟩, makes.made⟩

/-- The words of a row, written one after the other, finish the row. -/
theorem makes_words {done rest : List UInt32} (unfinished : draft.rows.length < extent.height)
    (single : draft.copies = 1) (written : draft.current = done.flatMap wordBytes)
    (width : (done ++ rest).length = extent.wordsPerRow) (some : rest ≠ []) :
    Makes extent draft (rest.map wordPiece)
      { draft with
        rows := draft.rows ++ [draft.combined (done ++ rest)], current := [], copies := 1 } := by
  induction rest generalizing draft done with
  | nil => exact absurd rfl some
  | cons word rest ih =>
    have here : draft.current ++ wordBytes word = (done ++ [word]).flatMap wordBytes := by
      rw [written, List.flatMap_append, List.flatMap_singleton]
    have performed : draft.perform extent (wordPiece word) =
        { draft with current := (done ++ [word]).flatMap wordBytes, copies := 1 } := by
      rw [← here]
      simp only [wordPiece, perform, append, single]
      rfl
    have count := length_flatMap_wordBytes (done ++ [word])
    have whole : done ++ word :: rest = (done ++ [word]) ++ rest := by
      rw [List.append_assoc, List.singleton_append]
    have accepts : draft.Accepts extent (wordPiece word) := by
      refine .inr ?_
      rw [written, single, length_flatMap_wordBytes, ← width, List.length_append, List.length_cons]
      change 4 * done.length + 1 * (0 + 4) ≤ _
      omega
    refine .cons unfinished accepts ?_
    rw [step, performed, close]
    by_cases final : rest = []
    · subst final
      rw [whole, List.append_nil] at width ⊢
      dsimp only
      rw [if_pos (by rw [count, width]), ← width, rowOf_flatMap_wordBytes]
      exact .nil
    · have more := List.length_pos_iff.mpr final
      have short : ¬ 4 * extent.wordsPerRow ≤ ((done ++ [word]).flatMap wordBytes).length := by
        rw [count, ← width, whole, @List.length_append _ (done ++ [word])]
        omega
      rw [whole] at width ⊢
      dsimp only
      rw [if_neg short]
      exact ih unfinished rfl rfl width final

section Rows

variable {rows : List (List UInt32)} {y : Nat}

/-- A row is had back from what is written for it. -/
theorem combined_encodedRow (widths : ∀ row ∈ rows, row.length = extent.wordsPerRow)
    (below : y < rows.length) (kind : Fin 8) (made : draft.rows = rows.take y)
    (dx : draft.dx = (deltas.get kind).1) (dy : draft.dy = (deltas.get kind).2) :
    draft.combined (Raster.encodedRow rows y kind) = rows[y] ∧
      (Raster.encodedRow rows y kind).length = extent.wordsPerRow := by
  have count : draft.rows.length = y := by
    rw [made, List.length_take, Nat.min_eq_left (Nat.le_of_lt below)]
  have width : rows[y].length = extent.wordsPerRow := widths _ (List.getElem_mem below)
  have here : rows.getD y [] = rows[y] := List.getD_eq_getElem _ _ below
  rw [combined, Raster.encodedRow, here, dx, dy, count]
  generalize deltas.get kind = delta
  obtain ⟨across, up⟩ := delta
  dsimp only
  -- What is combined with the row above, if there is one, and what takes it back.
  obtain ⟨mixed, mixedWidth, mixedEq, back⟩ : ∃ mixed : List UInt32,
      mixed.length = extent.wordsPerRow ∧
      (if 0 < up ∧ up ≤ y then List.zipWith (· ^^^ ·) rows[y] (rows.getD (y - up) [])
        else rows[y]) = mixed ∧
      (if up = 0 ∨ y < up then mixed
        else List.zipWith (· ^^^ ·) mixed (draft.rows.getD (y - up) [])) = rows[y] := by
    by_cases reached : 0 < up ∧ up ≤ y
    · have less : y - up < rows.length := by omega
      have above : draft.rows.getD (y - up) [] = rows[y - up] := by
        rw [List.getD_eq_getElem _ _ (by omega)]
        simp only [made, List.getElem_take]
      have aboveWidth : rows[y - up].length = extent.wordsPerRow :=
        widths _ (List.getElem_mem less)
      rw [if_pos reached, List.getD_eq_getElem _ _ less]
      refine ⟨_, ?_, rfl, ?_⟩
      · rw [List.length_zipWith, width, aboveWidth, Nat.min_self]
      · rw [if_neg (by omega), above, Raster.zipWith_twice (width.trans aboveWidth.symm)]
    · rw [if_neg reached]
      exact ⟨_, width, rfl, if_pos (by omega)⟩
  rw [mixedEq]
  by_cases shifts : 0 < across
  · have length := Raster.length_shifted across mixed
    rw [if_pos shifts, if_neg (Nat.ne_of_gt shifts), Raster.across_shifted shifts, back]
    exact ⟨rfl, by rw [List.length_zipWith, length, Nat.min_self, mixedWidth]⟩
  · rw [if_neg shifts, if_pos (Nat.eq_zero_of_not_pos shifts), back]
    exact ⟨rfl, mixedWidth⟩

/-- What is written for a row makes it the next row. -/
theorem makes_row (wide : extent.wordsPerRow ≠ 0) (height : rows.length = extent.height)
    (widths : ∀ row ∈ rows, row.length = extent.wordsPerRow) (below : y < rows.length)
    (kind : Fin 8) (made : draft.rows = rows.take y) (fresh : draft.current = [])
    (single : draft.copies = 1) :
    ∃ next : Draft, next.rows = rows.take (y + 1) ∧ next.current = [] ∧ next.copies = 1 ∧
      Makes extent draft (rowPieces kind (Raster.encodedRow rows y kind)) next := by
  let combining : Draft :=
    { draft with dx := (deltas.get kind).1, dy := (deltas.get kind).2 }
  obtain ⟨back, width⟩ :=
    @combined_encodedRow extent combining rows y widths below kind made rfl rfl
  have count : draft.rows.length = y := by
    rw [made, List.length_take, Nat.min_eq_left (Nat.le_of_lt below)]
  have unfinished : draft.rows.length < extent.height := by
    rw [count, ← height]
    exact below
  have stepped : draft.step extent (.delta kind) = combining := by
    have short : ¬ 4 * extent.wordsPerRow ≤ combining.current.length := by
      change ¬ _ ≤ draft.current.length
      rw [fresh, List.length_nil]
      omega
    rw [step, close]
    exact if_neg short
  have words : Makes extent combining ((Raster.encodedRow rows y kind).map wordPiece) _ :=
    @makes_words extent combining [] _ unfinished single fresh width fun none => by
      rw [none] at width
      exact wide width.symm
  refine ⟨_, ?_, rfl, rfl, .cons unfinished trivial (stepped.symm ▸ words)⟩
  rw [stepped]
  change draft.rows ++ [combining.combined (Raster.encodedRow rows y kind)] = _
  rw [back, List.take_succ_eq_append_getElem below, made]

/-- What is written for the first rows makes them. -/
theorem makes_rows (wide : extent.wordsPerRow ≠ 0) (height : rows.length = extent.height)
    (widths : ∀ row ∈ rows, row.length = extent.wordsPerRow) (kinds : Nat → Fin 8)
    (below : y ≤ rows.length) :
    ∃ next : Draft, next.rows = rows.take y ∧ next.current = [] ∧ next.copies = 1 ∧
      Makes extent (.initial extent)
        ((List.range y).flatMap fun y => rowPieces (kinds y) (Raster.encodedRow rows y (kinds y)))
        next := by
  induction y with
  | zero => exact ⟨_, if_neg wide, rfl, rfl, .nil⟩
  | succ y ih =>
    obtain ⟨draft, made, fresh, single, makes⟩ := ih (Nat.le_of_succ_le below)
    obtain ⟨next, more, after, once, row⟩ :=
      makes_row wide height widths below (kinds y) made fresh single
    refine ⟨next, more, after, once, ?_⟩
    rw [List.range_succ, List.flatMap_append, List.flatMap_singleton]
    exact makes.append row

end Rows

end Draft
end RasterStream

namespace Raster

variable {raster : Raster}

/-- A raster has a row for each line of its height. -/
theorem length_rows (raster : Raster) : raster.rows.length = raster.height := by
  rw [rows, List.length_map, List.length_range]

/-- A row of a raster with all its words. -/
theorem row?_eq (size : raster.words.size = raster.height * raster.wordsPerRow) {y : Nat}
    (below : y < raster.height) :
    y * raster.wordsPerRow + raster.wordsPerRow ≤ raster.words.size ∧
      raster.row? y = some (raster.words.extract (y * raster.wordsPerRow)
        (y * raster.wordsPerRow + raster.wordsPerRow)).toList := by
  have inside : y * raster.wordsPerRow + raster.wordsPerRow ≤ raster.words.size := by
    rw [size, ← Nat.succ_mul]
    exact Nat.mul_le_mul_right _ below
  exact ⟨inside, if_pos inside⟩

/-- All its rows are equally long. -/
theorem width_rows (size : raster.words.size = raster.height * raster.wordsPerRow) :
    ∀ row ∈ raster.rows, row.length = raster.wordsPerRow := by
  intro row member
  obtain ⟨y, inside, rfl⟩ := List.mem_map.mp member
  obtain ⟨fits, found⟩ := row?_eq size (List.mem_range.mp inside)
  rw [found, Option.getD_some, Array.length_toList, Array.size_extract, Nat.min_eq_left fits,
    Nat.add_sub_cancel_left]

/-- The rows of a raster hold its words in order. -/
theorem getElem?_flatten_rows (size : raster.words.size = raster.height * raster.wordsPerRow)
    {index : Nat} (inside : index < raster.words.size) :
    raster.rows.flatten[index]? = raster.words[index]? := by
  have wide : 0 < raster.wordsPerRow := Nat.pos_of_ne_zero fun zero => by
    rw [size, zero, Nat.mul_zero] at inside
    exact Nat.not_lt_zero _ inside
  have below : index / raster.wordsPerRow < raster.height := by
    rw [Nat.div_lt_iff_lt_mul wide, ← size]
    exact inside
  have column := Nat.mod_lt index wide
  have split : index / raster.wordsPerRow * raster.wordsPerRow + index % raster.wordsPerRow =
      index := Nat.div_add_mod' _ _
  obtain ⟨fits, found⟩ := row?_eq size below
  have row : raster.rows[index / raster.wordsPerRow]? =
      some (raster.words.extract (index / raster.wordsPerRow * raster.wordsPerRow)
        (index / raster.wordsPerRow * raster.wordsPerRow + raster.wordsPerRow)).toList := by
    rw [rows, List.getElem?_map, List.getElem?_range below, Option.map_some, found,
      Option.getD_some]
  have part := Decoder.getElem?_flatten_rows (width_rows size) row column
  rw [split] at part
  rw [part, Array.getElem?_toList, Array.getElem?_extract, if_pos (by omega), split]

/-- Words that show the rows of a raster are its words. -/
theorem eq_words_of_shows (size : raster.words.size = raster.height * raster.wordsPerRow)
    {words : Decoder.Words} {tail : Nat → UInt32}
    (shows : Decoder.Shows words raster.rows.flatten tail) (same : words.size = raster.words.size) :
    words = raster.words := by
  have total : raster.rows.flatten.length = raster.words.size := by
    rw [Decoder.length_flatten_rows (width_rows size), length_rows, size]
  refine Array.ext same fun index inside within => ?_
  apply Option.some.inj
  rw [← Array.getElem?_eq_getElem inside, ← Array.getElem?_eq_getElem within,
    shows.before index (by omega), getElem?_flatten_rows size within]

/-- The frame of a rectangle that a raster fills. -/
theorem Fills.extent {rectangle : Rectangle} (fills : raster.Fills rectangle) (data : Window) :
    (frame data rectangle).extent =
      ⟨raster.wordsPerRow, raster.height, rectangle.top⟩ := by
  have height : rectangle.alignedToWords.height = raster.height := fills.height
  have width : rectangle.alignedToWords.width / 32 = raster.wordsPerRow := by
    rw [fills.width, Raster.width]
    omega
  rw [extent_frame, RasterStream.Extent.ofRectangle, width, height]
  rfl

/-- The frame has rows as long as those of the raster. -/
theorem Fills.wordsPerRow {rectangle : Rectangle} (fills : raster.Fills rectangle)
    (data : Window) : (frame data rectangle).wordsPerRow = raster.wordsPerRow :=
  congrArg RasterStream.Extent.wordsPerRow (fills.extent data)

/-- It has as many rows as the raster. -/
theorem Fills.extent_height {rectangle : Rectangle} (fills : raster.Fills rectangle)
    (data : Window) : (frame data rectangle).extent.height = raster.height :=
  congrArg RasterStream.Extent.height (fills.extent data)

/-- Without columns there is nothing to decode. -/
theorem Fills.blank_eq {rectangle : Rectangle} (fills : raster.Fills rectangle) (data : Window)
    (narrow : raster.wordsPerRow = 0) : (frame data rectangle).blank = raster.words := by
  apply Array.ext
  · rw [Decoder.Frame.blank, Array.size_replicate, fills.wordsPerRow, narrow, fills.size, narrow,
      Nat.zero_mul, Nat.mul_zero]
  · intro index _ inside
    rw [fills.size, narrow, Nat.mul_zero] at inside
    exact absurd inside (Nat.not_lt_zero _)

/-- The bytes of a raster are those of the pieces of its rows. -/
theorem bytes_flatMap_rowPieces (raster : Raster) (kinds : Nat → Fin 8) :
    (RasterStream.bytes ((List.range raster.rows.length).flatMap fun y =>
      RasterStream.rowPieces (kinds y) (encodedRow raster.rows y (kinds y)))) =
      raster.encoded kinds := by
  rw [RasterStream.bytes, List.flatMap_assoc, length_rows, encoded]
  exact congrArg (List.range raster.height).flatMap
    (funext fun y => RasterStream.bytes_rowPieces (kinds y) _)

/-- The bytes of a raster with columns fill a frame with its rows. -/
theorem Fills.exists_run {rectangle : Rectangle} {data : Window} {offset : Nat}
    (fills : raster.Fills rectangle) (kinds : Nat → Fin 8) (some : raster.wordsPerRow ≠ 0)
    (holds : data.Holds offset (raster.encoded kinds)) :
    ∃ filled tail, Decoder.run (frame data rectangle)
        (.initial offset (frame data rectangle).top) (frame data rectangle).blank =
          .ok (filled, .complete) ∧
      filled.size = raster.words.size ∧ Decoder.Shows filled raster.rows.flatten tail := by
  have width := fills.wordsPerRow data
  have height := fills.extent_height data
  have wide : (frame data rectangle).extent.wordsPerRow ≠ 0 := by
    rw [Decoder.Frame.extent_wordsPerRow, width]
    exact some
  have rowCount : raster.rows.length = (frame data rectangle).extent.height := by
    rw [length_rows, height]
  have widths : ∀ row ∈ raster.rows, row.length = (frame data rectangle).extent.wordsPerRow := by
    rw [Decoder.Frame.extent_wordsPerRow, width]
    exact width_rows fills.size
  obtain ⟨last, made, _, _, makes⟩ := RasterStream.Draft.makes_rows wide rowCount widths kinds
    (Nat.le_refl _)
  rw [List.take_length] at made
  have completes := makes.completes [] (by
    rw [RasterStream.Draft.Completes, made, rowCount])
  rw [List.append_nil] at completes
  obtain ⟨filled, later, ran, follows, _⟩ := Decoder.run_completes _
    (Decoder.follows_initial wide offset)
    (Nat.mul_pos (by decide) (Nat.pos_of_ne_zero wide)) completes (by
      rw [bytes_flatMap_rowPieces]
      exact holds)
  rw [makes.made] at follows
  have shows := follows.shows
  rw [made] at shows
  exact ⟨filled, _, ran, by rw [follows.size, height, width, fills.size], shows⟩

/-- **Combined rows are had back exactly.** Whatever way of combining is chosen for each row, the
bytes that are written for a raster are decoded, over any rectangle that it fills, to the same
raster with every row filled. -/
theorem decode_encoded {rectangle : Rectangle} {data : Window} {offset : Nat}
    (kinds : Nat → Fin 8) (fills : raster.Fills rectangle)
    (holds : data.Holds offset (raster.encoded kinds)) :
    Raster.decode data offset rectangle = .ok (raster, .complete) := by
  have width := fills.wordsPerRow data
  have height := fills.extent_height data
  suffices decoded : Decoder.run (frame data rectangle)
      (.initial offset (frame data rectangle).top) (frame data rectangle).blank =
      .ok (raster.words, .complete) by
    rw [decode_eq_of_run decoded, width, height]
  by_cases narrow : raster.wordsPerRow = 0
  · rw [fills.blank_eq data narrow]
    exact Decoder.run_narrow (width.trans narrow) rfl rfl
  · obtain ⟨filled, tail, ran, size, shows⟩ := fills.exists_run kinds narrow holds
    rw [ran, eq_words_of_shows fills.size shows size]

/-- Three rows of two words, each combined in another way; black pixels pass from word to word. -/
theorem decode_encoded_across_words :
    Raster.decode
        (.ofArray #[0xFF, 0x8F, 0x40, 0x80, 0x80, 0x00, 0x01, 0x40, 0xF1, 0x00, 0xF0, 0x03, 0x8D,
          0x40, 0xDB, 0x2E, 0x7D, 0x45, 0x40, 0xDF, 0x6A, 0xB1, 0x8A, 0x8E, 0x40, 0x60, 0x00, 0x00,
          0x01, 0x40, 0x4C, 0xCC, 0x00, 0x02])
        1 ⟨3, 32, 6, 96⟩ =
      .ok (⟨2, 3, #[0x80000001, 0xF0F00003, 0x12345678, 0x9ABCDEF0, 0xFFFFFFFF, 0x00000001]⟩,
        .complete) := by
  refine decode_encoded (fun y => if y = 0 then 7 else if y = 1 then 5 else 6) ⟨rfl, rfl, rfl⟩ ?_
  unfold Window.Holds
  decide +kernel

end Raster
end HyperCard
