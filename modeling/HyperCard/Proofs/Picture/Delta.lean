import HyperCard.Picture.Decoder
import Mathlib.Data.Nat.Bitwise

/-!
# Rows combined with themselves

Read as one string of pixels, a row that is combined across with a distance has at each pixel the
exclusive or of that pixel and of all those on its left at multiples of the distance. The decoder
computes it word by word: what a word adds is summed by shifts to the right, and what it passes on
to the next word by shifts to the left.
-/
namespace HyperCard

/-- The exclusive or of the first values of a sequence. -/
def xorBelow : Nat → (Nat → Bool) → Bool
  | 0, _ => false
  | count + 1, values => xorBelow count values ^^ values count

namespace xorBelow

variable {values others : Nat → Bool}

/-- Sums of the same values are the same. -/
theorem congr {count : Nat} (same : ∀ index < count, values index = others index) :
    xorBelow count values = xorBelow count others := by
  induction count with
  | zero => rfl
  | succ count ih =>
    rw [xorBelow, xorBelow, same count (Nat.lt_succ_self _),
      ih fun index less => same index (Nat.lt_succ_of_lt less)]

/-- A sum in two parts. -/
theorem add (left right : Nat) (values : Nat → Bool) :
    xorBelow (left + right) values =
      (xorBelow left values ^^ xorBelow right fun index => values (left + index)) := by
  induction right with
  | zero => simp [xorBelow]
  | succ right ih =>
    rw [← Nat.add_assoc, xorBelow, ih, xorBelow, Bool.xor_assoc]

/-- A sum may be taken from its last value on. -/
theorem reverse (count : Nat) (values : Nat → Bool) :
    (xorBelow count fun index => values (count - 1 - index)) = xorBelow count values := by
  induction count with
  | zero => rfl
  | succ count ih =>
    have first : xorBelow (count + 1) (fun index => values (count - index)) =
        (values count ^^ xorBelow count fun index => values (count - 1 - index)) := by
      rw [Nat.add_comm, add]
      have later : (xorBelow count fun index => values (count - (1 + index))) =
          xorBelow count fun index => values (count - 1 - index) :=
        congr fun index _ => by rw [Nat.sub_add_eq]
      rw [later]
      simp [xorBelow]
    rw [Nat.add_sub_cancel, first, ih, xorBelow, Bool.xor_comm]

/-- Values that are false do not count. -/
theorem eq_of_false {few many : Nat} (more : few ≤ many)
    (rest : ∀ index, few ≤ index → index < many → values index = false) :
    xorBelow many values = xorBelow few values := by
  obtain ⟨extra, rfl⟩ := Nat.exists_eq_add_of_le more
  have nothing : (xorBelow extra fun index => values (few + index)) =
      xorBelow extra fun _ => false :=
    congr fun index less => rest _ (Nat.le_add_right _ _) (by omega)
  have zero : ∀ count, (xorBelow count fun _ => false) = false := by
    intro count
    induction count with
    | zero => rfl
    | succ count ih => rw [xorBelow, ih]; rfl
  rw [add, nothing, zero, Bool.xor_false]

end xorBelow

namespace Raster

/-- The word of 32 pixels. -/
def wordOfPixels (pixels : Nat → Bool) : UInt32 :=
  UInt32.ofNat (Nat.ofBits fun bit : Fin 32 => pixels (31 - bit))

/-- Words with the same pixels are the same. -/
theorem word_ext {left right : UInt32}
    (same : ∀ column < 32, wordPixel left column = wordPixel right column) : left = right := by
  apply UInt32.toNat_inj.mp
  apply Nat.eq_of_testBit_eq
  intro bit
  by_cases inside : bit < 32
  · have pixel := same (31 - bit) (by omega)
    have back : 31 - (31 - bit) = bit := by omega
    rwa [wordPixel, wordPixel, back] at pixel
  · have beyond : ∀ word : UInt32, word.toNat.testBit bit = false := by
      intro word
      have large : 2 ^ 32 ≤ 2 ^ bit := Nat.pow_le_pow_right (by decide) (by omega)
      exact Nat.testBit_lt_two_pow (Nat.lt_of_lt_of_le word.toNat_lt large)
    rw [beyond, beyond]

/-- A word made of pixels has these pixels. -/
theorem wordPixel_wordOfPixels (pixels : Nat → Bool) {column : Nat} (inside : column < 32) :
    wordPixel (wordOfPixels pixels) column = pixels column := by
  have small := Nat.ofBits_lt_two_pow fun bit : Fin 32 => pixels (31 - bit)
  have back : 31 - (31 - column) = column := by omega
  rw [wordPixel, wordOfPixels, UInt32.toNat_ofNat', Nat.mod_eq_of_lt small,
    Nat.testBit_ofBits_lt _ _ (by omega), back]

/-- The pixels of a sum are the sums of the pixels. -/
theorem wordPixel_xor (left right : UInt32) (column : Nat) :
    wordPixel (left ^^^ right) column = (wordPixel left column ^^ wordPixel right column) := by
  simp [wordPixel]

/-- All pixels of the word zero are white. -/
theorem wordPixel_zero (column : Nat) : wordPixel 0 column = false := by
  simp [wordPixel]

/-- A word shifted right has its pixels further right. -/
theorem wordPixel_shiftRight (word : UInt32) {shift column : Nat} (small : shift < 32)
    (inside : column < 32) :
    wordPixel (word >>> UInt32.ofNat shift) column =
      (decide (shift ≤ column) && wordPixel word (column - shift)) := by
  have amount : (UInt32.ofNat shift).toNat % 32 = shift := by
    rw [UInt32.toNat_ofNat']
    omega
  rw [wordPixel, UInt32.toNat_shiftRight, amount, Nat.testBit_shiftRight]
  by_cases fits : shift ≤ column
  · have place : shift + (31 - column) = 31 - (column - shift) := by omega
    simp [wordPixel, fits, place]
  · have large : 2 ^ 32 ≤ 2 ^ (shift + (31 - column)) :=
      Nat.pow_le_pow_right (by decide) (by omega)
    rw [Nat.testBit_lt_two_pow (Nat.lt_of_lt_of_le word.toNat_lt large)]
    simp [fits]

/-- A word shifted left has its pixels further left. -/
theorem wordPixel_shiftLeft (word : UInt32) {shift column : Nat} (small : shift < 32)
    (inside : column < 32) :
    wordPixel (word <<< UInt32.ofNat shift) column =
      (decide (column + shift < 32) && wordPixel word (column + shift)) := by
  have amount : (UInt32.ofNat shift).toNat % 32 = shift := by
    rw [UInt32.toNat_ofNat']
    omega
  rw [wordPixel, UInt32.toNat_shiftLeft, amount, Nat.testBit_mod_two_pow, Nat.testBit_shiftLeft]
  have place : 31 - column - shift = 31 - (column + shift) := by omega
  have low : 31 - column < 32 := by omega
  have fits : (31 - column ≥ shift) = (column + shift < 32) := by
    apply propext
    omega
  simp only [wordPixel, place, low, fits, decide_true, Bool.true_and]

/-- A pixel of a row, counted from the left; beyond the row none is black. -/
def rowPixel (row : List UInt32) (x : Nat) : Bool := wordPixel (row.getD (x / 32) 0) (x % 32)

/-- A row combined with itself at a distance: each pixel is the exclusive or of the pixel there and
of those at every multiple of the distance to its left. -/
def across (distance : Nat) (row : List UInt32) : List UInt32 :=
  (List.range row.length).map fun index => wordOfPixels fun column =>
    let x := 32 * index + column
    xorBelow (x / distance + 1) fun count => rowPixel row (x - distance * count)

end Raster

namespace Decoder

open Raster

/-- Words summed in order have the sums of their pixels. -/
theorem wordPixel_foldl (count column : Nat) (words : Nat → UInt32) (start : UInt32) :
    wordPixel ((List.range count).foldl (fun sum index => sum ^^^ words index) start) column =
      (wordPixel start column ^^ xorBelow count fun index => wordPixel (words index) column) := by
  induction count with
  | zero => simp [xorBelow]
  | succ count ih =>
    rw [List.range_succ, List.foldl_append, List.foldl_cons, List.foldl_nil, wordPixel_xor, ih,
      xorBelow, Bool.xor_assoc]

section Across

variable {distance copies : Nat} (whole : distance * copies = 32)

include whole

/-- A word has as many copies of the distance as the decoder divides out. -/
theorem copies_eq : 32 / distance = copies := by
  have positive : 0 < distance := Nat.pos_of_ne_zero fun zero => by simp [zero] at whole
  rw [← whole, Nat.mul_div_cancel_left _ positive]

/-- How a column of a word divides by the distance. -/
theorem column_split (column : Nat) :
    0 < distance ∧ column % distance < distance ∧
      column % distance + distance * (column / distance) = column := by
  have positive : 0 < distance := Nat.pos_of_ne_zero fun zero => by simp [zero] at whole
  exact ⟨positive, Nat.mod_lt _ positive, Nat.mod_add_div _ _⟩

/-- A column of a word stands in one of the copies of the distance. -/
theorem div_lt_copies {column : Nat} (inside : column < 32) : column / distance < copies := by
  rw [Nat.div_lt_iff_lt_mul (column_split whole column).1, Nat.mul_comm, whole]
  exact inside

/-- Shifts to the right sum the pixels of a word up to a column. -/
theorem wordPixel_shiftedRight (word : UInt32) {column : Nat} (inside : column < 32) :
    wordPixel (shiftedRight distance word) column =
      xorBelow (column / distance + 1) fun index =>
        wordPixel word (column % distance + distance * index) := by
  obtain ⟨positive, less, split⟩ := column_split whole column
  have few := div_lt_copies whole inside
  have shifted : ∀ index < copies,
      wordPixel (word >>> UInt32.ofNat (distance * index)) column =
        (decide (distance * index ≤ column) && wordPixel word (column - distance * index)) := by
    intro index less
    have small : distance * index < distance * copies := Nat.mul_lt_mul_of_pos_left less positive
    exact wordPixel_shiftRight word (whole ▸ small) inside
  rw [shiftedRight, copies_eq whole, wordPixel_foldl, wordPixel_zero, Bool.false_xor,
    xorBelow.congr shifted, xorBelow.eq_of_false few, ← xorBelow.reverse]
  · refine xorBelow.congr fun index less => ?_
    have term : column / distance + 1 - 1 - index = column / distance - index := by omega
    have spread : distance * (column / distance) =
        distance * (column / distance - index) + distance * index := by
      rw [← Nat.mul_add]
      congr 1
      omega
    have fits : distance * (column / distance - index) ≤ column := by omega
    have place : column - distance * (column / distance - index) =
        column % distance + distance * index := by omega
    rw [term, place]
    simp [fits]
  · intro index least _
    have beyond : column < distance * index := by
      have next : distance * (column / distance + 1) ≤ distance * index :=
        Nat.mul_le_mul_left _ least
      rw [Nat.mul_add, Nat.mul_one] at next
      omega
    simp [Nat.not_le.mpr beyond]

/-- Shifts to the left sum the pixels of a word beyond a column. -/
theorem wordPixel_carriedOver (word : UInt32) {column : Nat} (inside : column < 32) :
    wordPixel (carriedOver distance word) column =
      xorBelow (copies - (column / distance + 1)) fun index =>
        wordPixel word (column % distance + distance * (column / distance + 1 + index)) := by
  obtain ⟨positive, less, split⟩ := column_split whole column
  have few := div_lt_copies whole inside
  have shifted : ∀ index < copies,
      wordPixel (word <<< UInt32.ofNat (distance * index)) column =
        (decide (column + distance * index < 32) &&
          wordPixel word (column + distance * index)) := by
    intro index less
    have small : distance * index < distance * copies := Nat.mul_lt_mul_of_pos_left less positive
    exact wordPixel_shiftLeft word (whole ▸ small) inside
  obtain ⟨rest, room⟩ := Nat.exists_eq_add_of_lt few
  have others : copies - (column / distance + 1) = rest := by
    rw [room, Nat.add_right_comm, Nat.add_sub_cancel_left]
  have fits : rest + 1 ≤ copies := by
    rw [room, Nat.add_assoc]
    exact Nat.le_add_left _ _
  rw [carriedOver, copies_eq whole, wordPixel_foldl, xorBelow.congr shifted,
    xorBelow.eq_of_false fits, Nat.add_comm rest, xorBelow.add, others]
  · have first : (xorBelow 1 fun index =>
        decide (column + distance * index < 32) && wordPixel word (column + distance * index)) =
        wordPixel word column := by
      simp [xorBelow, inside]
    rw [first, ← Bool.xor_assoc, Bool.xor_self, Bool.false_xor]
    refine xorBelow.congr fun index less => ?_
    have place : column + distance * (1 + index) =
        column % distance + distance * (column / distance + 1 + index) := by
      rw [Nat.add_assoc (column / distance), Nat.mul_add distance (column / distance)]
      omega
    have bound : distance * (column / distance + 1 + index) + distance ≤ distance * copies := by
      rw [← Nat.mul_succ]
      exact Nat.mul_le_mul_left _ (by omega)
    rw [place]
    simp only [Bool.and_eq_right_iff_imp, decide_eq_true_eq]
    omega
  · intro index least _
    have beyond : 32 ≤ column + distance * index := by
      have next : distance * copies ≤ distance * (column / distance + index) :=
        Nat.mul_le_mul_left _ (by omega)
      rw [Nat.mul_add] at next
      omega
    simp [Nat.not_lt.mpr beyond]

/-- The pixels of a row at multiples of the distance, so many of them. -/
def columnSum (distance : Nat) (row : List UInt32) (column count : Nat) : Bool :=
  xorBelow count fun index => rowPixel row (column % distance + distance * index)

/-- The sum of a column goes on with the pixels of the next word. -/
theorem columnSum_add (done rest : List UInt32) (word : UInt32) {column count : Nat}
    (fits : count ≤ copies) :
    columnSum distance (done ++ word :: rest) column (copies * done.length + count) =
      (columnSum distance (done ++ word :: rest) column (copies * done.length) ^^
        xorBelow count fun index => wordPixel word (column % distance + distance * index)) := by
  obtain ⟨positive, less, _⟩ := column_split whole column
  rw [columnSum, xorBelow.add]
  congr 1
  refine xorBelow.congr fun index inside => ?_
  have bound : distance * index + distance ≤ distance * copies := by
    rw [← Nat.mul_succ]
    exact Nat.mul_le_mul_left _ (by omega)
  have spread : distance * (copies * done.length + index) =
      32 * done.length + distance * index := by
    rw [Nat.mul_add, ← Nat.mul_assoc, whole]
  have place : (column % distance + distance * (copies * done.length + index)) / 32 =
      done.length := by omega
  have rest : (column % distance + distance * (copies * done.length + index)) % 32 =
      column % distance + distance * index := by omega
  rw [rowPixel, place, rest]
  simp

/-- What remains of a row is combined with the words before it through the carry alone. -/
theorem combineAcross_eq_columnSum (done rest : List UInt32) (carry : UInt32)
    (carried : ∀ column < 32,
      wordPixel carry column = columnSum distance (done ++ rest) column (copies * done.length)) :
    combineAcross distance carry rest =
      (List.range rest.length).map fun index => wordOfPixels fun column =>
        columnSum distance (done ++ rest) column
          (copies * (done.length + index) + (column / distance + 1)) := by
  -- The words done only matter through the sums of their columns, which the carry holds.
  induction rest generalizing done carry with
  | nil => rfl
  | cons word rest ih =>
    have few : ∀ column < 32, column / distance + 1 ≤ copies := fun _ => div_lt_copies whole
    have first : ∀ column < 32,
        wordPixel (carry ^^^ shiftedRight distance word) column =
          columnSum distance (done ++ word :: rest) column
            (copies * done.length + (column / distance + 1)) := by
      intro column inside
      rw [wordPixel_xor, carried column inside, wordPixel_shiftedRight whole word inside,
        columnSum_add whole _ _ _ (few column inside)]
    have next : ∀ column < 32,
        wordPixel (carry ^^^ shiftedRight distance word ^^^ carriedOver distance word) column =
          columnSum distance ((done ++ [word]) ++ rest) column
            (copies * (done ++ [word]).length) := by
      intro column inside
      have count : copies * (done ++ [word]).length = copies * done.length + copies := by
        rw [List.length_append, List.length_singleton, Nat.mul_succ]
      have split : copies = column / distance + 1 + (copies - (column / distance + 1)) :=
        (Nat.add_sub_cancel' (few column inside)).symm
      rw [List.append_assoc, List.singleton_append, count,
        columnSum_add whole _ _ _ (Nat.le_refl copies), wordPixel_xor, wordPixel_xor,
        carried column inside, wordPixel_shiftedRight whole word inside,
        wordPixel_carriedOver whole word inside, Bool.xor_assoc, ← xorBelow.add, ← split]
    rw [combineAcross, List.length_cons, List.range_succ_eq_map, List.map_cons]
    congr 1
    · refine word_ext fun column inside => ?_
      rw [first column inside, wordPixel_wordOfPixels _ inside]
      rfl
    · have rows := ih (done ++ [word]) _ next
      rw [rows, List.map_map]
      refine List.map_congr_left fun index _ => ?_
      have count : (done ++ [word]).length + index = done.length + (index + 1) := by
        simp only [List.length_append, List.length_singleton]
        omega
      simp only [Function.comp_apply, count, List.append_assoc, List.singleton_append]

/-- A row combined word by word is combined at all multiples of the distance. -/
theorem combineAcross_eq (row : List UInt32) :
    combineAcross distance 0 row = across distance row := by
  have start : ∀ column < 32,
      wordPixel 0 column = columnSum distance ([] ++ row) column (copies * 0) := by
    intro column _
    rw [wordPixel_zero, Nat.mul_zero]
    rfl
  rw [combineAcross_eq_columnSum whole [] row 0 start]
  refine List.map_congr_left fun index _ => ?_
  refine word_ext fun column inside => ?_
  rw [wordPixel_wordOfPixels _ inside, wordPixel_wordOfPixels _ inside]
  obtain ⟨positive, less, split⟩ := column_split whole column
  have scaled : 32 * index + column = column + distance * (copies * index) := by
    rw [← Nat.mul_assoc, whole, Nat.add_comm]
  have quotient : (32 * index + column) / distance = copies * index + column / distance := by
    rw [scaled, Nat.add_mul_div_left _ _ positive, Nat.add_comm]
  have count : copies * (0 + index) + (column / distance + 1) =
      (32 * index + column) / distance + 1 := by
    rw [quotient, Nat.zero_add, Nat.add_assoc]
  simp only [List.length_nil, List.nil_append, columnSum]
  rw [count, ← xorBelow.reverse]
  refine xorBelow.congr fun step less => ?_
  have term : (32 * index + column) / distance + 1 - 1 - step =
      (32 * index + column) / distance - step := by rw [Nat.add_sub_cancel]
  have remainder : column % distance = (32 * index + column) % distance := by
    rw [scaled, Nat.add_mul_mod_self_left]
  have parts := Nat.mod_add_div (32 * index + column) distance
  rw [term, remainder, Nat.mul_sub]
  congr 1
  have within : distance * step ≤ distance * ((32 * index + column) / distance) :=
    Nat.mul_le_mul_left _ (Nat.lt_succ_iff.mp less)
  omega

end Across
end Decoder

namespace Raster

/-- The pixels of a row as one string, from the highest bit of the first word on. -/
def pixels (row : List UInt32) : List Bool :=
  row.flatMap fun word => (List.range 32).map (wordPixel word)

/-- Pixels that are numbered word by word are numbered in order. -/
theorem flatMap_words {α : Type} (pixel : Nat → α) (count : Nat) :
    ((List.range count).flatMap fun index =>
      (List.range 32).map fun column => pixel (32 * index + column)) =
      (List.range (32 * count)).map pixel := by
  induction count with
  | zero => rfl
  | succ count ih =>
    rw [@List.range_succ count, List.flatMap_append, List.flatMap_singleton, ih, Nat.mul_succ,
      List.range_add, List.map_append, List.map_map]
    rfl

/-- The string of a row has its pixels in order. -/
theorem pixels_eq (row : List UInt32) :
    pixels row = (List.range (32 * row.length)).map (rowPixel row) := by
  have words : row = (List.range row.length).map fun index => row.getD index 0 := by
    refine List.ext_getElem (by simp) fun index inside _ => ?_
    rw [List.getElem_map, List.getElem_range, List.getD_eq_getElem _ _ inside]
  rw [← flatMap_words]
  conv_lhs => rw [words, pixels, List.flatMap_map]
  congr 1
  funext index
  refine List.map_congr_left fun column inside => ?_
  have below := List.mem_range.mp inside
  have word : (32 * index + column) / 32 = index := by omega
  have bit : (32 * index + column) % 32 = column := by omega
  rw [rowPixel, word, bit]

/-- A row has 32 pixels for each word. -/
theorem length_pixels (row : List UInt32) : (pixels row).length = 32 * row.length := by
  rw [pixels_eq, List.length_map, List.length_range]

/-- A place in the string has the pixel of the row there. -/
theorem getD_pixels (row : List UInt32) {x : Nat} (inside : x < 32 * row.length) :
    (pixels row).getD x false = rowPixel row x := by
  rw [pixels_eq, List.getD_eq_getElem _ _ (by simpa using inside), List.getElem_map,
    List.getElem_range]

/-- The string of a row that is combined across. -/
theorem pixels_across (distance : Nat) (row : List UInt32) :
    pixels (across distance row) = (List.range (32 * row.length)).map fun x =>
      xorBelow (x / distance + 1) fun count => rowPixel row (x - distance * count) := by
  rw [← flatMap_words, pixels, across, List.flatMap_map]
  congr 1
  funext index
  refine List.map_congr_left fun column inside => ?_
  rw [wordPixel_wordOfPixels _ (List.mem_range.mp inside)]

end Raster

namespace Decoder

open Raster

/-- **Combining across.** At each distance that an instruction can set, a row of any length becomes
the row whose pixel at each place is the exclusive or of the pixel that was there and of those that
stood before it at the distance, twice the distance and so on, down to the start of the row. -/
theorem pixels_combineAcross {distance : Nat} (allowed : distance ∈ [1, 2, 8, 16])
    (row : List UInt32) :
    pixels (combineAcross distance 0 row) =
      (List.range (pixels row).length).map fun x =>
        xorBelow (x / distance + 1) fun count =>
          (pixels row).getD (x - distance * count) false := by
  have whole : ∃ copies, distance * copies = 32 := by
    simp only [List.mem_cons, List.not_mem_nil, or_false] at allowed
    rcases allowed with rfl | rfl | rfl | rfl
    · exact ⟨32, rfl⟩
    · exact ⟨16, rfl⟩
    · exact ⟨4, rfl⟩
    · exact ⟨2, rfl⟩
  obtain ⟨copies, whole⟩ := whole
  rw [combineAcross_eq whole, pixels_across, length_pixels]
  refine List.map_congr_left fun x inside => ?_
  have below := List.mem_range.mp inside
  refine xorBelow.congr fun count _ => ?_
  rw [getD_pixels row (Nat.lt_of_le_of_lt (Nat.sub_le _ _) below)]

/-- At the distance two, two black pixels at the end of a word go on over the next one, and a third
one stops half of them. -/
theorem pixels_combineAcross_two :
    2 ∈ [1, 2, 8, 16] ∧
      combineAcross 2 0 [0x00000003, 0, 0x20000000] = [0x00000003, 0xFFFFFFFF, 0xD5555555] ∧
      pixels [0x00000003, 0xFFFFFFFF, 0xD5555555] =
        (List.range 96).map fun x => xorBelow (x / 2 + 1) fun count =>
          (pixels [0x00000003, 0, 0x20000000]).getD (x - 2 * count) false :=
  have combined : combineAcross 2 0 [0x00000003, 0, 0x20000000] =
      [0x00000003, 0xFFFFFFFF, 0xD5555555] := by decide
  ⟨by decide, combined, combined ▸ pixels_combineAcross (by decide) _⟩

end Decoder
end HyperCard
