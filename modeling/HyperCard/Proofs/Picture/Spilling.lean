import HyperCard.Proofs.Picture.Changes
import HyperCard.Proofs.Picture.Termination

/-!
# Pixels below the rows that are finished

An instruction for a part of a row draws bytes, and nothing holds these to their row: what goes past
its end is drawn into the rows below. Nothing else is drawn there, for an instruction for whole rows
and the combining of a row change no other rows than those that they finish. So the rows from the
current one on have the pixels that were drawn into them, and no others.
-/
namespace HyperCard

namespace Decoder

variable {frame : Frame} {progress : Progress} {words filled : Words} {pixel : Nat}

/-- Whether a pixel is black, counted through all the words. -/
def IsBlack (words : Words) (pixel : Nat) : Prop :=
  ∃ word, words[pixel / 32]? = some word ∧ Raster.wordPixel word (pixel % 32) = true

/-- Whether a byte blackens a pixel when it is drawn from the first of eight pixels on. -/
def Draws (byte : UInt8) (first pixel : Nat) : Prop :=
  ∃ bit < 8, byte.toNat.testBit (7 - bit) = true ∧ pixel = first + bit

/-- Whether an instruction for a part of a row draws a byte that blackens a pixel. -/
def Blackens (frame : Frame) (opcode : UInt8) (progress : Progress) (pixel : Nat) : Prop :=
  ∃ zeros count, Instruction.ofByte opcode = .run zeros count ∧ ∃ index < count, ∃ byte,
    frame.data.byte (progress.offset + 1 + index) = .ok byte ∧ ∃ copy < progress.repetitions,
      Draws byte (32 * progress.rowStart + progress.x + 8 * (zeros + index) +
        copy * (8 * (zeros + count))) pixel

/-- A run draws the bytes that follow it. -/
theorem blackens_iff {opcode : UInt8} {zeros count : Nat}
    (kind : Instruction.ofByte opcode = .run zeros count) :
    Blackens frame opcode progress pixel ↔ ∃ index < count, ∃ byte,
      frame.data.byte (progress.offset + 1 + index) = .ok byte ∧ ∃ copy < progress.repetitions,
        Draws byte (32 * progress.rowStart + progress.x + 8 * (zeros + index) +
          copy * (8 * (zeros + count))) pixel := by
  constructor
  · rintro ⟨_, _, same, drawn⟩
    cases kind.symm.trans same
    exact drawn
  · intro drawn
    exact ⟨zeros, count, kind, drawn⟩

/-- Words that are not changed have the same pixels. -/
theorem ChangesOnly.isBlack_iff {places : Set Nat} (changes : ChangesOnly places words filled)
    (outside : pixel / 32 ∉ places) : IsBlack filled pixel ↔ IsBlack words pixel := by
  unfold IsBlack
  rw [changes.elsewhere _ outside]

end Decoder

namespace Raster

/-- Two words drawn over each other are black where either is. -/
theorem wordPixel_or (left right : UInt32) (column : Nat) :
    wordPixel (left ||| right) column = (wordPixel left column || wordPixel right column) := by
  rw [wordPixel, UInt32.toNat_or, Nat.testBit_or]
  rfl

/-- A byte that is moved to its place in a word has its pixels there. -/
theorem wordPixel_byte (byte : UInt8) {place column : Nat} (fits : place ≤ 24)
    (inside : column < 32) :
    wordPixel ((byte.toUInt32 <<< 24) >>> UInt32.ofNat place) column = true ↔
      Decoder.Draws byte place column := by
  have left : wordPixel (byte.toUInt32 <<< 24) (column - place) =
      (decide (column - place + 24 < 32) && wordPixel byte.toUInt32 (column - place + 24)) :=
    wordPixel_shiftLeft byte.toUInt32 (by decide) (by omega)
  rw [wordPixel_shiftRight _ (by omega) inside, left, wordPixel, UInt8.toNat_toUInt32]
  simp only [Bool.and_eq_true, decide_eq_true_eq]
  constructor
  · rintro ⟨late, early, black⟩
    have bit : 31 - (column - place + 24) = 7 - (column - place) := by omega
    rw [bit] at black
    exact ⟨column - place, by omega, black, by omega⟩
  · rintro ⟨bit, few, black, rfl⟩
    have place : 31 - (place + bit - place + 24) = 7 - bit := by omega
    rw [place]
    exact ⟨by omega, by omega, black⟩

end Raster

namespace Decoder

/-- Drawing a byte blackens its pixels and leaves the others. -/
theorem isBlack_writeByte? {rowStart x : Nat} {byte : UInt8} (aligned : 8 ∣ x)
    (done : writeByte? words rowStart x byte = some filled) :
    IsBlack filled pixel ↔ IsBlack words pixel ∨ Draws byte (32 * rowStart + x) pixel := by
  unfold writeByte? at done
  dsimp only at done
  split at done
  · rename_i inside
    cases done
    unfold IsBlack
    by_cases here : pixel / 32 = rowStart + x / 32
    · have drawn : Draws byte (32 * rowStart + x) pixel ↔ Draws byte (x % 32) (pixel % 32) := by
        constructor
        · rintro ⟨bit, few, black, same⟩
          exact ⟨bit, few, black, by omega⟩
        · rintro ⟨bit, few, black, same⟩
          exact ⟨bit, few, black, by omega⟩
      rw [here, Array.getElem?_set_self inside, Array.getElem?_eq_getElem inside, drawn]
      simp only [Option.some_inj, exists_eq_left', Raster.wordPixel_or, Bool.or_eq_true]
      rw [Raster.wordPixel_byte byte (by omega) (by omega)]
    · rw [Array.getElem?_set_ne inside (Ne.symm here)]
      constructor
      · exact Or.inl
      · rintro (black | ⟨bit, few, _, same⟩)
        · exact black
        · exact absurd (by omega) here
  · cases done

/-- Drawing the copies of a byte blackens the pixels of each of them. -/
theorem isBlack_writeCopies? {rowStart stride copies x : Nat} {byte : UInt8} (aligned : 8 ∣ x)
    (apart : 8 ∣ stride) (done : writeCopies? rowStart stride byte copies x words = some filled) :
    IsBlack filled pixel ↔ IsBlack words pixel ∨
      ∃ copy < copies, Draws byte (32 * rowStart + x + copy * stride) pixel := by
  induction copies generalizing x words with
  | zero =>
    cases done
    simp only [Nat.not_lt_zero, false_and, exists_false, or_false]
  | succ copies ih =>
    obtain ⟨next, here, done⟩ := exists_of_writeCopies? done
    have place : ∀ copy, 32 * rowStart + (x + stride) + copy * stride =
        32 * rowStart + x + (copy + 1) * stride := by
      intro copy
      rw [← Nat.add_assoc]
      exact next_copy _ copy stride
    rw [ih (Nat.dvd_add aligned apart) done, isBlack_writeByte? aligned here, or_assoc]
    simp only [place]
    rw [Nat.exists_lt_succ_left, Nat.zero_mul, Nat.add_zero]

/-- A run draws the bytes that follow, each with its copies. -/
theorem isBlack_writeRun {stride count offset x : Nat} (aligned : 8 ∣ x) (apart : 8 ∣ stride)
    (done : writeRun frame progress stride count offset x words = .ok filled) :
    IsBlack filled pixel ↔ IsBlack words pixel ∨ ∃ index < count, ∃ byte,
      frame.data.byte (offset + index) = .ok byte ∧ ∃ copy < progress.repetitions,
        Draws byte (32 * progress.rowStart + x + 8 * index + copy * stride) pixel := by
  induction count generalizing offset x words with
  | zero =>
    cases done
    simp only [Nat.not_lt_zero, false_and, exists_false, or_false]
  | succ count ih =>
    obtain ⟨byte, next, found, here, done⟩ := exists_of_writeRun done
    have place : ∀ index, 32 * progress.rowStart + (x + 8) + 8 * index =
        32 * progress.rowStart + x + 8 * (index + 1) := by
      intro index
      omega
    have later : ∀ index, offset + 1 + index = offset + (index + 1) := by
      intro index
      omega
    rw [ih (Nat.dvd_add aligned (Nat.dvd_refl 8)) done, isBlack_writeCopies? aligned apart here,
      or_assoc]
    simp only [place, later]
    rw [Nat.exists_lt_succ_left, Nat.mul_zero, Nat.add_zero, Nat.add_zero, found]
    simp only [Except.ok.injEq, exists_eq_left']

section Steps

variable {opcode : UInt8} {state next last : State}

/-- A row that is combined is changed. -/
theorem Combines.changesOnly (combines : Combines frame state next) :
    ChangesOnly (Set.Ico state.1.rowStart (state.1.rowStart + frame.wordsPerRow)) state.2
      next.2 := by
  obtain ⟨step, long⟩ := combines
  cases step with
  | instruction _ short _ _ _ => exact absurd short (Nat.not_lt.mpr long)
  | row _ _ combined => exact .combineRow combined

/-- Instructions lead on by whole bytes. -/
theorem dvd_x_after (frame : Frame) (instruction : Instruction) (aligned : 8 ∣ progress.x) :
    8 ∣ (after frame instruction progress).x := by
  cases instruction with
  | run zeros count =>
    exact Nat.dvd_add aligned (Nat.dvd_mul_right_of_dvd (Nat.dvd_mul_right 8 _) _)
  | skip units =>
    have bytes : 8 ∣ 128 * units := Nat.dvd_mul_right_of_dvd (by decide) units
    exact Nat.dvd_add aligned (Nat.dvd_mul_right_of_dvd bytes _)
  | byteRows =>
    unfold after
    cases frame.data.byte progress.offset with
    | error violation => exact aligned
    | ok byte => exact Nat.dvd_zero 8
  | copiedRows | blackRows | rememberedRows | rowsAbove _ | whiteRows => exact Nat.dvd_zero 8
  | combine _ _ | repeatNext _ | unknown => exact aligned

/-- A run draws whole bytes, so parts of a row begin with whole bytes. -/
theorem Reaches.dvd_x {offset : Nat} (reaches : Reaches frame (frame.start offset) state) :
    8 ∣ state.1.x := by
  induction reaches with
  | refl => exact Nat.dvd_zero 8
  | tail _ step ih =>
    cases step with
    | @instruction progress _ _ _ opcode _ _ _ _ executed =>
      obtain ⟨_, rfl⟩ := execute_ok executed
      exact @dvd_x_after (progress.taking opcode) frame _ ih
    | row _ _ _ => exact Nat.dvd_zero 8

/-- From the row on that it leads to, an instruction blackens what a run draws. -/
theorem isBlack_written (aligned : 8 ∣ progress.x)
    (done : written frame (Instruction.ofByte opcode) (progress.taking opcode) words = .ok filled)
    (below : 32 * (after frame (Instruction.ofByte opcode) (progress.taking opcode)).rowStart ≤
      pixel) :
    IsBlack filled pixel ↔ IsBlack words pixel ∨ Blackens frame opcode progress pixel := by
  cases kind : Instruction.ofByte opcode with
  | run zeros count =>
    rw [kind] at done
    have first : 8 ∣ (progress.taking opcode).x + 8 * zeros :=
      Nat.dvd_add aligned (Nat.dvd_mul_right 8 zeros)
    have place : ∀ index, 32 * progress.rowStart + progress.x + 8 * (zeros + index) =
        32 * progress.rowStart + (progress.x + 8 * zeros) + 8 * index := by
      intro index
      omega
    rw [isBlack_writeRun first (Nat.dvd_mul_right 8 _) done, blackens_iff kind]
    simp only [place]
    rfl
  | copiedRows | whiteRows | blackRows | byteRows | rememberedRows | rowsAbove _ | skip _
  | combine _ _ | repeatNext _ | unknown =>
    have other : ∀ zeros count, Instruction.ofByte opcode ≠ .run zeros count := by
      simp [kind]
    have outside : pixel / 32 ∉ Set.Ico (progress.taking opcode).rowStart
        (after frame (Instruction.ofByte opcode) (progress.taking opcode)).rowStart := by
      rw [Set.mem_Ico]
      omega
    rw [(ChangesOnly.rows other done).isBlack_iff outside]
    refine (or_iff_left ?_).symm
    rintro ⟨zeros, count, run, _⟩
    exact other zeros count run

/-- **One step.** From the row on that it leads to, a step blackens what a run draws. -/
theorem Step.isBlack_iff (step : Step frame state next) (aligned : 8 ∣ state.1.x)
    (below : 32 * next.1.rowStart ≤ pixel) :
    IsBlack next.2 pixel ↔ IsBlack state.2 pixel ∨
      ∃ opcode, Takes frame opcode state next ∧ Blackens frame opcode state.1 pixel := by
  rcases step.takes_or_combines with ⟨opcode, takes⟩ | combines
  · obtain ⟨done, leads⟩ := execute_ok takes.executed
    rw [leads] at below
    rw [isBlack_written aligned done below]
    apply or_congr_right
    constructor
    · intro blackens
      exact ⟨opcode, takes, blackens⟩
    · rintro ⟨other, also, blackens⟩
      cases takes.found.symm.trans also.found
      exact blackens
  · have changes := combines.changesOnly
    rw [combines.next_eq] at below
    have outside : pixel / 32 ∉
        Set.Ico state.1.rowStart (state.1.rowStart + frame.wordsPerRow) := by
      change 32 * (state.1.rowStart + 1 * frame.wordsPerRow) ≤ pixel at below
      rw [Set.mem_Ico]
      omega
    rw [changes.isBlack_iff outside]
    refine (or_iff_left ?_).symm
    rintro ⟨_, takes, _⟩
    exact absurd combines.long (Nat.not_le.mpr takes.short)

/-- What is black below the current row stays black. -/
theorem IsBlack.of_reaches {offset : Nat} (start : Reaches frame (frame.start offset) state)
    (reaches : Reaches frame state last) (below : 32 * last.1.rowStart ≤ pixel)
    (black : IsBlack state.2 pixel) : IsBlack last.2 pixel := by
  induction reaches with
  | refl => exact black
  | tail before step ih =>
    have above := step.rowStart_le
    exact (step.isBlack_iff (Reaches.dvd_x (start.trans before)) below).mpr (.inl (ih (by omega)))

/-- What is black below the current row was drawn there. -/
theorem exists_of_isBlack {offset : Nat} (reaches : Reaches frame (frame.start offset) last)
    (below : 32 * last.1.rowStart ≤ pixel) (black : IsBlack last.2 pixel) :
    ∃ opcode state next, Reaches frame (frame.start offset) state ∧
      Takes frame opcode state next ∧ Blackens frame opcode state.1 pixel := by
  induction reaches with
  | refl =>
    obtain ⟨word, found, black⟩ := black
    have white : word = 0 := by
      have member := Array.mem_of_getElem? found
      exact (Array.mem_replicate.mp member).2
    rw [white, Raster.wordPixel_zero] at black
    cases black
  | tail before step ih =>
    have above := step.rowStart_le
    rcases (step.isBlack_iff (Reaches.dvd_x before) below).mp black with earlier | here
    · exact ih (by omega) earlier
    · obtain ⟨opcode, takes, drawn⟩ := here
      exact ⟨opcode, _, _, before, takes, drawn⟩

/-- **The whole run.** Where a run ends, the pixels from the current row on are black that it has
drawn. -/
theorem Halts.isBlack_iff {offset : Nat} {result : Except BitmapError (Words × Outcome)}
    (halts : Halts frame last result) (reaches : Reaches frame (frame.start offset) last)
    (below : 32 * last.1.rowStart ≤ pixel) :
    IsBlack last.2 pixel ↔ ∃ opcode state next, Reaches frame (frame.start offset) state ∧
      Takes frame opcode state next ∧ Blackens frame opcode state.1 pixel := by
  constructor
  · exact exists_of_isBlack reaches below
  · rintro ⟨opcode, state, next, before, takes, drawn⟩
    have reached := before.tail takes.step
    have onward := Reaches.before_end reached reaches halts
    have above := Reaches.rowStart_le onward
    have black := (takes.step.isBlack_iff (Reaches.dvd_x before) (by omega)).mpr
      (.inr ⟨opcode, takes, drawn⟩)
    exact black.of_reaches reached onward below

end Steps

end Decoder

namespace Raster

open Decoder (Reaches Takes Blackens IsBlack Positioned)

variable {data : Window} {offset place rows : Nat} {rectangle : Rectangle} {raster : Raster}
  {opcode : UInt8} {x y : Nat}

/-- The pixels of a row follow those of the rows above it. -/
theorem isBlack_iff : IsBlack raster.words (y * raster.width + x) ↔
    ∃ word, raster.words[y * raster.wordsPerRow + x / 32]? = some word ∧
      wordPixel word (x % 32) = true := by
  have word : (y * raster.width + x) / 32 = y * raster.wordsPerRow + x / 32 := by
    rw [width, Nat.mul_left_comm]
    omega
  have column : (y * raster.width + x) % 32 = x % 32 := by
    rw [width, Nat.mul_left_comm]
    omega
  rw [IsBlack, word, column]

/-- A pixel is black if it lies in the raster and its bit among all words is set. -/
theorem pixel_eq_true_iff : raster.pixel x y = true ↔
    x < raster.width ∧ y < raster.height ∧ IsBlack raster.words (y * raster.width + x) := by
  unfold pixel
  rw [isBlack_iff, Bool.and_eq_true, Bool.and_eq_true, decide_eq_true_eq, decide_eq_true_eq,
    and_assoc, Array.getD_eq_getD_getElem?]
  cases raster.words[y * raster.wordsPerRow + x / 32]? with
  | none => simp only [Option.getD_none, wordPixel_zero, reduceCtorEq, false_and, exists_false]
  | some word => simp only [Option.getD_some, Option.some_inj, exists_eq_left']

/-- A row without black pixels has white words. -/
theorem row?_eq_white_iff (inside : (y + 1) * raster.wordsPerRow ≤ raster.words.size) :
    raster.row? y = some (List.replicate raster.wordsPerRow 0) ↔
      ∀ x < raster.width, ¬IsBlack raster.words (y * raster.width + x) := by
  constructor
  · intro found x across black
    obtain ⟨_, _, shown⟩ := row?_eq_some_iff.mp found
    obtain ⟨word, there, black⟩ := isBlack_iff.mp black
    have within : x / 32 < raster.wordsPerRow := by
      unfold width at across
      omega
    rw [shown _ within, List.getElem?_replicate_of_lt within] at there
    cases there
    rw [wordPixel_zero] at black
    cases black
  · intro white
    obtain ⟨row, found⟩ := exists_row? inside
    rw [found, eq_replicate_of_row? found]
    intro column within
    rw [Nat.succ_mul] at inside
    rw [Array.getElem?_eq_getElem (by omega), Option.some_inj]
    apply word_ext
    intro bit few
    rw [wordPixel_zero, ← Bool.not_eq_true]
    intro black
    apply white (32 * column + bit)
    · unfold width
      omega
    · have word : (32 * column + bit) / 32 = column := by omega
      have last : (32 * column + bit) % 32 = bit := by omega
      rw [isBlack_iff, word, last]
      exact ⟨_, Array.getElem?_eq_getElem (by omega), black⟩

/-- A black pixel lies in a row. -/
theorem exists_place {pixel : Nat} (size : raster.words.size = raster.wordsPerRow * raster.height)
    (black : IsBlack raster.words pixel) :
    ∃ x y, x < raster.width ∧ y < raster.height ∧ pixel = y * raster.width + x := by
  obtain ⟨word, found, _⟩ := black
  have inside : pixel / 32 < raster.words.size := (Array.getElem?_eq_some_iff.mp found).1
  have within : pixel < raster.width * raster.height := by
    rw [width, Nat.mul_assoc, ← size]
    omega
  have wide : 0 < raster.width := Nat.pos_of_mul_pos_right (Nat.zero_lt_of_lt within)
  refine ⟨pixel % raster.width, pixel / raster.width, Nat.mod_lt _ wide,
    Nat.div_lt_of_lt_mul within, ?_⟩
  rw [Nat.mul_comm]
  exact (Nat.div_add_mod _ _).symm

/-- The rows from one on are white exactly if no pixel in them is black. -/
theorem rows_white_iff (size : raster.words.size = raster.wordsPerRow * raster.height)
    (rows : Nat) :
    (∀ y, rows ≤ y → y < raster.height →
      raster.row? y = some (List.replicate raster.wordsPerRow 0)) ↔
      ∀ pixel, rows * raster.width ≤ pixel → ¬ IsBlack raster.words pixel := by
  have fits : ∀ y < raster.height, (y + 1) * raster.wordsPerRow ≤ raster.words.size := by
    intro y down
    rw [size, Nat.mul_comm raster.wordsPerRow]
    exact Nat.mul_le_mul_right _ down
  constructor
  · intro white pixel below black
    obtain ⟨x, y, across, down, rfl⟩ := exists_place size black
    have unfinished : rows < y + 1 := by
      apply Nat.lt_of_mul_lt_mul_right
      rw [Nat.succ_mul]
      exact Nat.lt_of_le_of_lt below (Nat.add_lt_add_left across _)
    have blank := white y (Nat.le_of_lt_succ unfinished) down
    exact (row?_eq_white_iff (fits y down)).mp blank x across black
  · intro none y unfinished down
    exact (row?_eq_white_iff (fits y down)).mpr fun x _ =>
      none _ (Nat.le_add_right_of_le (Nat.mul_le_mul_right _ unfinished))

/-- **What is below a truncation.** Where decoding was truncated, a pixel from the row on that was
not finished is black exactly if some instruction of the run for a part of a row drew it there. So
these rows are white exactly if no such instruction drew anything past the finished rows. -/
theorem truncated_white_iff
    (decoded : decode data offset rectangle = .ok (raster, .truncated rows opcode place)) :
    let stream := frame data rectangle
    (∀ x y, x < raster.width → rows ≤ y → y < raster.height →
      (raster.pixel x y = true ↔ ∃ taken state next, Reaches stream (stream.start offset) state ∧
        Takes stream taken state next ∧ Blackens stream taken state.1 (y * raster.width + x))) ∧
    ((∀ y, rows ≤ y → y < raster.height →
        raster.row? y = some (List.replicate raster.wordsPerRow 0)) ↔
      ∀ taken state next, Reaches stream (stream.start offset) state →
        Takes stream taken state next →
          ∀ pixel, Blackens stream taken state.1 pixel → pixel < rows * raster.width) := by
  intro stream
  obtain ⟨last, reaches, halts, rfl⟩ := exists_halt_of_decode decoded
  have positioned := Positioned.reaches reaches
  have rowStart : last.1.rowStart = rows * stream.wordsPerRow := by
    rw [positioned.rowStart_eq]
    cases halts
    rfl
  have size : last.2.size = stream.wordsPerRow * stream.extent.height := positioned.size
  have wide : (stream.raster last.2).width = 32 * stream.wordsPerRow := rfl
  have drawn : ∀ pixel, rows * (stream.raster last.2).width ≤ pixel →
      (IsBlack last.2 pixel ↔ ∃ taken state next, Reaches stream (stream.start offset) state ∧
        Takes stream taken state next ∧ Blackens stream taken state.1 pixel) := by
    intro pixel below
    rw [wide, Nat.mul_left_comm, ← rowStart] at below
    exact halts.isBlack_iff reaches below
  refine ⟨fun x y across unfinished down => ?_, ?_⟩
  · have below : rows * (stream.raster last.2).width ≤ y * (stream.raster last.2).width + x :=
      Nat.le_add_right_of_le (Nat.mul_le_mul_right _ unfinished)
    rw [pixel_eq_true_iff, ← drawn _ below]
    exact ⟨fun black => black.2.2, fun black => ⟨across, down, black⟩⟩
  · refine (@rows_white_iff (stream.raster last.2) size rows).trans ⟨?_, ?_⟩
    · intro white taken state next before takes pixel blackens
      by_contra below
      have below := Nat.not_lt.mp below
      exact white pixel below
        ((drawn pixel below).mpr ⟨taken, state, next, before, takes, blackens⟩)
    · intro none pixel below black
      obtain ⟨taken, state, next, before, takes, blackens⟩ := (drawn pixel below).mp black
      exact absurd (none taken state next before takes pixel blackens) (Nat.not_lt.mpr below)

/-- Two bytes that are drawn past their row, then a byte that is no instruction. -/
theorem truncated_white_iff_drawn :
    let stream := frame (.ofArray #[0x24, 0xF0, 0x0F, 0x90]) ⟨0, 0, 3, 32⟩
    ∃ raster, decode (.ofArray #[0x24, 0xF0, 0x0F, 0x90]) 0 ⟨0, 0, 3, 32⟩ =
        .ok (raster, .truncated 1 0x90 3) ∧
      raster.row? 1 = some [0xF00F0000] ∧ raster.row? 2 = some [0] ∧
      ∃ taken state next, Reaches stream (stream.start 0) state ∧ Takes stream taken state next ∧
        Blackens stream taken state.1 32 := by
  have decoded : ∃ result,
      decode (.ofArray #[0x24, 0xF0, 0x0F, 0x90]) 0 ⟨0, 0, 3, 32⟩ = .ok result ∧
        result = (⟨1, 3, #[0, 0xF00F0000, 0]⟩, .truncated 1 0x90 3) :=
    exists_of_check (by decide +kernel)
  obtain ⟨_, decoded, rfl⟩ := decoded
  have drawn := (truncated_white_iff decoded).1 0 1 (by decide) (by decide) (by decide)
  exact ⟨_, decoded, rfl, rfl, drawn.mp (by decide)⟩

/-- A byte that is drawn into the last row while the first one is filled: one row is finished, and
the last one is not white. -/
theorem exists_black_below_truncation :
    ∃ raster, decode (.ofArray #[0x1F, 0xFF, 0x87]) 0 ⟨0, 0, 4, 32⟩ =
        .ok (raster, .truncated 1 0x87 2) ∧
      3 < raster.height ∧ raster.row? 3 = some [0x000000FF] ∧ raster.pixel 24 3 = true := by
  have decoded : ∃ result,
      decode (.ofArray #[0x1F, 0xFF, 0x87]) 0 ⟨0, 0, 4, 32⟩ = .ok result ∧
        result = (⟨1, 4, #[0, 0, 0, 0x000000FF]⟩, .truncated 1 0x87 2) :=
    exists_of_check (by decide +kernel)
  obtain ⟨_, decoded, rfl⟩ := decoded
  exact ⟨_, decoded, by decide, rfl, by decide⟩

end Raster
end HyperCard
