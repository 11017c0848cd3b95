import HyperCard.Proofs.Picture.Changes

/-!
# Where the decoder stands

The decoder counts the current row and the index of its first word separately, and instructions for
whole rows may run past the last row. In every state of a run the two agree, and the array has its
size. It follows that a finished row can always be combined, that nothing above the current row is
written again, and that all numbers of the decoder are small.
-/
namespace HyperCard

namespace Decoder

variable {frame : Frame} {instruction : Instruction} {progress later : Progress}
  {words filled : Words} {first : Nat}

/-- Whether words differ from earlier ones only from an index on. -/
structure Keeps (first : Nat) (words filled : Words) : Prop where
  /-- There are as many. -/
  size : filled.size = words.size
  /-- The words before the index are the same. -/
  before : ∀ index < first, filled[index]? = words[index]?

namespace Keeps

/-- Words that stay the same are kept. -/
theorem refl (first : Nat) (words : Words) : Keeps first words words := ⟨rfl, fun _ _ => rfl⟩

/-- What is kept twice is kept. -/
theorem trans {last : Words} (keeps : Keeps first words filled) (also : Keeps first filled last) :
    Keeps first words last :=
  ⟨also.size.trans keeps.size, fun index less =>
    (also.before index less).trans (keeps.before index less)⟩

/-- Words that are changed from an index on are kept before it. -/
theorem of_changes {places : Set Nat} (changes : ChangesOnly places words filled)
    (late : places ⊆ Set.Ici first) : Keeps first words filled := by
  refine ⟨changes.size, fun index less => changes.elsewhere index fun inside => ?_⟩
  exact absurd (late inside) (Nat.not_le.mpr less)

/-- A step leaves all rows above the current one as they are. -/
theorem of_step {state next : State} (step : Step frame state next) :
    Keeps state.1.rowStart state.2 next.2 := by
  cases step with
  | @instruction progress _ words _ opcode _ _ _ _ executed =>
    exact @of_changes words _ progress.rowStart _ (.written (execute_ok executed).1) subset_rfl
  | row _ _ combined => exact of_changes (.combineRow combined) Set.Ico_subset_Ici_self

end Keeps

end Decoder

/-- Whether the numbers of an instruction are among those that bytes stand for. -/
def Instruction.IsSmall : Instruction → Prop
  | .run zeros count => zeros ≤ 15 ∧ count ≤ 248
  | .skip units => units ≤ 31
  | .repeatNext count => count ≤ 31
  | .combine _ dy => dy ≤ 2
  | .rowsAbove distance => distance ≤ 2
  | _ => True

instance (instruction : Instruction) : Decidable instruction.IsSmall := by
  cases instruction <;> unfold Instruction.IsSmall <;> infer_instance

/-- Every byte stands for an instruction with such numbers. -/
theorem Instruction.isSmall_ofByte (byte : UInt8) : (Instruction.ofByte byte).IsSmall :=
  @forall_byte (fun byte => (Instruction.ofByte byte).IsSmall) (by decide +kernel) byte

namespace Decoder

variable {frame : Frame} {instruction : Instruction} {progress : Progress} {words : Words}
  {state next : State}

/-- An instruction leads as many rows on as it leads words on. -/
theorem exists_rows (frame : Frame) (instruction : Instruction) (progress : Progress) :
    ∃ rows ≤ progress.repetitions,
      (after frame instruction progress).rowStart =
          progress.rowStart + rows * frame.wordsPerRow ∧
        (after frame instruction progress).y = progress.y + rows := by
  have stays : ∃ rows ≤ progress.repetitions,
      progress.rowStart = progress.rowStart + rows * frame.wordsPerRow ∧
        progress.y = progress.y + rows := by
    refine ⟨0, Nat.zero_le _, ?_, (Int.add_zero _).symm⟩
    rw [Nat.zero_mul, Nat.add_zero]
  cases instruction with
  | run zeros count => exact stays
  | skip units => exact stays
  | combine dx dy => exact stays
  | repeatNext count => exact stays
  | unknown => exact stays
  | byteRows =>
    unfold after
    cases frame.data.byte progress.offset with
    | error violation => exact stays
    | ok byte => exact ⟨progress.repetitions, Nat.le_refl _, rfl, rfl⟩
  | copiedRows | whiteRows | blackRows | rememberedRows | rowsAbove _ =>
    exact ⟨progress.repetitions, Nat.le_refl _, rfl, rfl⟩

/-- Instructions keep the numbers of repetitions and the distances to rows above small. -/
theorem after_small (small : instruction.IsSmall) (repetitions : progress.repetitions ≤ 31)
    (dy : progress.dy ≤ 2) :
    (after frame instruction progress).repetitions ≤ 31 ∧
      (after frame instruction progress).dy ≤ 2 := by
  have once : (1 : Nat) ≤ 31 := by decide
  cases instruction with
  | combine dx distance => exact ⟨repetitions, small⟩
  | repeatNext count => exact ⟨small, dy⟩
  | unknown => exact ⟨repetitions, dy⟩
  | byteRows =>
    unfold after
    cases frame.data.byte progress.offset with
    | error violation => exact ⟨repetitions, dy⟩
    | ok byte => exact ⟨once, dy⟩
  | run _ _ | skip _ | copiedRows | whiteRows | blackRows | rememberedRows | rowsAbove _ =>
    exact ⟨once, dy⟩

/-- No step goes back to an earlier row. -/
theorem Step.rowStart_le (step : Step frame state next) : state.1.rowStart ≤ next.1.rowStart := by
  cases step with
  | @instruction progress later words filled opcode _ _ _ _ executed =>
    obtain ⟨_, rfl⟩ := execute_ok executed
    obtain ⟨rows, _, rowStart, _⟩ :=
      exists_rows frame (Instruction.ofByte opcode) (progress.taking opcode)
    show progress.rowStart ≤ _
    rw [rowStart]
    exact Nat.le_add_right progress.rowStart _
  | row _ _ _ => exact Nat.le_add_right _ _

/-- Nor does a run go back to an earlier row. -/
theorem Reaches.rowStart_le {last : State} (reaches : Reaches frame state last) :
    state.1.rowStart ≤ last.1.rowStart := by
  induction reaches with
  | refl => exact Nat.le_refl _
  | tail _ step ih => exact Nat.le_trans ih step.rowStart_le

/-- What holds in every state of a run. -/
structure Positioned (frame : Frame) (state : State) : Prop where
  /-- The first word of the row comes after those of the rows above it. -/
  rowStart : (state.1.rowStart : Int) = (state.1.y - frame.top) * frame.wordsPerRow
  /-- The array holds the raster. -/
  size : state.2.size = frame.wordsPerRow * frame.extent.height
  /-- The row is not above the first one. -/
  above : frame.top ≤ state.1.y
  /-- The row is not far below the last one. -/
  below : state.1.y ≤ max frame.top (frame.bottom + 31)
  /-- The next instruction acts at most so often. -/
  repetitions : state.1.repetitions ≤ 31
  /-- Rows are combined with near ones. -/
  dy : state.1.dy ≤ 2

namespace Positioned

/-- It holds where a run starts. -/
theorem start (frame : Frame) (offset : Nat) : Positioned frame (frame.start offset) where
  rowStart := by
    show ((0 : Nat) : Int) = (frame.top - frame.top) * frame.wordsPerRow
    rw [Int.sub_self, Int.zero_mul, Nat.cast_zero]
  size := Array.size_replicate
  above := Int.le_refl _
  below := Int.le_max_left _ _
  repetitions := show 1 ≤ 31 by decide
  dy := show 0 ≤ 2 by decide

/-- Rows and words go on together. -/
theorem rowStart_add (positioned : Positioned frame state) (rows : Nat) :
    ((state.1.rowStart + rows * frame.wordsPerRow : Nat) : Int) =
      (state.1.y + rows - frame.top) * frame.wordsPerRow := by
  push_cast
  rw [positioned.rowStart]
  ring

/-- Each step keeps it so. -/
theorem step (positioned : Positioned frame state) (step : Step frame state next) :
    Positioned frame next := by
  have keeps := Keeps.of_step step
  have size := keeps.size.trans positioned.size
  have above := positioned.above
  have repetitions := positioned.repetitions
  cases step with
  | @instruction progress later words filled opcode unfinished short found known executed =>
    obtain ⟨_, rfl⟩ := execute_ok executed
    obtain ⟨rows, few, rowStart, y⟩ : ∃ rows ≤ progress.repetitions,
        (after frame (Instruction.ofByte opcode) (progress.taking opcode)).rowStart =
            progress.rowStart + rows * frame.wordsPerRow ∧
          (after frame (Instruction.ofByte opcode) (progress.taking opcode)).y =
            progress.y + rows :=
      exists_rows frame _ (progress.taking opcode)
    obtain ⟨less, near⟩ := @after_small frame _ (progress.taking opcode)
      (Instruction.isSmall_ofByte opcode) repetitions positioned.dy
    have together := positioned.rowStart_add rows
    dsimp only at above repetitions together
    refine ⟨?_, size, ?_, ?_, less, near⟩
    · show ((after frame _ _).rowStart : Int) = ((after frame _ _).y - _) * _
      rw [rowStart, y, together]
    · show frame.top ≤ (after frame _ _).y
      rw [y]
      omega
    · show (after frame _ _).y ≤ _
      rw [y]
      omega
  | @row progress words filled unfinished long combined =>
    dsimp only at above
    refine ⟨positioned.rowStart_add 1, size, ?_, ?_, show 1 ≤ 31 by decide, positioned.dy⟩
    · show frame.top ≤ progress.y + (1 : Nat)
      omega
    · show progress.y + (1 : Nat) ≤ _
      omega

/-- So it holds in every state of a run. -/
theorem reaches {offset : Nat} (reached : Reaches frame (frame.start offset) state) :
    Positioned frame state := by
  induction reached with
  | refl => exact start frame offset
  | tail _ step ih => exact ih.step step

/-- The rows above the current one take the words before its first one. -/
theorem rowStart_eq (positioned : Positioned frame state) :
    state.1.rowStart = (state.1.y - frame.top).toNat * frame.wordsPerRow := by
  have above := positioned.above
  have rows : (((state.1.y - frame.top).toNat : Nat) : Int) = state.1.y - frame.top :=
    Int.toNat_of_nonneg (by omega)
  apply Int.ofNat_inj.mp
  rw [positioned.rowStart, Int.natCast_mul, rows]

/-- A row that is not finished lies in the raster. -/
theorem inside (positioned : Positioned frame state) (unfinished : state.1.y < frame.bottom) :
    state.1.rowStart + frame.wordsPerRow ≤ state.2.size := by
  have above := positioned.above
  have more : (state.1.y - frame.top).toNat + 1 ≤ frame.extent.height := by
    show _ ≤ (frame.bottom - frame.top).toNat
    omega
  have rows := Nat.mul_le_mul_right frame.wordsPerRow more
  rw [Nat.succ_mul] at rows
  rw [positioned.size, positioned.rowStart_eq, Nat.mul_comm frame.wordsPerRow]
  exact rows

end Positioned

/-- So many words can be taken where there are so many. -/
theorem exists_slice {first count : Nat} (fits : first + count ≤ words.size) :
    ∃ row, slice? words first count = some row := by
  rw [slice?, if_pos fits]
  exact ⟨_, rfl⟩

/-- A row that is not finished can be combined, whatever it is combined with. -/
theorem Positioned.exists_combineRow (positioned : Positioned frame (progress, words))
    (unfinished : progress.y < frame.bottom) :
    ∃ filled, combineRow frame progress words = .ok filled := by
  have inside := positioned.inside unfinished
  have rowStart := positioned.rowStart_eq
  dsimp only at inside rowStart
  obtain ⟨row, sliced⟩ := exists_slice inside
  have self : ∃ next, combineWithSelf frame progress words = .ok next := by
    unfold combineWithSelf
    split
    · exact ⟨words, rfl⟩
    · rw [sliced]
      exact ⟨_, rfl⟩
  obtain ⟨next, self⟩ := self
  have size := (ChangesOnly.combineWithSelf self).size
  unfold combineRow
  rw [self]
  show ∃ filled, combineWithAbove frame progress next = .ok filled
  unfold combineWithAbove
  dsimp only
  by_cases none : progress.dy = 0 ∨ progress.y - frame.top < progress.dy
  · rw [if_pos none]
    exact ⟨next, rfl⟩
  · -- There are as many rows above as the distance, so their words come before the current row.
    have far : progress.dy ≤ (progress.y - frame.top).toNat := by omega
    have source := Nat.mul_le_mul_right frame.wordsPerRow far
    rw [← rowStart] at source
    obtain ⟨current, sliced⟩ := @exists_slice next _ _ (size ▸ inside)
    obtain ⟨above, found⟩ := @exists_slice next
      (progress.rowStart - progress.dy * frame.wordsPerRow) frame.wordsPerRow (by omega)
    rw [if_neg none, if_neg (Nat.not_lt.mpr source), found, sliced]
    exact ⟨_, rfl⟩

/-- A number as a machine keeps it. -/
inductive MachineNumber
  /-- An edge or a row: 32 bits, one of them for the sign. -/
  | row (value : Int)
  /-- A count, an index or an offset: 64 bits. -/
  | size (value : Nat)

/-- Whether a number has a place in its bits. -/
def MachineNumber.Fits : MachineNumber → Prop
  | .row value => -0x80000000 ≤ value ∧ value < 0x80000000
  | .size value => value < 0x10000000000000000

/-- A row fits between the bounds of 32 bits with sign. -/
theorem MachineNumber.fits_row {value : Int} (least : -0x80000000 ≤ value)
    (most : value < 0x80000000) : (row value).Fits := ⟨least, most⟩

/-- A count fits below the bound of 64 bits. -/
theorem MachineNumber.fits_size {value : Nat} (small : value < 0x10000000000000000) :
    (size value).Fits := small

/-- The numbers for whole rows: where each row and each of its words stands. -/
def rowsNumbers (frame : Frame) (progress : Progress) : List MachineNumber :=
  (List.range (progress.repetitions + 1)).flatMap fun copy =>
    [.row copy, .row (progress.y + copy), .size (copy * frame.wordsPerRow),
      .size (progress.rowStart + copy * frame.wordsPerRow)] ++
    (List.range frame.wordsPerRow).map fun column =>
      .size (progress.rowStart + copy * frame.wordsPerRow + column)

/-- The numbers for the copies of a byte: the pixel and the word of each of them. -/
def copiesNumbers (progress : Progress) (first stride : Nat) : List MachineNumber :=
  (List.range progress.repetitions).flatMap fun copy =>
    let pixel := 8 * (first + copy * stride)
    [.size pixel, .size (progress.x + pixel), .size (progress.rowStart + (progress.x + pixel) / 32)]

/-- The numbers that an instruction is executed with, after its byte was taken. Those that come up
on the way to one of them are no greater. -/
def instructionNumbers (frame : Frame) (progress : Progress) : Instruction → List MachineNumber
  | .run zeros count =>
    let pixels := 8 * (zeros + count)
    [.size pixels, .size (pixels * progress.repetitions),
      .size (progress.x + pixels * progress.repetitions)] ++
    (List.range (count + 1)).map (fun index => .size (progress.offset + index)) ++
    (List.range count).flatMap fun index => copiesNumbers progress (zeros + index) (zeros + count)
  | .skip units =>
    [.size (128 * units), .size (128 * units * progress.repetitions),
      .size (progress.x + 128 * units * progress.repetitions)]
  | .copiedRows =>
    (List.range (frame.wordsPerRow + 1)).map (fun column => .size (progress.offset + 4 * column)) ++
      rowsNumbers frame progress
  | .byteRows => .size (progress.offset + 1) :: rowsNumbers frame progress
  | .rowsAbove distance => .size (distance * frame.wordsPerRow) :: rowsNumbers frame progress
  | .whiteRows | .blackRows | .rememberedRows => rowsNumbers frame progress
  | .unknown => [.row (progress.y - frame.top)]
  | .combine _ _ | .repeatNext _ => []

/-- The numbers that a row is combined with. -/
def combiningNumbers (frame : Frame) (progress : Progress) : List MachineNumber :=
  [.row (progress.y - frame.top), .row progress.dy, .row (progress.y + 1),
    .size (progress.dy * frame.wordsPerRow), .size (progress.rowStart + frame.wordsPerRow)] ++
  (List.range frame.wordsPerRow).flatMap fun column =>
    [.size (progress.rowStart - progress.dy * frame.wordsPerRow + column),
      .size (progress.rowStart + column)]

/-- Whether the edges of a frame, its rows and its data have sizes that occur. -/
structure Frame.IsSmall (frame : Frame) : Prop where
  /-- The first row is one of fifteen bits. -/
  top : 0 ≤ frame.top ∧ frame.top ≤ 0x7FFF
  /-- So is the row after the last. -/
  bottom : 0 ≤ frame.bottom ∧ frame.bottom ≤ 0x7FFF
  /-- A row has at most 32768 pixels. -/
  wordsPerRow : frame.wordsPerRow ≤ 0x400
  /-- A buffer leaves one bit of an offset free. -/
  data : frame.data.length < 0x8000000000000000

section Numbers

variable {number : MachineNumber}

/-- The current row begins among the first words. -/
theorem Positioned.rowStart_le (positioned : Positioned frame (progress, words))
    (small : frame.IsSmall) : progress.rowStart ≤ 0x801E * 0x400 := by
  have below := positioned.below
  obtain ⟨least, most⟩ := small.top
  obtain ⟨_, last⟩ := small.bottom
  have rowStart := positioned.rowStart_eq
  dsimp only at below rowStart
  rw [rowStart]
  exact Nat.mul_le_mul (by omega) small.wordsPerRow

/-- The number of rows above the current one fits. -/
theorem Positioned.fits_row (positioned : Positioned frame (progress, words))
    (small : frame.IsSmall) : (MachineNumber.row (progress.y - frame.top)).Fits := by
  have above := positioned.above
  have below := positioned.below
  have top := small.top
  have bottom := small.bottom
  dsimp only at above below
  exact MachineNumber.fits_row (by omega) (by omega)

/-- The numbers for whole rows fit: at most 31 of them are filled. -/
theorem Positioned.fits_rows (positioned : Positioned frame (progress, words))
    (small : frame.IsSmall) (mem : number ∈ rowsNumbers frame progress) : number.Fits := by
  have rowStart := positioned.rowStart_le small
  have above := positioned.above
  have below := positioned.below
  have repetitions := positioned.repetitions
  have top := small.top
  have bottom := small.bottom
  have width := small.wordsPerRow
  dsimp only at above below repetitions
  obtain ⟨copy, few, mem⟩ := List.mem_flatMap.mp mem
  rw [List.mem_range] at few
  have words : copy * frame.wordsPerRow ≤ 31 * 0x400 := Nat.mul_le_mul (by omega) width
  rcases List.mem_append.mp mem with mem | mem
  · simp only [List.mem_cons, List.not_mem_nil, or_false] at mem
    rcases mem with rfl | rfl | rfl | rfl
    · exact MachineNumber.fits_row (by omega) (by omega)
    · exact MachineNumber.fits_row (by omega) (by omega)
    · exact MachineNumber.fits_size (by omega)
    · exact MachineNumber.fits_size (by omega)
  · obtain ⟨column, inside, rfl⟩ := List.mem_map.mp mem
    rw [List.mem_range] at inside
    exact MachineNumber.fits_size (by omega)

/-- The numbers for the copies of a byte fit: at most 31 of them are drawn. -/
theorem Positioned.fits_copies (positioned : Positioned frame (progress, words))
    (small : frame.IsSmall) (short : progress.x < 32 * frame.wordsPerRow) {first stride : Nat}
    (near : first ≤ 263) (narrow : stride ≤ 263)
    (mem : number ∈ copiesNumbers progress first stride) : number.Fits := by
  have rowStart := positioned.rowStart_le small
  have repetitions := positioned.repetitions
  have width := small.wordsPerRow
  dsimp only at repetitions
  obtain ⟨copy, few, mem⟩ := List.mem_flatMap.mp mem
  rw [List.mem_range] at few
  have bytes : copy * stride ≤ 31 * 263 := Nat.mul_le_mul (by omega) narrow
  simp only [List.mem_cons, List.not_mem_nil, or_false] at mem
  rcases mem with rfl | rfl | rfl <;> exact MachineNumber.fits_size (by omega)

/-- The numbers of a run fit. -/
theorem Positioned.fits_run (positioned : Positioned frame (progress, words))
    (small : frame.IsSmall) (short : progress.x < 32 * frame.wordsPerRow)
    (offset : progress.offset ≤ frame.data.length) {zeros count : Nat} (white : zeros ≤ 15)
    (some : count ≤ 248) (mem : number ∈ instructionNumbers frame progress (.run zeros count)) :
    number.Fits := by
  have width := small.wordsPerRow
  have data := small.data
  have pixels : 8 * (zeros + count) * progress.repetitions ≤ 2104 * 31 :=
    Nat.mul_le_mul (by omega) positioned.repetitions
  unfold instructionNumbers at mem
  rw [List.mem_append, List.mem_append] at mem
  rcases mem with (mem | mem) | mem
  · simp only [List.mem_cons, List.not_mem_nil, or_false] at mem
    rcases mem with rfl | rfl | rfl <;> exact MachineNumber.fits_size (by omega)
  · obtain ⟨index, inside, rfl⟩ := List.mem_map.mp mem
    rw [List.mem_range] at inside
    exact MachineNumber.fits_size (by omega)
  · obtain ⟨index, inside, mem⟩ := List.mem_flatMap.mp mem
    rw [List.mem_range] at inside
    exact positioned.fits_copies small short (by omega) (by omega) mem

/-- The numbers of an instruction fit. -/
theorem Positioned.fits_instruction (positioned : Positioned frame (progress, words))
    (small : frame.IsSmall) (short : progress.x < 32 * frame.wordsPerRow)
    (offset : progress.offset ≤ frame.data.length) (numbers : instruction.IsSmall)
    (mem : number ∈ instructionNumbers frame progress instruction) : number.Fits := by
  have width := small.wordsPerRow
  have data := small.data
  cases instruction with
  | run zeros count =>
    exact positioned.fits_run small short offset numbers.1 numbers.2 mem
  | skip units =>
    have few : 128 * units ≤ 3968 := Nat.mul_le_mul_left 128 numbers
    have pixels : 128 * units * progress.repetitions ≤ 3968 * 31 :=
      Nat.mul_le_mul few positioned.repetitions
    simp only [instructionNumbers, List.mem_cons, List.not_mem_nil, or_false] at mem
    rcases mem with rfl | rfl | rfl <;> exact MachineNumber.fits_size (by omega)
  | copiedRows =>
    rcases List.mem_append.mp mem with mem | mem
    · obtain ⟨column, inside, rfl⟩ := List.mem_map.mp mem
      rw [List.mem_range] at inside
      exact MachineNumber.fits_size (by omega)
    · exact positioned.fits_rows small mem
  | byteRows =>
    rcases List.mem_cons.mp mem with rfl | mem
    · exact MachineNumber.fits_size (by omega)
    · exact positioned.fits_rows small mem
  | rowsAbove distance =>
    have words : distance * frame.wordsPerRow ≤ 2 * 0x400 := Nat.mul_le_mul numbers width
    rcases List.mem_cons.mp mem with rfl | mem
    · exact MachineNumber.fits_size (by omega)
    · exact positioned.fits_rows small mem
  | unknown =>
    cases List.mem_singleton.mp mem
    exact positioned.fits_row small
  | whiteRows | blackRows | rememberedRows => exact positioned.fits_rows small mem
  | combine _ _ | repeatNext _ => cases mem

/-- The numbers that a row is combined with fit. -/
theorem Positioned.fits_combining (positioned : Positioned frame (progress, words))
    (small : frame.IsSmall) (mem : number ∈ combiningNumbers frame progress) : number.Fits := by
  have rowStart := positioned.rowStart_le small
  have above := positioned.above
  have below := positioned.below
  have top := small.top
  have bottom := small.bottom
  have width := small.wordsPerRow
  have dy := positioned.dy
  dsimp only at above below dy
  have distance : progress.dy * frame.wordsPerRow ≤ 2 * 0x400 := Nat.mul_le_mul dy width
  rcases List.mem_append.mp mem with mem | mem
  · simp only [List.mem_cons, List.not_mem_nil, or_false] at mem
    rcases mem with rfl | rfl | rfl | rfl | rfl
    · exact positioned.fits_row small
    · exact MachineNumber.fits_row (by omega) (by omega)
    · exact MachineNumber.fits_row (by omega) (by omega)
    · exact MachineNumber.fits_size (by omega)
    · exact MachineNumber.fits_size (by omega)
  · obtain ⟨column, inside, mem⟩ := List.mem_flatMap.mp mem
    rw [List.mem_range] at inside
    simp only [List.mem_cons, List.not_mem_nil, or_false] at mem
    rcases mem with rfl | rfl <;> exact MachineNumber.fits_size (by omega)

end Numbers

/-- What follows for the next step from where the decoder stands. -/
structure Safe (frame : Frame) (state : State) : Prop where
  /-- A row that is not finished lies in the raster. -/
  inside : state.1.y < frame.bottom → state.1.rowStart + frame.wordsPerRow ≤ state.2.size
  /-- A row that is long enough can be combined. -/
  combines : state.1.y < frame.bottom → 32 * frame.wordsPerRow ≤ state.1.x →
    ∃ filled, combineRow frame state.1 state.2 = .ok filled
  /-- Rows above the current one stay as they are. -/
  keeps : ∀ next, Step frame state next →
    ∀ index < state.1.rowStart, next.2[index]? = state.2[index]?
  /-- The numbers of an instruction fit, the offset behind its byte included. -/
  executing : state.1.y < frame.bottom → state.1.x < 32 * frame.wordsPerRow → ∀ opcode,
    frame.data.byte state.1.offset = .ok opcode →
      ∀ number ∈ .size (state.1.offset + 1) ::
        instructionNumbers frame (state.1.taking opcode) (Instruction.ofByte opcode), number.Fits
  /-- The numbers that a row is combined with fit. -/
  combining : state.1.y < frame.bottom → 32 * frame.wordsPerRow ≤ state.1.x →
    ∀ number ∈ combiningNumbers frame state.1, number.Fits

/-- All of this follows from where the decoder stands. -/
theorem Positioned.safe (positioned : Positioned frame state) (small : frame.IsSmall) :
    Safe frame state where
  inside := positioned.inside
  combines unfinished _ := positioned.exists_combineRow unfinished
  keeps _ step := (Keeps.of_step step).before
  executing unfinished short opcode found number mem := by
    have within := (Window.byte_eq_ok found).1
    rcases List.mem_cons.mp mem with rfl | mem
    · have data := small.data
      exact MachineNumber.fits_size (by omega)
    · have taken : Positioned frame (state.1.taking opcode, state.2) :=
        ⟨positioned.rowStart, positioned.size, positioned.above, positioned.below,
          positioned.repetitions, positioned.dy⟩
      exact taken.fits_instruction small short within (Instruction.isSmall_ofByte opcode) mem
  combining _ _ _ mem := positioned.fits_combining small mem

end Decoder

/-- Whether all edges have fifteen bits, as those in files. -/
def Rectangle.IsStored (rectangle : Rectangle) : Prop :=
  ∀ edge ∈ [rectangle.top, rectangle.left, rectangle.bottom, rectangle.right],
    0 ≤ edge ∧ edge ≤ 0x7FFF

instance (rectangle : Rectangle) : Decidable rectangle.IsStored := by
  unfold Rectangle.IsStored
  infer_instance

namespace Raster

open Decoder (MachineNumber Reaches Halts Positioned Safe)

variable {data : Window} {rectangle : Rectangle}

/-- The numbers that decoding over a rectangle begins with. -/
def numbers (rectangle : Rectangle) : List MachineNumber :=
  let aligned := rectangle.alignedToWords
  let wordsPerRow := (aligned.width / 32).toNat
  let height := aligned.height.toNat
  [.row (rectangle.right + 31), .row aligned.left, .row aligned.right,
    .row (aligned.right - aligned.left), .row (aligned.bottom - aligned.top), .size wordsPerRow,
    .size height, .size (wordsPerRow * height), .size (32 * wordsPerRow)]

/-- The frame over a rectangle that is stored has sizes that occur. -/
theorem isSmall_frame (stored : rectangle.IsStored) (memory : data.length < 0x8000000000000000) :
    (frame data rectangle).IsSmall := by
  have top := stored rectangle.top (by simp)
  have left := stored rectangle.left (by simp)
  have bottom := stored rectangle.bottom (by simp)
  have right := stored rectangle.right (by simp)
  refine ⟨top, bottom, ?_, memory⟩
  show (max ((rectangle.right + 31) / 32 * 32 - rectangle.left / 32 * 32) 0 / 32).toNat ≤ 0x400
  omega

/-- The numbers that decoding begins with fit. -/
theorem fits_numbers (stored : rectangle.IsStored) {number : MachineNumber}
    (mem : number ∈ numbers rectangle) : number.Fits := by
  have top := stored rectangle.top (by simp)
  have left := stored rectangle.left (by simp)
  have bottom := stored rectangle.bottom (by simp)
  have right := stored rectangle.right (by simp)
  have width : (rectangle.alignedToWords.width / 32).toNat ≤ 0x400 := by
    show (max ((rectangle.right + 31) / 32 * 32 - rectangle.left / 32 * 32) 0 / 32).toNat ≤ _
    omega
  have height : rectangle.alignedToWords.height.toNat ≤ 0x7FFF := by
    show (max (rectangle.bottom - rectangle.top) 0).toNat ≤ 0x7FFF
    omega
  have area := Nat.mul_le_mul width height
  simp only [numbers, List.mem_cons, List.not_mem_nil, or_false] at mem
  rcases mem with rfl | rfl | rfl | rfl | rfl | rfl | rfl | rfl | rfl <;>
    unfold MachineNumber.Fits <;> dsimp only [Rectangle.alignedToWords] at * <;> omega

/-- **The decoder keeps its place.** Decoding over a rectangle of a file goes from state to state
until one of them ends it. In each of them the row and the index of its first word agree, and the
array has its size; so rows are always combined without an error, rows above the current one stay as
they are, and no number is too large for its bits. -/
theorem decode_in_place (stored : rectangle.IsStored) (memory : data.length < 0x8000000000000000)
    (offset : Nat) :
    (∀ number ∈ numbers rectangle, number.Fits) ∧
      (∃ last, Reaches (frame data rectangle) ((frame data rectangle).start offset) last ∧
        Halts (frame data rectangle) last (Decoder.run (frame data rectangle)
          (.initial offset (frame data rectangle).top) (frame data rectangle).blank)) ∧
      ∀ state, Reaches (frame data rectangle) ((frame data rectangle).start offset) state →
        Positioned (frame data rectangle) state ∧ Safe (frame data rectangle) state := by
  refine ⟨fun _ mem => fits_numbers stored mem, Decoder.exists_halt _ _, fun state reached => ?_⟩
  have positioned := Positioned.reaches reached
  exact ⟨positioned, positioned.safe (isSmall_frame stored memory)⟩

/-- Two rows, of which 31 are left white at once: the decoder then stands 29 rows below the last
one, and where it began nothing has changed. -/
theorem decode_in_place_beyond :
    let frame := frame (.ofArray #[0xBF, 0x81]) ⟨3, 0, 5, 32⟩
    ∃ state, Reaches frame (frame.start 0) state ∧ state.1.y = 34 ∧ state.1.rowStart = 31 ∧
      Positioned frame state ∧ Safe frame state := by
  intro frame
  have stored : Rectangle.IsStored ⟨3, 0, 5, 32⟩ := by decide
  let repeating : Decoder.Progress :=
    { (Decoder.Progress.initial 0 3).taking 0xBF with repetitions := 31 }
  have repeats : Decoder.Step frame (frame.start 0) (repeating, frame.blank) :=
    @Decoder.Step.instruction frame (.initial 0 3) repeating frame.blank frame.blank 0xBF
      (by decide) (by decide) rfl (by decide) rfl
  have white : Decoder.Step frame (repeating, frame.blank)
      ((repeating.taking 0x81).advanceRows 1 31, frame.blank) :=
    @Decoder.Step.instruction frame repeating _ frame.blank frame.blank 0x81
      (by decide) (by decide) rfl (by decide) rfl
  have reached := Relation.ReflTransGen.tail (.single repeats) white
  obtain ⟨_, _, each⟩ := @decode_in_place (.ofArray #[0xBF, 0x81]) _ stored (by decide) 0
  exact ⟨_, reached, rfl, rfl, each _ reached⟩

end Raster
end HyperCard
