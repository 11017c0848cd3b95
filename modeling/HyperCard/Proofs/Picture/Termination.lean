import HyperCard.Proofs.Picture.Displacement

/-!
# The end of a run

A run of the decoder is a loop over rows around a loop over the instructions of a row, and neither
of them has a measure of its own. Rows that are repeated no times are not filled, so the same row
begins again, and rows of no width are finished without a byte. What remains is measured by the
bytes and the rows together: a pass of the inner loop takes at least one byte, so a pass of the
outer loop that takes none has finished a row.
-/
namespace HyperCard

/-- Whether the row ends with an instruction. -/
def Instruction.endsRow : Instruction → Bool
  | .copiedRows | .whiteRows | .blackRows | .byteRows | .rememberedRows | .rowsAbove _ => true
  | .run _ _ | .skip _ | .combine _ _ | .repeatNext _ | .unknown => false

namespace Decoder

/-- A pass of the loop over the instructions of a row. -/
structure Takes (frame : Frame) (opcode : UInt8) (state next : State) : Prop where
  /-- It is a step of the decoder. -/
  step : Step frame state next
  /-- The row is not long enough. -/
  short : state.1.x < 32 * frame.wordsPerRow
  /-- The next byte of the stream is the instruction. -/
  found : frame.data.byte state.1.offset = .ok opcode

/-- A row that is long enough is combined. -/
structure Combines (frame : Frame) (state next : State) : Prop where
  /-- It is a step of the decoder. -/
  step : Step frame state next
  /-- The row is long enough. -/
  long : 32 * frame.wordsPerRow ≤ state.1.x

/-- An instruction is taken, and the row goes on. -/
def GoesOn (frame : Frame) (state next : State) : Prop :=
  ∃ opcode, Takes frame opcode state next ∧ (Instruction.ofByte opcode).endsRow = false

/-- The row ends, with an instruction or because it is long enough. -/
def EndsRow (frame : Frame) (state next : State) : Prop :=
  (∃ opcode, Takes frame opcode state next ∧ (Instruction.ofByte opcode).endsRow = true) ∨
    Combines frame state next

/-- A pass of the loop over the rows. -/
def RowPass (frame : Frame) (state next : State) : Prop :=
  ∃ last, Relation.ReflTransGen (GoesOn frame) state last ∧ EndsRow frame last next

/-- Where a pass of the loop over the rows begins. -/
structure AtRow (state : State) : Prop where
  /-- Nothing of the row is filled. -/
  x : state.1.x = 0
  /-- Nothing is repeated. -/
  repetitions : state.1.repetitions = 1

variable {frame : Frame} {state next last : State} {opcode : UInt8}

/-- A step takes an instruction or combines a row. -/
theorem Step.takes_or_combines (step : Step frame state next) :
    (∃ opcode, Takes frame opcode state next) ∨ Combines frame state next := by
  cases step with
  | instruction unfinished short found known executed =>
    exact .inl ⟨_, .instruction unfinished short found known executed, short, found⟩
  | row unfinished long combined => exact .inr ⟨.row unfinished long combined, long⟩

/-- A step goes on in the row or ends it. -/
theorem Step.goesOn_or_endsRow (step : Step frame state next) :
    GoesOn frame state next ∨ EndsRow frame state next := by
  rcases step.takes_or_combines with ⟨opcode, takes⟩ | combines
  · cases ends : (Instruction.ofByte opcode).endsRow with
    | false => exact .inl ⟨opcode, takes, ends⟩
    | true => exact .inr (.inl ⟨opcode, takes, ends⟩)
  · exact .inr (.inr combines)

/-- To go on in a row is a step. -/
theorem GoesOn.step (goes : GoesOn frame state next) : Step frame state next := by
  obtain ⟨_, takes, _⟩ := goes
  exact takes.step

/-- To end a row is a step. -/
theorem EndsRow.step (ends : EndsRow frame state next) : Step frame state next := by
  rcases ends with ⟨_, takes, _⟩ | combines
  · exact takes.step
  · exact combines.step

/-- Going on in a row is part of a run. -/
theorem reaches_of_goesOn (row : Relation.ReflTransGen (GoesOn frame) state last) :
    Reaches frame state last := row.lift id fun _ _ goes => goes.step

/-- A run follows passes over whole rows and then the instructions of one row. -/
theorem Reaches.exists_rowPasses (reaches : Reaches frame state last) :
    ∃ head, Relation.ReflTransGen (RowPass frame) state head ∧
      Relation.ReflTransGen (GoesOn frame) head last := by
  induction reaches with
  | refl => exact ⟨state, .refl, .refl⟩
  | tail _ step ih =>
    obtain ⟨head, passes, row⟩ := ih
    rcases step.goesOn_or_endsRow with goes | ends
    · exact ⟨head, passes, row.tail goes⟩
    · exact ⟨_, passes.tail ⟨_, row, ends⟩, .refl⟩

section Pass

/-- What a pass of the inner loop does is what its instruction does. -/
theorem Takes.executed (takes : Takes frame opcode state next) :
    execute frame (Instruction.ofByte opcode) (state.1.taking opcode) state.2 =
      .ok (next.2, next.1) := by
  obtain ⟨step, short, found⟩ := takes
  cases step with
  | instruction _ _ same _ executed =>
    cases found.symm.trans same
    exact executed
  | row _ long _ => exact absurd short (Nat.not_lt.mpr long)

/-- A pass of the inner loop takes a byte of the stream. -/
theorem Takes.offset_lt (takes : Takes frame opcode state next) :
    state.1.offset < next.1.offset := (le_of_execute takes.executed).1

/-- It takes no byte behind the stream. -/
theorem Takes.offset_le_length (takes : Takes frame opcode state next) :
    next.1.offset ≤ frame.data.length := by
  have inside : (state.1.taking opcode).offset ≤ frame.data.length :=
    (Window.byte_eq_ok takes.found).1
  exact le_length_of_execute inside takes.executed

/-- Combining finishes a row. -/
theorem Combines.next_eq (combines : Combines frame state next) :
    next.1 = state.1.advanceRows frame.wordsPerRow 1 := by
  obtain ⟨step, long⟩ := combines
  cases step with
  | instruction _ short _ _ _ => exact absurd short (Nat.not_lt.mpr long)
  | row _ _ _ => rfl

/-- The next row comes after a combined one. -/
theorem Combines.y_eq (combines : Combines frame state next) : next.1.y = state.1.y + 1 := by
  rw [combines.next_eq]
  rfl

/-- The step that ends a row takes a byte or finishes the row. -/
theorem EndsRow.advances (ends : EndsRow frame state next) :
    state.1.offset < next.1.offset ∨ state.1.y < next.1.y := by
  rcases ends with ⟨_, takes, _⟩ | combines
  · exact .inl takes.offset_lt
  · exact .inr (by rw [combines.y_eq]; exact Int.lt_succ _)

/-- A pass of the outer loop takes a byte or finishes a row. -/
theorem RowPass.advances (pass : RowPass frame state next) :
    state.1.offset < next.1.offset ∨ state.1.y < next.1.y := by
  obtain ⟨last, row, ends⟩ := pass
  cases row using Relation.ReflTransGen.head_induction_on with
  | refl => exact ends.advances
  | head goes rest =>
    obtain ⟨_, takes, _⟩ := goes
    have onward := (reaches_of_goesOn rest).offset_le
    exact .inl (Nat.lt_of_lt_of_le takes.offset_lt (Nat.le_trans onward ends.step.offset_le))

end Pass

section Row

variable {instruction : Instruction} {progress later : Progress} {words filled : Words}

/-- An instruction that ends its row leads to the beginning of one. -/
theorem atRow_of_execute (ends : instruction.endsRow = true)
    (executed : execute frame instruction progress words = .ok (filled, later)) :
    AtRow (later, filled) := by
  obtain ⟨done, rfl⟩ := execute_ok executed
  cases instruction with
  | byteRows =>
    obtain ⟨byte, _, _, leads⟩ := exists_of_byteRows done
    rw [leads]
    exact ⟨rfl, rfl⟩
  | copiedRows | whiteRows | blackRows | rememberedRows | rowsAbove _ => exact ⟨rfl, rfl⟩
  | run _ _ | skip _ | combine _ _ | repeatNext _ | unknown => cases ends

/-- After the end of a row another one begins. -/
theorem EndsRow.atRow (ends : EndsRow frame state next) : AtRow next := by
  rcases ends with ⟨_, takes, ends⟩ | combines
  · exact atRow_of_execute ends takes.executed
  · refine ⟨?_, ?_⟩ <;> rw [combines.next_eq] <;> rfl

/-- A run starts at the beginning of a row. -/
theorem atRow_start (frame : Frame) (offset : Nat) : AtRow (frame.start offset) := ⟨rfl, rfl⟩

/-- Passes of the outer loop lead from the beginning of a row to the beginning of a row. -/
theorem atRow_of_rowPasses (begins : AtRow state)
    (passes : Relation.ReflTransGen (RowPass frame) state next) : AtRow next := by
  cases passes with
  | refl => exact begins
  | tail _ pass =>
    obtain ⟨_, _, ends⟩ := pass
    exact ends.atRow

/-- Words that are copied to no row are only read. -/
theorem eq_of_copyRows {columns offset index : Nat} (none : progress.repetitions = 0)
    (done : copyRows frame progress columns offset index words = .ok filled) : filled = words := by
  induction columns generalizing offset index with
  | zero =>
    cases done
    rfl
  | succ columns ih =>
    obtain ⟨word, next, _, set, done⟩ := exists_of_copyRows done
    rw [none] at set
    cases set
    exact ih done

/-- Over no rows the decoder only goes back to the beginning of the current one. -/
theorem advanceRows_zero (progress : Progress) (columns : Nat) :
    progress.advanceRows columns 0 = { progress with x := 0, repetitions := 1 } := by
  rw [Progress.advanceRows, Nat.zero_mul, Nat.add_zero]
  simp only [Int.natCast_zero, Int.add_zero]

/-- Whole rows that are repeated no times are no rows. -/
theorem eq_of_execute_rows (ends : instruction.endsRow = true) (none : progress.repetitions = 0)
    (executed : execute frame instruction progress words = .ok (filled, later)) :
    later.y = progress.y ∧ later.rowStart = progress.rowStart ∧ filled = words := by
  obtain ⟨done, rfl⟩ := execute_ok executed
  cases instruction with
  | copiedRows =>
    have same := eq_of_copyRows none done
    dsimp only [after]
    rw [none, advanceRows_zero]
    exact ⟨rfl, rfl, same⟩
  | byteRows =>
    obtain ⟨byte, _, rows, leads⟩ := exists_of_byteRows done
    rw [none] at rows leads
    cases rows
    rw [leads, advanceRows_zero]
    exact ⟨rfl, rfl, rfl⟩
  | whiteRows =>
    cases done
    rw [after, none, advanceRows_zero]
    exact ⟨rfl, rfl, rfl⟩
  | blackRows | rememberedRows | rowsAbove _ =>
    dsimp only [written] at done
    rw [none] at done
    cases done
    rw [after, none, advanceRows_zero]
    exact ⟨rfl, rfl, rfl⟩
  | run _ _ | skip _ | combine _ _ | repeatNext _ | unknown => cases ends

/-- An instruction for whole rows that is repeated no times leaves the row and the words as they
are. -/
theorem Takes.fills_none (takes : Takes frame opcode state next)
    (ends : (Instruction.ofByte opcode).endsRow = true) (none : state.1.repetitions = 0) :
    next.1.y = state.1.y ∧ next.1.rowStart = state.1.rowStart ∧ next.2 = state.2 := by
  have none : (state.1.taking opcode).repetitions = 0 := none
  have same := eq_of_execute_rows ends none takes.executed
  exact same

/-- A pass of the outer loop may come back to the row that it began. -/
theorem exists_rowPass_in_place (begins : AtRow state) (unfinished : state.1.y < frame.bottom)
    (wide : frame.wordsPerRow ≠ 0) (none : frame.data.byte state.1.offset = .ok 0xA0)
    (white : frame.data.byte (state.1.offset + 1) = .ok 0x81) :
    ∃ next, RowPass frame state next ∧ next.1.y = state.1.y ∧ next.2 = state.2 := by
  have short : state.1.x < 32 * frame.wordsPerRow := by
    rw [begins.x]
    omega
  have repeated : Takes frame 0xA0 state ({ state.1.taking 0xA0 with repetitions := 0 }, state.2) :=
    ⟨.instruction unfinished short none (by decide) rfl, short, none⟩
  let middle : State := ({ state.1.taking 0xA0 with repetitions := 0 }, state.2)
  have filled : Takes frame 0x81 middle
      ((middle.1.taking 0x81).advanceRows frame.wordsPerRow 0, middle.2) :=
    ⟨.instruction unfinished short white (by decide) rfl, short, white⟩
  have same := filled.fills_none rfl rfl
  exact ⟨_, ⟨middle, .single ⟨_, repeated, rfl⟩, .inl ⟨_, filled, rfl⟩⟩, same.1, same.2.2⟩

/-- Empty runs and skips leave everything as it is. -/
theorem eq_of_execute_empty (empty : instruction = .run 0 0 ∨ instruction = .skip 0)
    (executed : execute frame instruction progress words = .ok (filled, later)) :
    later = { progress with repetitions := 1 } ∧ filled = words := by
  rcases empty with rfl | rfl
  · cases executed
    exact ⟨by simp only [Progress.advancePixels, Nat.add_zero, Nat.mul_zero, Nat.zero_mul], rfl⟩
  · cases executed
    exact ⟨by simp only [Progress.advancePixels, Nat.add_zero, Nat.mul_zero, Nat.zero_mul], rfl⟩

/-- Rows of no width are finished without a byte. -/
theorem Step.of_narrow (narrow : frame.wordsPerRow = 0) (step : Step frame state next) :
    next.1.offset = state.1.offset ∧ next.1.y = state.1.y + 1 := by
  rcases step.takes_or_combines with ⟨_, takes⟩ | combines
  · have short := takes.short
    rw [narrow] at short
    exact absurd short (Nat.not_lt_zero _)
  · rw [combines.next_eq]
    exact ⟨rfl, rfl⟩

end Row

/-- There are no more steps than bytes and rows. -/
theorem length_le_of_isChain {states : List State}
    (chain : List.IsChain (Step frame) (state :: states)) :
    states.length ≤ remaining frame state := by
  induction states generalizing state with
  | nil => exact Nat.zero_le _
  | cons next states ih =>
    obtain ⟨step, rest⟩ := List.isChain_cons_cons.mp chain
    have less := step.remaining_lt
    have more := ih rest
    rw [List.length_cons]
    omega

end Decoder

open Decoder

/-- **Decoding ends.** For every block, offset and rectangle, the decoder makes no more steps than
there are bytes from the offset on and rows together. Wherever its steps have led, either there is
a next one or decoding has ended, with the raster complete or truncated or with an error, and it
does end. The steps are passes over whole rows and then over instructions of one row. Each pass over
an instruction takes at least one byte of the block, and each pass over a row takes a byte or
finishes the row. This is so although instructions for whole rows that are repeated no times fill no
row, empty runs and skips advance nothing, and rows of no width take no byte. -/
theorem Raster.decode_ends (data : Window) (offset : Nat) (rectangle : Rectangle) :
    let frame := frame data rectangle
    let first := frame.start offset
    let raster (result : Except BitmapError (Words × Outcome)) :=
      (fun ended => (⟨frame.wordsPerRow, frame.extent.height, ended.1⟩, ended.2)) <$> result
    (∀ states, List.IsChain (Step frame) (first :: states) →
      states.length ≤ (data.length - offset) + rectangle.height.toNat) ∧
    (∀ state, Reaches frame first state → (∃ next, Step frame state next) ∨
      ∃ result, Halts frame state result ∧ decode data offset rectangle = raster result) ∧
    (∃ last result, Reaches frame first last ∧ Halts frame last result ∧
      decode data offset rectangle = raster result) ∧
    (∀ state, Reaches frame first state →
      ∃ head, AtRow head ∧ Relation.ReflTransGen (RowPass frame) first head ∧
        Relation.ReflTransGen (GoesOn frame) head state) ∧
    (∀ opcode state next, Takes frame opcode state next →
      state.1.offset < next.1.offset ∧ next.1.offset ≤ data.length) ∧
    (∀ state next, RowPass frame state next →
      state.1.offset < next.1.offset ∨ state.1.y < next.1.y) ∧
    (∀ opcode state next, Takes frame opcode state next →
      (Instruction.ofByte opcode).endsRow = true → state.1.repetitions = 0 →
        next.1.y = state.1.y ∧ next.1.rowStart = state.1.rowStart ∧ next.2 = state.2) ∧
    (∀ opcode state next, Takes frame opcode state next → opcode ∈ [0x00, 0xC0, 0xE0] →
      next = ({ state.1.taking opcode with repetitions := 1 }, state.2)) ∧
    (frame.wordsPerRow = 0 → ∀ state next, Step frame state next →
      next.1.offset = state.1.offset ∧ next.1.y = state.1.y + 1) := by
  intro frame first raster
  have decoded : decode data offset rectangle = raster (run frame first.1 first.2) :=
    decode_eq_map data offset rectangle
  refine ⟨fun states chain => ?_, fun state reaches => ?_, ?_, fun state reaches => ?_,
    fun opcode state next takes => ⟨takes.offset_lt, takes.offset_le_length⟩,
    fun state next pass => pass.advances,
    fun opcode state next takes ends none => takes.fills_none ends none,
    fun opcode state next takes empty => ?_, fun narrow state next step => step.of_narrow narrow⟩
  · have rows : remaining frame first = (data.length - offset) + rectangle.height.toNat := by
      change (data.length - offset) + (rectangle.bottom - rectangle.top).toNat = _
      rw [Rectangle.height]
      omega
    exact rows ▸ length_le_of_isChain chain
  · rcases exists_step_or_halts frame state with step | ⟨result, halts⟩
    · exact .inl step
    · refine .inr ⟨result, halts, ?_⟩
      rw [decoded, reaches.run_eq, halts.run_eq]
  · obtain ⟨last, reaches, halts⟩ := exists_halt frame first
    exact ⟨last, _, reaches, halts, decoded⟩
  · obtain ⟨head, passes, row⟩ := reaches.exists_rowPasses
    exact ⟨head, atRow_of_rowPasses (atRow_start frame offset) passes, passes, row⟩
  · have known : Instruction.ofByte opcode = .run 0 0 ∨ Instruction.ofByte opcode = .skip 0 := by
      simp only [List.mem_cons, List.not_mem_nil, or_false] at empty
      rcases empty with rfl | rfl | rfl
      · exact .inl (by decide)
      · exact .inl (by decide)
      · exact .inr (by decide)
    obtain ⟨later, same⟩ := eq_of_execute_empty known takes.executed
    exact Prod.ext later same

end HyperCard
