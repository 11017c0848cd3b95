import HyperCard.Proofs.Picture.Decoding
import Mathlib.Logic.Relation

/-!
# Steps of the decoder

A run of the decoder is a chain of steps. In each of them an instruction is executed, or a row that
is long enough is combined. What an instruction does falls into two parts: the words that it writes,
and where it leads, which does not depend on the words. A run follows its steps until there is none,
and the state that it comes to decides its result.
-/
namespace HyperCard.Decoder

variable {frame : Frame} {instruction : Instruction} {progress later : Progress}
  {words filled : Words}

/-- The words after an instruction. -/
def written (frame : Frame) (instruction : Instruction) (progress : Progress) (words : Words) :
    Except BitmapError Words :=
  match instruction with
  | .run zeros count =>
    writeRun frame progress (8 * (zeros + count)) count progress.offset (progress.x + 8 * zeros)
      words
  | .copiedRows => copyRows frame progress frame.wordsPerRow progress.offset progress.rowStart words
  | .blackRows =>
    fillRows frame progress (fun _ _ _ => .ok 0xFFFFFFFF) progress.repetitions progress.y
      progress.rowStart words
  | .byteRows => do
    let byte ← frame.data.byte progress.offset
    fillRows frame { progress.remember byte with offset := progress.offset + 1 }
      (fun _ _ _ => .ok (replicate byte)) progress.repetitions progress.y progress.rowStart words
  | .rememberedRows =>
    fillRows frame progress (fun y _ _ => .ok (replicate (progress.remembered y)))
      progress.repetitions progress.y progress.rowStart words
  | .rowsAbove distance =>
    fillRows frame progress (fun _ => wordAbove progress (distance * frame.wordsPerRow))
      progress.repetitions progress.y progress.rowStart words
  | .skip _ | .whiteRows | .combine _ _ | .repeatNext _ | .unknown => .ok words

/-- Where an instruction leads. -/
def after (frame : Frame) (instruction : Instruction) (progress : Progress) : Progress :=
  match instruction with
  | .run zeros count =>
    { progress.advancePixels (8 * (zeros + count)) with offset := progress.offset + count }
  | .skip units => progress.advancePixels (128 * units)
  | .copiedRows =>
    { progress.advanceRows frame.wordsPerRow progress.repetitions with
      offset := progress.offset + 4 * frame.wordsPerRow }
  | .byteRows =>
    match frame.data.byte progress.offset with
    | .ok byte =>
      { progress.remember byte with offset := progress.offset + 1 }.advanceRows frame.wordsPerRow
        progress.repetitions
    | .error _ => progress
  | .whiteRows | .blackRows | .rememberedRows | .rowsAbove _ =>
    progress.advanceRows frame.wordsPerRow progress.repetitions
  | .combine dx dy => { progress with dx, dy }
  | .repeatNext count => { progress with repetitions := count }
  | .unknown => progress

/-- Filling whole rows leads to the row after them. -/
theorem finishRows_eq (word : Int → Words → Nat → Except BitmapError UInt32) :
    finishRows frame progress word words =
      (·, progress.advanceRows frame.wordsPerRow progress.repetitions) <$>
        fillRows frame progress word progress.repetitions progress.y progress.rowStart words := by
  unfold finishRows
  cases fillRows frame progress word progress.repetitions progress.y progress.rowStart words <;> rfl

/-- An instruction writes words and leads on. -/
theorem execute_eq : execute frame instruction progress words =
    (·, after frame instruction progress) <$> written frame instruction progress words := by
  cases instruction with
  | run zeros count =>
    simp only [execute, written, after]
    cases writeRun frame progress (8 * (zeros + count)) count progress.offset
      (progress.x + 8 * zeros) words <;> rfl
  | copiedRows =>
    simp only [execute, written, after]
    cases copyRows frame progress frame.wordsPerRow progress.offset progress.rowStart words <;> rfl
  | byteRows =>
    simp only [execute, written, after]
    cases frame.data.byte progress.offset with
    | error violation => rfl
    | ok byte => exact finishRows_eq _
  | blackRows => exact finishRows_eq _
  | rememberedRows => exact finishRows_eq _
  | rowsAbove distance => exact finishRows_eq _
  | skip _ | whiteRows | combine _ _ | repeatNext _ | unknown => rfl

/-- What an instruction that succeeds has written, and where it has led. -/
theorem execute_ok
    (executed : execute frame instruction progress words = .ok (filled, later)) :
    written frame instruction progress words = .ok filled ∧
      later = after frame instruction progress := by
  rw [execute_eq] at executed
  cases result : written frame instruction progress words with
  | error error =>
    rw [result] at executed
    cases executed
  | ok words =>
    rw [result] at executed
    cases executed
    exact ⟨rfl, rfl⟩

/-- Rows of one byte take it from the stream and remember it. -/
theorem exists_of_byteRows (done : written frame .byteRows progress words = .ok filled) :
    ∃ byte, frame.data.byte progress.offset = .ok byte ∧
      fillRows frame { progress.remember byte with offset := progress.offset + 1 }
        (fun _ _ _ => .ok (replicate byte)) progress.repetitions progress.y progress.rowStart
        words = .ok filled ∧
      after frame .byteRows progress =
        { progress.remember byte with offset := progress.offset + 1 }.advanceRows
          frame.wordsPerRow progress.repetitions := by
  obtain ⟨byte, found, rows⟩ := exists_of_read done
  have found : frame.data.byte progress.offset = .ok byte := found
  refine ⟨byte, found, rows, ?_⟩
  rw [after, found]

section Loops

variable {count offset stride x : Nat} {byte : UInt8}

/-- Copies of a byte are drawn one after the other. -/
theorem exists_of_writeCopies? {rowStart copies : Nat}
    (done : writeCopies? rowStart stride byte (copies + 1) x words = some filled) :
    ∃ next, writeByte? words rowStart x byte = some next ∧
      writeCopies? rowStart stride byte copies (x + stride) next = some filled := by
  rw [writeCopies?] at done
  cases here : writeByte? words rowStart x byte with
  | none =>
    rw [here] at done
    cases done
  | some next =>
    rw [here] at done
    exact ⟨next, rfl, done⟩

/-- The bytes of a run are drawn one after the other, each with its copies. -/
theorem exists_of_writeRun
    (done : writeRun frame progress stride (count + 1) offset x words = .ok filled) :
    ∃ byte next, frame.data.byte offset = .ok byte ∧
      writeCopies? progress.rowStart stride byte progress.repetitions x words = some next ∧
      writeRun frame progress stride count (offset + 1) (x + 8) next = .ok filled := by
  rw [writeRun] at done
  obtain ⟨byte, found, done⟩ := exists_of_read done
  dsimp only at done
  cases here : writeCopies? progress.rowStart stride byte progress.repetitions x words with
  | none =>
    rw [here] at done
    cases done
  | some next =>
    rw [here] at done
    exact ⟨byte, next, found, here, done⟩

/-- Rows are copied column after column. -/
theorem exists_of_copyRows {columns index : Nat}
    (done : copyRows frame progress (columns + 1) offset index words = .ok filled) :
    ∃ word next, frame.data.unsigned 4 offset = .ok word ∧
      setColumn? frame.wordsPerRow (UInt32.ofNat word) progress.repetitions index words =
        some next ∧
      copyRows frame progress columns (offset + 4) (index + 1) next = .ok filled := by
  rw [copyRows] at done
  obtain ⟨word, found, done⟩ := exists_of_read done
  dsimp only at done
  cases here : setColumn? frame.wordsPerRow (UInt32.ofNat word) progress.repetitions index words
    with
  | none =>
    rw [here] at done
    cases done
  | some next =>
    rw [here] at done
    exact ⟨word, next, found, here, done⟩

end Loops

/-- How far decoding has come, and the words so far. -/
abbrev State := Progress × Words

/-- The byte of an instruction is taken from the stream. -/
def Progress.taking (progress : Progress) (opcode : UInt8) : Progress :=
  { progress with offset := progress.offset + 1, opcode, opcodeOffset := progress.offset }

/-- One step of the decoder. -/
inductive Step (frame : Frame) : State → State → Prop
  /-- A row that is not long enough takes an instruction. -/
  | instruction {progress later : Progress} {words filled : Words} {opcode : UInt8}
      (unfinished : progress.y < frame.bottom) (short : progress.x < 32 * frame.wordsPerRow)
      (found : frame.data.byte progress.offset = .ok opcode)
      (known : Instruction.ofByte opcode ≠ .unknown)
      (executed : execute frame (Instruction.ofByte opcode) (progress.taking opcode) words =
        .ok (filled, later)) :
      Step frame (progress, words) (later, filled)
  /-- A row that is long enough is combined. -/
  | row {progress : Progress} {words filled : Words} (unfinished : progress.y < frame.bottom)
      (long : 32 * frame.wordsPerRow ≤ progress.x)
      (combined : combineRow frame progress words = .ok filled) :
      Step frame (progress, words) (progress.advanceRows frame.wordsPerRow 1, filled)

/-- The result of a state that has no next one. -/
inductive Halts (frame : Frame) : State → Except BitmapError (Words × Outcome) → Prop
  /-- The last row is finished. -/
  | complete {progress : Progress} {words : Words} (finished : frame.bottom ≤ progress.y) :
      Halts frame (progress, words) (.ok (words, .complete))
  /-- The next byte is no instruction. -/
  | truncated {progress : Progress} {words : Words} {opcode : UInt8}
      (unfinished : progress.y < frame.bottom) (short : progress.x < 32 * frame.wordsPerRow)
      (found : frame.data.byte progress.offset = .ok opcode)
      (unknown : Instruction.ofByte opcode = .unknown) :
      Halts frame (progress, words)
        (.ok (words, .truncated (progress.y - frame.top).toNat opcode progress.offset))
  /-- There is no next byte. -/
  | exhausted {progress : Progress} {words : Words} {violation : ReadError}
      (unfinished : progress.y < frame.bottom) (short : progress.x < 32 * frame.wordsPerRow)
      (missing : frame.data.byte progress.offset = .error violation) :
      Halts frame (progress, words) (.error (.bounds violation))
  /-- The instruction fails. -/
  | failed {progress : Progress} {words : Words} {opcode : UInt8} {error : BitmapError}
      (unfinished : progress.y < frame.bottom) (short : progress.x < 32 * frame.wordsPerRow)
      (found : frame.data.byte progress.offset = .ok opcode)
      (known : Instruction.ofByte opcode ≠ .unknown)
      (executed : execute frame (Instruction.ofByte opcode) (progress.taking opcode) words =
        .error error) :
      Halts frame (progress, words) (.error error)
  /-- The row cannot be combined. -/
  | uncombined {progress : Progress} {words : Words} {error : BitmapError}
      (unfinished : progress.y < frame.bottom) (long : 32 * frame.wordsPerRow ≤ progress.x)
      (combined : combineRow frame progress words = .error error) :
      Halts frame (progress, words) (.error error)

/-- Whether steps lead from one state to another. -/
abbrev Reaches (frame : Frame) : State → State → Prop := Relation.ReflTransGen (Step frame)

section Run

variable {state next last : State} {result : Except BitmapError (Words × Outcome)}

/-- A run goes on after each step. -/
theorem Step.run_eq (step : Step frame state next) :
    run frame state.1 state.2 = run frame next.1 next.2 := by
  cases step with
  | instruction unfinished short found known executed =>
    exact run_instruction unfinished short found known executed
  | row unfinished long combined => exact run_row unfinished long combined

/-- A run ends where there is no next step. -/
theorem Halts.run_eq (halts : Halts frame state result) :
    run frame state.1 state.2 = result := by
  cases halts with
  | complete finished => rw [run, dif_neg (Int.not_lt.mpr finished)]
  | truncated unfinished short found unknown =>
    rw [run_of_byte unfinished short found, if_pos unknown]
  | @exhausted progress words violation unfinished short missing =>
    by_cases within : progress.offset < frame.data.length
    · rw [Window.byte, dif_pos within] at missing
      cases missing
    · rw [Window.byte, dif_neg within] at missing
      cases missing
      rw [run, dif_pos unfinished, if_pos short, dif_neg within]
  | @failed progress words opcode error unfinished short found known executed =>
    have failed : execute frame (Instruction.ofByte opcode) { progress with
      offset := progress.offset + 1, opcode, opcodeOffset := progress.offset } words =
        .error error := executed
    rw [run_of_byte unfinished short found, if_neg known, failed]
    rfl
  | uncombined unfinished long combined =>
    rw [run_of_long unfinished long, combined]
    rfl

/-- A run gives from every later state what it gives from the first one. -/
theorem Reaches.run_eq (reaches : Reaches frame state last) :
    run frame state.1 state.2 = run frame last.1 last.2 := by
  induction reaches with
  | refl => rfl
  | tail _ step ih => exact ih.trans step.run_eq

/-- Every state has a next one or ends the run. -/
theorem exists_step_or_halts (frame : Frame) (state : State) :
    (∃ next, Step frame state next) ∨ ∃ result, Halts frame state result := by
  obtain ⟨progress, words⟩ := state
  by_cases unfinished : progress.y < frame.bottom
  · by_cases short : progress.x < 32 * frame.wordsPerRow
    · cases found : frame.data.byte progress.offset with
      | error violation => exact .inr ⟨_, .exhausted unfinished short found⟩
      | ok opcode =>
        by_cases known : Instruction.ofByte opcode = .unknown
        · exact .inr ⟨_, .truncated unfinished short found known⟩
        · cases executed : execute frame (Instruction.ofByte opcode) (progress.taking opcode) words
            with
          | error error => exact .inr ⟨_, .failed unfinished short found known executed⟩
          | ok result => exact .inl ⟨_, .instruction unfinished short found known executed⟩
    · have long := Nat.not_lt.mp short
      cases combined : combineRow frame progress words with
      | error error => exact .inr ⟨_, .uncombined unfinished long combined⟩
      | ok filled => exact .inl ⟨_, .row unfinished long combined⟩
  · exact .inr ⟨_, .complete (Int.not_lt.mp unfinished)⟩

/-- A state has at most one next one. -/
theorem Step.unique {also : State} (step : Step frame state next) (other : Step frame state also) :
    next = also := by
  cases step with
  | instruction _ short found _ executed =>
    cases other with
    | instruction _ _ same _ executedAlso =>
      cases found.symm.trans same
      cases executed.symm.trans executedAlso
      rfl
    | row _ long _ => exact absurd short (Nat.not_lt.mpr long)
  | row _ long combined =>
    cases other with
    | instruction _ short _ _ _ => exact absurd short (Nat.not_lt.mpr long)
    | row _ _ combinedAlso =>
      cases combined.symm.trans combinedAlso
      rfl

/-- A state that ends the run has no next one. -/
theorem Halts.not_step (halts : Halts frame state result) (next : State) :
    ¬Step frame state next := by
  intro step
  cases step with
  | instruction unfinished short found known executed =>
    cases halts with
    | complete finished => omega
    | truncated _ _ same unknown =>
      cases found.symm.trans same
      exact known unknown
    | exhausted _ _ missing => cases found.symm.trans missing
    | failed _ _ same _ failed =>
      cases found.symm.trans same
      cases executed.symm.trans failed
    | uncombined _ long _ => omega
  | row unfinished long combined =>
    cases halts with
    | complete finished => omega
    | truncated _ short _ _ => omega
    | exhausted _ short _ => omega
    | failed _ short _ _ _ => omega
    | uncombined _ _ failed => cases combined.symm.trans failed

/-- Every state of a run comes before the one that ends it. -/
theorem Reaches.before_end {middle : State} (reaches : Reaches frame state middle)
    (ends : Reaches frame state last) (halts : Halts frame last result) :
    Reaches frame middle last := by
  have unique : Relator.RightUnique (Step frame) := fun _ _ _ step other => step.unique other
  rcases reaches.total_of_right_unique unique ends with onward | back
  · exact onward
  · cases back using Relation.ReflTransGen.head_induction_on with
    | refl => exact .refl
    | head step _ => exact absurd step (halts.not_step _)

/-- The bytes and the rows that remain. -/
def remaining (frame : Frame) (state : State) : Nat :=
  (frame.data.length - state.1.offset) + (frame.bottom - state.1.y).toNat

/-- Each step uses up a byte or a row. -/
theorem Step.remaining_lt (step : Step frame state next) :
    remaining frame next < remaining frame state := by
  unfold remaining
  cases step with
  | instruction unfinished short found known executed =>
    have within := (Window.byte_eq_ok found).1
    have later := le_of_execute executed
    dsimp only [Progress.taking] at later ⊢
    omega
  | row unfinished long combined =>
    dsimp only [Progress.advanceRows]
    omega

/-- A run follows its steps to a state that decides its result. -/
theorem exists_halt (frame : Frame) (state : State) :
    ∃ last, Reaches frame state last ∧ Halts frame last (run frame state.1 state.2) := by
  induction bound : remaining frame state using Nat.strong_induction_on generalizing state with
  | _ bound ih =>
    rcases exists_step_or_halts frame state with ⟨next, step⟩ | ⟨result, halts⟩
    · obtain ⟨last, reaches, halts⟩ := ih _ (bound ▸ step.remaining_lt) next rfl
      rw [← step.run_eq] at halts
      exact ⟨last, .head step reaches, halts⟩
    · rw [halts.run_eq]
      exact ⟨state, .refl, halts⟩

end Run

/-- The state before anything is decoded. -/
def Frame.start (frame : Frame) (offset : Nat) : State := (.initial offset frame.top, frame.blank)

/-- The raster of the words of a frame. -/
def Frame.raster (frame : Frame) (words : Words) : Raster :=
  ⟨frame.wordsPerRow, frame.extent.height, words⟩

end HyperCard.Decoder

namespace HyperCard

namespace Raster

/-- What is decoded is what there is where the steps end. -/
theorem exists_halt_of_decode {data : Window} {offset : Nat} {rectangle : Rectangle}
    {raster : Raster} {outcome : Outcome}
    (decoded : decode data offset rectangle = .ok (raster, outcome)) :
    ∃ last, Decoder.Reaches (frame data rectangle) ((frame data rectangle).start offset) last ∧
      Decoder.Halts (frame data rectangle) last (.ok (last.2, outcome)) ∧
      raster = (frame data rectangle).raster last.2 := by
  obtain ⟨last, reaches, halts⟩ :=
    Decoder.exists_halt (frame data rectangle) ((frame data rectangle).start offset)
  cases ran : Decoder.run (frame data rectangle) (.initial offset (frame data rectangle).top)
    (frame data rectangle).blank with
  | error error =>
    rw [decode_eq_map, ran] at decoded
    cases decoded
  | ok ended =>
    cases (decode_eq_of_run ran).symm.trans decoded
    have halts : Decoder.Halts (frame data rectangle) last (.ok ended) := ran ▸ halts
    have same : ended.1 = last.2 := by
      cases halts <;> rfl
    refine ⟨last, reaches, ?_, ?_⟩
    · rw [← same]
      exact halts
    · rw [← same]
      rfl

end Raster
end HyperCard
