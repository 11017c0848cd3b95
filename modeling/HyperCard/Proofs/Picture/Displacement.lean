import HyperCard.Proofs.Bytes.Contents
import HyperCard.Proofs.Picture.Position

/-!
# Moving streams and rectangles

What a stream stands for depends neither on where it stands nor on what stands around it, and a
rectangle may be moved by whole words and by eight rows at a time, since a byte is remembered for
every eighth row. Both are one comparison: each step of a run is a step of the run that is moved,
which ends where the run ends.
-/
namespace HyperCard

/-- The number of bytes that follow an instruction. -/
def Instruction.dataLength (wordsPerRow : Nat) : Instruction → Nat
  | .run _ count => count
  | .copiedRows => 4 * wordsPerRow
  | .byteRows => 1
  | .skip _ | .whiteRows | .blackRows | .rememberedRows | .rowsAbove _ | .combine _ _
  | .repeatNext _ | .unknown => 0

/-- The offset behind the last byte that was read, where decoding has come to an offset. -/
def Outcome.stop (offset : Nat) : Outcome → Nat
  | .complete => offset
  | .truncated _ _ last => last + 1

namespace Decoder

section Reading

variable {frame : Frame} {progress later : Progress} {words filled : Words}
  {instruction : Instruction} {state next last : State}

/-- Bytes that were written stand in the stream. -/
theorem writeRun_le {stride count offset x : Nat} (inside : offset ≤ frame.data.length)
    (done : writeRun frame progress stride count offset x words = .ok filled) :
    offset + count ≤ frame.data.length := by
  induction count generalizing offset x words with
  | zero => exact inside
  | succ count ih =>
    obtain ⟨byte, next, found, _, done⟩ := exists_of_writeRun done
    have within := (Window.byte_eq_ok found).1
    have rest := ih within done
    omega

/-- So do words that were copied. -/
theorem copyRows_le {columns offset index : Nat} (inside : offset ≤ frame.data.length)
    (done : copyRows frame progress columns offset index words = .ok filled) :
    offset + 4 * columns ≤ frame.data.length := by
  induction columns generalizing offset index words with
  | zero => exact inside
  | succ columns ih =>
    obtain ⟨word, next, found, _, done⟩ := exists_of_copyRows done
    have within := Window.le_of_unsigned found
    have rest := ih within done
    omega

/-- An instruction is followed by the next one. -/
theorem offset_of_execute
    (executed : execute frame instruction progress words = .ok (filled, later)) :
    later.offset = progress.offset + instruction.dataLength frame.wordsPerRow := by
  obtain ⟨done, rfl⟩ := execute_ok executed
  cases instruction with
  | byteRows =>
    obtain ⟨byte, _, _, leads⟩ := exists_of_byteRows done
    rw [leads]
    rfl
  | run _ _ | copiedRows | whiteRows | blackRows | rememberedRows | rowsAbove _ | skip _
  | combine _ _ | repeatNext _ | unknown => rfl

/-- What follows an instruction stands in the stream. -/
theorem le_length_of_execute (inside : progress.offset ≤ frame.data.length)
    (executed : execute frame instruction progress words = .ok (filled, later)) :
    later.offset ≤ frame.data.length := by
  rw [offset_of_execute executed]
  have done := (execute_ok executed).1
  cases instruction with
  | run zeros count => exact writeRun_le inside done
  | copiedRows => exact copyRows_le inside done
  | byteRows =>
    obtain ⟨byte, found, _⟩ := exists_of_byteRows done
    exact (Window.byte_eq_ok found).1
  | whiteRows | blackRows | rememberedRows | rowsAbove _ | skip _ | combine _ _ | repeatNext _
  | unknown => exact inside

/-- No step goes back in the stream. -/
theorem Step.offset_le (step : Step frame state next) : state.1.offset ≤ next.1.offset := by
  cases step with
  | instruction _ _ _ _ executed => exact Nat.le_of_succ_le (le_of_execute executed).1
  | row _ _ _ => exact Nat.le_refl _

/-- Steps read nothing behind the stream. -/
theorem Step.offset_le_length (step : Step frame state next) :
    next.1.offset ≤ max state.1.offset frame.data.length := by
  cases step with
  | @instruction progress later words filled opcode _ _ found _ executed =>
    have within : (progress.taking opcode).offset ≤ frame.data.length := (Window.byte_eq_ok found).1
    exact Nat.le_trans (le_length_of_execute within executed) (Nat.le_max_right _ _)
  | row _ _ _ => exact Nat.le_max_left _ _

/-- A run that ends without an error has read the stream up to a place inside it. -/
theorem Halts.stop_bounds {outcome : Outcome} (halts : Halts frame last (.ok (words, outcome))) :
    last.1.offset ≤ outcome.stop last.1.offset ∧
      outcome.stop last.1.offset ≤ max last.1.offset frame.data.length := by
  cases halts with
  | complete _ => exact ⟨Nat.le_refl _, Nat.le_max_left _ _⟩
  | truncated _ _ found _ =>
    exact ⟨Nat.le_succ _, Nat.le_trans (Window.byte_eq_ok found).1 (Nat.le_max_right _ _)⟩

/-- A run goes on in the stream from step to step. -/
theorem Reaches.offset_le (reaches : Reaches frame state last) :
    state.1.offset ≤ last.1.offset := by
  induction reaches with
  | refl => exact Nat.le_refl _
  | tail _ step ih => exact Nat.le_trans ih step.offset_le

/-- It reads nothing behind the stream, if it began inside. -/
theorem Reaches.offset_le_length (reaches : Reaches frame state last) :
    last.1.offset ≤ max state.1.offset frame.data.length := by
  induction reaches with
  | refl => exact Nat.le_max_left _ _
  | tail _ step ih =>
    have further := step.offset_le_length
    omega

end Reading

/-- How a stream is moved, and its rectangle with it. -/
structure Displacement where
  /-- Where the stream begins. -/
  source : Nat
  /-- Where it begins afterwards. -/
  target : Nat
  /-- How far down the rectangle goes, in groups of eight rows. -/
  groups : Int

namespace Displacement

variable (moves : Displacement)

/-- Where an offset goes. -/
def offset (offset : Nat) : Nat := offset - moves.source + moves.target

/-- Where a row goes. -/
def row (y : Int) : Int := y + 8 * moves.groups

/-- Where the decoder goes. -/
def progress (progress : Progress) : Progress :=
  { progress with
    offset := moves.offset progress.offset
    opcodeOffset := moves.offset progress.opcodeOffset
    y := moves.row progress.y }

/-- The same words. -/
def state (state : State) : State := (moves.progress state.1, state.2)

/-- A frame over other data. -/
def frame (frame : Frame) (data : Window) : Frame :=
  { frame with data, top := moves.row frame.top, bottom := moves.row frame.bottom }

/-- An error names another offset. -/
def error : BitmapError → BitmapError
  | .overflow opcode offset words => .overflow opcode (moves.offset offset) words
  | .missingSource opcode offset => .missingSource opcode (moves.offset offset)
  | .bounds violation => .bounds violation

/-- So does an outcome. -/
def outcome : Outcome → Outcome
  | .complete => .complete
  | .truncated rows opcode offset => .truncated rows opcode (moves.offset offset)

/-- The same words with another outcome, or another error. -/
def result (result : Except BitmapError (Words × Outcome)) : Except BitmapError (Words × Outcome) :=
  (result.map fun ended => (ended.1, moves.outcome ended.2)).mapError moves.error

/-- Whether other data have at the new place, up to an offset, what there is at the old one. -/
structure Agrees (data other : Window) (stop : Nat) : Prop where
  /-- Bytes are the same. -/
  byte : ∀ offset, moves.source ≤ offset → offset < stop →
    other.byte (moves.offset offset) = data.byte offset
  /-- So are words. -/
  word : ∀ offset, moves.source ≤ offset → offset + 4 ≤ stop →
    other.unsigned 4 (moves.offset offset) = data.unsigned 4 offset

variable {moves} {frame : Frame} {other : Window} {progress later : Progress}
  {words filled : Words} {instruction : Instruction} {stop : Nat} {state next last : State}

/-- Data that agree up to an offset agree up to earlier ones. -/
theorem Agrees.mono {data : Window} (agrees : moves.Agrees data other stop) {less : Nat}
    (before : less ≤ stop) : moves.Agrees data other less :=
  ⟨fun offset starts within => agrees.byte offset starts (by omega),
    fun offset starts within => agrees.word offset starts (by omega)⟩

/-- Offsets behind the start of the stream keep their distances. -/
theorem offset_add {offset : Nat} (starts : moves.source ≤ offset) (distance : Nat) :
    moves.offset (offset + distance) = moves.offset offset + distance := by
  unfold Displacement.offset
  omega

/-- Bytes of the stream that are the same make the same words. -/
theorem Agrees.of_bytes {data : Window} (fits : stop ≤ max moves.source data.length)
    (same : ∀ offset, moves.source ≤ offset → offset < stop →
      other.byte (moves.offset offset) = data.byte offset) : moves.Agrees data other stop := by
  refine ⟨same, fun offset starts within => ?_⟩
  have inside : offset + 4 ≤ data.length := by omega
  have each : ∀ index < 4,
      other.byte (moves.offset offset + index) = data.byte (offset + index) := by
    intro index less
    rw [← offset_add starts]
    exact same _ (by omega) (by omega)
  have last : data.byte (offset + 3) = .ok _ := dif_pos (by omega)
  have also := (Window.byte_eq_ok ((each 3 (by decide)).trans last)).1
  exact Window.unsigned_congr inside also each

/-- Rows keep their distances. -/
theorem row_add (y : Int) (rows : Int) : moves.row (y + rows) = moves.row y + rows := by
  unfold row
  omega

/-- Rows keep their order. -/
theorem row_lt_row (y limit : Int) : moves.row y < moves.row limit ↔ y < limit := by
  unfold row
  omega

/-- The number of rows between two rows is the same. -/
theorem row_sub_row (y first : Int) : moves.row y - moves.row first = y - first := by
  unfold row
  omega

/-- Rows eight apart share their byte. -/
theorem historySlot_row (y : Int) : historySlot (moves.row y) = historySlot y := by
  have remainder : moves.row y % 8 = y % 8 := by
    unfold row
    omega
  rw [historySlot, historySlot, remainder]

/-- The byte that is remembered for a row is found where the row is moved to. -/
theorem remembered_row (y : Int) :
    (moves.progress progress).remembered (moves.row y) = progress.remembered y := by
  rw [Progress.remembered, Progress.remembered, historySlot_row]
  rfl

/-- A byte is remembered for the row where it is moved to. -/
theorem remember_progress (byte : UInt8) :
    (moves.progress progress).remember byte = moves.progress (progress.remember byte) := by
  have slot : historySlot (moves.progress progress).y = historySlot progress.y :=
    historySlot_row progress.y
  simp only [Progress.remember, slot]
  rfl

section Writing

variable {stride columns index : Nat}

/-- A run of bytes is drawn in the same way, or fails at the same byte. -/
theorem writeRun_moved {count offset x : Nat} (starts : moves.source ≤ offset)
    (agrees : moves.Agrees frame.data other (offset + count)) :
    writeRun (moves.frame frame other) (moves.progress progress) stride count (moves.offset offset)
        x words =
      (writeRun frame progress stride count offset x words).mapError moves.error := by
  induction count generalizing offset x words with
  | zero => rfl
  | succ count ih =>
    have same : (moves.frame frame other).data.byte (moves.offset offset) =
        frame.data.byte offset := agrees.byte offset starts (by omega)
    rw [writeRun, writeRun, same]
    cases frame.data.byte offset with
    | error violation => rfl
    | ok byte =>
      rw [read_bind rfl, read_bind rfl]
      dsimp only [Displacement.progress]
      cases writeCopies? progress.rowStart stride byte progress.repetitions x words with
      | none => rfl
      | some written =>
        have rest := @ih written (offset + 1) (x + 8) (by omega)
          (agrees.mono (Nat.le_of_eq (by omega)))
        rw [offset_add starts] at rest
        exact rest

/-- The words of a row are copied in the same way. -/
theorem copyRows_moved {offset : Nat} (starts : moves.source ≤ offset)
    (agrees : moves.Agrees frame.data other (offset + 4 * columns)) :
    copyRows (moves.frame frame other) (moves.progress progress) columns (moves.offset offset) index
        words =
      (copyRows frame progress columns offset index words).mapError moves.error := by
  induction columns generalizing offset index words with
  | zero => rfl
  | succ columns ih =>
    have same : (moves.frame frame other).data.unsigned 4 (moves.offset offset) =
        frame.data.unsigned 4 offset := agrees.word offset starts (by omega)
    rw [copyRows, copyRows, same]
    cases frame.data.unsigned 4 offset with
    | error violation => rfl
    | ok word =>
      rw [read_bind rfl, read_bind rfl]
      dsimp only [Displacement.progress, Displacement.frame]
      cases setColumn? frame.wordsPerRow (UInt32.ofNat word) progress.repetitions index words with
      | none => rfl
      | some written =>
        have rest := @ih written (index + 1) (offset + 4) (by omega)
          (agrees.mono (Nat.le_of_eq (by omega)))
        rw [offset_add starts] at rest
        exact rest

/-- A row is filled in the same way if each of its words is computed so. -/
theorem fillRow_moved {word moved : Words → Nat → Except BitmapError UInt32}
    (same : ∀ words index, moved words index = (word words index).mapError moves.error) :
    fillRow (moves.progress progress) moved columns index words =
      (fillRow progress word columns index words).mapError moves.error := by
  induction columns generalizing index words with
  | zero => rfl
  | succ columns ih =>
    rw [fillRow, fillRow, same]
    cases word words index with
    | error error => rfl
    | ok value =>
      dsimp only [bind, Except.bind, Except.mapError]
      cases setWord? words index value with
      | none => rfl
      | some written => exact ih

/-- So are several rows, where each word may depend on the row. -/
theorem fillRows_moved {word moved : Int → Words → Nat → Except BitmapError UInt32}
    (same : ∀ y words index,
      moved (moves.row y) words index = (word y words index).mapError moves.error)
    {rows : Nat} {y : Int} :
    fillRows (moves.frame frame other) (moves.progress progress) moved rows (moves.row y) index
        words =
      (fillRows frame progress word rows y index words).mapError moves.error := by
  induction rows generalizing y index words with
  | zero => rfl
  | succ rows ih =>
    rw [fillRows, fillRows, fillRow_moved (same y)]
    show ((fillRow progress (word y) frame.wordsPerRow index words).mapError moves.error >>= _) = _
    cases fillRow progress (word y) frame.wordsPerRow index words with
    | error error => rfl
    | ok written =>
      have rest := @ih written (index + frame.wordsPerRow) (y + 1)
      rw [row_add] at rest
      exact rest

/-- A word above is found in the same way, or missing in both runs. -/
theorem wordAbove_moved (distance : Nat) (words : Words) (index : Nat) :
    wordAbove (moves.progress progress) distance words index =
      (wordAbove progress distance words index).mapError moves.error := by
  unfold wordAbove
  split
  · rfl
  · split <;> rfl

end Writing

/-- An instruction writes the same words, or fails in the same way. -/
theorem written_moved (starts : moves.source ≤ progress.offset)
    (agrees : moves.Agrees frame.data other
      (progress.offset + instruction.dataLength frame.wordsPerRow)) :
    written (moves.frame frame other) instruction (moves.progress progress) words =
      (written frame instruction progress words).mapError moves.error := by
  cases instruction with
  | run zeros count => exact writeRun_moved starts agrees
  | copiedRows => exact copyRows_moved starts agrees
  | blackRows => exact fillRows_moved fun _ _ _ => rfl
  | byteRows =>
    have same : (moves.frame frame other).data.byte (moves.progress progress).offset =
        frame.data.byte progress.offset := agrees.byte _ starts (Nat.lt_succ_self _)
    rw [written, written, same]
    cases frame.data.byte progress.offset with
    | error violation => rfl
    | ok byte =>
      rw [read_bind rfl, read_bind rfl, remember_progress]
      have filled := @fillRows_moved moves frame other
        { progress.remember byte with offset := progress.offset + 1 } words progress.rowStart
        (fun _ _ _ => .ok (replicate byte)) (fun _ _ _ => .ok (replicate byte)) (fun _ _ _ => rfl)
        progress.repetitions progress.y
      unfold Displacement.progress at filled ⊢
      dsimp only [Progress.remember] at filled ⊢
      rw [offset_add starts] at filled
      exact filled
  | rememberedRows =>
    refine fillRows_moved fun y _ _ => ?_
    rw [remembered_row]
    rfl
  | rowsAbove distance => exact fillRows_moved fun _ words index => wordAbove_moved _ words index
  | skip _ | whiteRows | combine _ _ | repeatNext _ | unknown => rfl

/-- Whole rows lead as far down. -/
theorem advanceRows_moved (width rows : Nat) :
    (moves.progress progress).advanceRows width rows =
      moves.progress (progress.advanceRows width rows) := by
  have down : moves.row progress.y + rows = moves.row (progress.y + rows) := (row_add _ _).symm
  simp only [Progress.advanceRows, Displacement.progress, down]

/-- An instruction leads to the moved place. -/
theorem after_moved (starts : moves.source ≤ progress.offset)
    (agrees : moves.Agrees frame.data other
      (progress.offset + instruction.dataLength frame.wordsPerRow)) :
    after (moves.frame frame other) instruction (moves.progress progress) =
      moves.progress (after frame instruction progress) := by
  cases instruction with
  | run zeros count =>
    unfold after
    dsimp only [Progress.advancePixels, Displacement.progress]
    rw [offset_add starts]
  | copiedRows =>
    unfold after
    rw [advanceRows_moved]
    dsimp only [Progress.advanceRows, Displacement.progress, Displacement.frame]
    rw [offset_add starts]
  | byteRows =>
    have same : (moves.frame frame other).data.byte (moves.progress progress).offset =
        frame.data.byte progress.offset := agrees.byte _ starts (Nat.lt_succ_self _)
    unfold after
    rw [same]
    cases frame.data.byte progress.offset with
    | error violation => rfl
    | ok byte =>
      dsimp only
      rw [remember_progress, ← advanceRows_moved]
      dsimp only [Progress.remember, Displacement.progress, Displacement.frame]
      rw [offset_add starts]
  | whiteRows | blackRows | rememberedRows | rowsAbove _ => exact advanceRows_moved _ _
  | skip _ | combine _ _ | repeatNext _ | unknown => rfl

/-- An instruction does the same at the moved place. -/
theorem execute_moved (starts : moves.source ≤ progress.offset)
    (agrees : moves.Agrees frame.data other
      (progress.offset + instruction.dataLength frame.wordsPerRow)) :
    execute (moves.frame frame other) instruction (moves.progress progress) words =
      ((execute frame instruction progress words).map fun done =>
        (done.1, moves.progress done.2)).mapError moves.error := by
  rw [execute_eq, execute_eq, written_moved starts agrees, after_moved starts agrees]
  cases written frame instruction progress words <;> rfl

/-- A row combined with itself is moved. -/
theorem combineWithSelf_moved :
    combineWithSelf (moves.frame frame other) (moves.progress progress) words =
      (combineWithSelf frame progress words).mapError moves.error := by
  have same :
      slice? words (moves.progress progress).rowStart (moves.frame frame other).wordsPerRow =
        slice? words progress.rowStart frame.wordsPerRow := rfl
  by_cases none : progress.dx = 0
  · have moved : (moves.progress progress).dx = 0 := none
    rw [combineWithSelf, combineWithSelf, if_pos none, if_pos moved]
    rfl
  · have moved : (moves.progress progress).dx ≠ 0 := none
    rw [combineWithSelf, combineWithSelf, if_neg none, if_neg moved, same]
    cases slice? words progress.rowStart frame.wordsPerRow <;> rfl

/-- The row above that a row is combined with is moved with it. -/
theorem combineWithAbove_moved :
    combineWithAbove (moves.frame frame other) (moves.progress progress) words =
      (combineWithAbove frame progress words).mapError moves.error := by
  by_cases none : progress.dy = 0 ∨ progress.y - frame.top < progress.dy
  · have moved : (moves.progress progress).dy = 0 ∨
        (moves.progress progress).y - (moves.frame frame other).top <
          (moves.progress progress).dy := by
      show progress.dy = 0 ∨ moves.row progress.y - moves.row frame.top < progress.dy
      rwa [row_sub_row]
    unfold combineWithAbove
    rw [if_pos none, if_pos moved]
    rfl
  · have moved : ¬((moves.progress progress).dy = 0 ∨
        (moves.progress progress).y - (moves.frame frame other).top <
          (moves.progress progress).dy) := by
      show ¬(progress.dy = 0 ∨ moves.row progress.y - moves.row frame.top < progress.dy)
      rwa [row_sub_row]
    unfold combineWithAbove
    rw [if_neg none, if_neg moved]
    by_cases missing : progress.rowStart < progress.dy * frame.wordsPerRow
    · have also : (moves.progress progress).rowStart <
          (moves.progress progress).dy * (moves.frame frame other).wordsPerRow := missing
      rw [if_pos missing, if_pos also]
      rfl
    · have also : ¬(moves.progress progress).rowStart <
          (moves.progress progress).dy * (moves.frame frame other).wordsPerRow := missing
      rw [if_neg missing, if_neg also]
      dsimp only [Displacement.progress, Displacement.frame]
      cases slice? words (progress.rowStart - progress.dy * frame.wordsPerRow) frame.wordsPerRow
        with
      | none => rfl
      | some above => cases slice? words progress.rowStart frame.wordsPerRow <;> rfl

/-- A row is combined in the same way. -/
theorem combineRow_moved :
    combineRow (moves.frame frame other) (moves.progress progress) words =
      (combineRow frame progress words).mapError moves.error := by
  rw [combineRow, combineRow, combineWithSelf_moved]
  cases combineWithSelf frame progress words with
  | error error => rfl
  | ok next => exact combineWithAbove_moved

/-- A frame that is moved has as many rows. -/
theorem height_frame : (moves.frame frame other).extent.height = frame.extent.height :=
  congrArg Int.toNat (row_sub_row _ _)

/-- It has as many words before anything is decoded. -/
theorem blank_frame : (moves.frame frame other).blank = frame.blank := by
  rw [Frame.blank, Frame.blank, height_frame]
  rfl

/-- The byte of an instruction is taken at the moved place. -/
theorem taking_moved (starts : moves.source ≤ progress.offset) (opcode : UInt8) :
    (moves.progress progress).taking opcode = moves.progress (progress.taking opcode) := by
  simp only [Progress.taking, Displacement.progress, offset_add starts]

section Runs

variable {result : Except BitmapError (Words × Outcome)}

/-- Each step is one of the run that is moved. -/
theorem step_moved (starts : moves.source ≤ state.1.offset)
    (agrees : moves.Agrees frame.data other next.1.offset) (step : Step frame state next) :
    Step (moves.frame frame other) (moves.state state) (moves.state next) := by
  cases step with
  | @instruction progress later words filled opcode unfinished short found known executed =>
    have behind := offset_of_execute executed
    dsimp only [Progress.taking] at starts agrees behind
    have taken : moves.source ≤ (progress.taking opcode).offset := Nat.le_succ_of_le starts
    have moved := @execute_moved moves frame other (progress.taking opcode) words
      (Instruction.ofByte opcode) taken (agrees.mono (Nat.le_of_eq behind.symm))
    rw [executed, ← taking_moved starts] at moved
    exact .instruction ((row_lt_row _ _).mpr unfinished) short
      ((agrees.byte _ starts (by omega)).trans found) known moved
  | @row progress words filled unfinished long combined =>
    have moved := @combineRow_moved moves frame other progress words
    rw [combined] at moved
    have stepped := @Step.row (moves.frame frame other) (moves.progress progress) words filled
      ((row_lt_row _ _).mpr unfinished) long moved
    rw [advanceRows_moved] at stepped
    exact stepped

/-- A run that is moved passes through the moved states. The induction is on its steps. -/
theorem reaches_moved (starts : moves.source ≤ state.1.offset)
    (agrees : moves.Agrees frame.data other last.1.offset) (reaches : Reaches frame state last) :
    Reaches (moves.frame frame other) (moves.state state) (moves.state last) := by
  induction reaches with
  | refl => exact .refl
  | tail reaches step ih =>
    have later := step.offset_le
    have before := Reaches.offset_le reaches
    exact .tail (ih (agrees.mono later)) (step_moved (Nat.le_trans starts before) agrees step)

variable (moves) in
/-- Whether other data have at the new place what a run from a state on looks at. A run that fails
may have looked at everything. -/
def AgreesFor (data other : Window) (progress : Progress) :
    Except BitmapError (Words × Outcome) → Prop
  | .ok (_, outcome) => moves.Agrees data other (outcome.stop progress.offset)
  | .error _ => ∀ stop, moves.Agrees data other stop

/-- Data that agree everywhere agree as far as any run looks. -/
theorem AgreesFor.of_all {data : Window} (agrees : ∀ stop, moves.Agrees data other stop) :
    moves.AgreesFor data other progress result := by
  cases result with
  | error error => exact agrees
  | ok ended => exact agrees _

/-- A stream that stays has the same results. -/
theorem result_stay (groups : Int) : (Displacement.mk 0 0 groups).result result = result := by
  rcases result with (_ | _ | _) | ⟨words, _ | _⟩ <;> rfl

/-- A run that is moved ends where the run ends. -/
theorem halts_moved (starts : moves.source ≤ last.1.offset)
    (agrees : moves.AgreesFor frame.data other last.1 result) (halts : Halts frame last result) :
    Halts (moves.frame frame other) (moves.state last) (moves.result result) := by
  cases halts with
  | complete finished => exact .complete (Int.not_lt.mp fun less =>
      Int.not_lt.mpr finished ((row_lt_row _ _).mp less))
  | @truncated progress words opcode unfinished short found unknown =>
    have same := agrees.byte progress.offset starts (Nat.lt_succ_self _)
    have halted := @Halts.truncated (moves.frame frame other) (moves.progress progress) words opcode
      ((row_lt_row _ _).mpr unfinished) short (same.trans found) unknown
    dsimp only [Displacement.progress, Displacement.frame] at halted
    rw [row_sub_row] at halted
    exact halted
  | @exhausted progress words violation unfinished short missing =>
    have same := (agrees (progress.offset + 1)).byte progress.offset starts (Nat.lt_succ_self _)
    exact .exhausted ((row_lt_row _ _).mpr unfinished) short (same.trans missing)
  | @failed progress words opcode error unfinished short found known executed =>
    have same := (agrees (progress.offset + 1)).byte progress.offset starts (Nat.lt_succ_self _)
    have taken : moves.source ≤ (progress.taking opcode).offset := Nat.le_succ_of_le starts
    have moved := @execute_moved moves frame other (progress.taking opcode) words
      (Instruction.ofByte opcode) taken (agrees _)
    rw [executed, ← taking_moved starts] at moved
    exact .failed ((row_lt_row _ _).mpr unfinished) short (same.trans found) known moved
  | @uncombined progress words error unfinished long combined =>
    have moved := @combineRow_moved moves frame other progress words
    rw [combined] at moved
    exact .uncombined ((row_lt_row _ _).mpr unfinished) long moved

/-- A run comes to the same result when it is moved. -/
theorem run_moved (starts : moves.source ≤ state.1.offset) (reaches : Reaches frame state last)
    (halts : Halts frame last result) (agrees : moves.AgreesFor frame.data other last.1 result) :
    run (moves.frame frame other) (moves.progress state.1) state.2 = moves.result result := by
  have near : moves.Agrees frame.data other last.1.offset := by
    cases halts with
    | complete _ => exact agrees
    | truncated _ _ _ _ => exact agrees.mono (Nat.le_succ _)
    | exhausted _ _ _ | failed _ _ _ _ _ | uncombined _ _ _ => exact agrees _
  have later := Nat.le_trans starts (Reaches.offset_le reaches)
  exact (Reaches.run_eq (reaches_moved starts near reaches)).trans
    (halts_moved later agrees halts).run_eq

end Runs

end Displacement
end Decoder

/-- A rectangle so many groups of eight rows further down and so many words further right. -/
def Rectangle.moved (rectangle : Rectangle) (groups columns : Int) : Rectangle where
  top := rectangle.top + 8 * groups
  left := rectangle.left + 32 * columns
  bottom := rectangle.bottom + 8 * groups
  right := rectangle.right + 32 * columns

namespace Raster

open Decoder (Displacement Reaches Halts)

/-- Whether decoding ends without an error when it has read the bytes up to a place. -/
def ReadsUpTo (data : Window) (offset : Nat) (rectangle : Rectangle) (stop : Nat) : Prop :=
  ∃ last words outcome,
    Reaches (frame data rectangle) ((frame data rectangle).start offset) last ∧
      Halts (frame data rectangle) last (.ok (words, outcome)) ∧
      stop = outcome.stop last.1.offset

section Frames

variable (data other : Window) (rectangle : Rectangle) (groups columns : Int) (offset target : Nat)

/-- The frame of a rectangle that is moved has rows as wide as before. -/
theorem frame_moved :
    frame data (rectangle.moved groups columns) =
      (Displacement.mk 0 0 groups).frame (frame data rectangle) data := by
  have width : ((rectangle.moved groups columns).alignedToWords.width / 32).toNat =
      (rectangle.alignedToWords.width / 32).toNat := by
    unfold Rectangle.moved Rectangle.alignedToWords Rectangle.width
    dsimp only
    omega
  show Decoder.Frame.mk _ _ _ ((rectangle.moved groups columns).alignedToWords.width / 32).toNat = _
  rw [width]
  rfl

/-- A frame over other data has the same rows. -/
theorem frame_other :
    frame other rectangle =
      (Displacement.mk offset target 0).frame (frame data rectangle) other := by
  have stays (y : Int) : (Displacement.mk offset target 0).row y = y := Int.add_zero y
  simp only [Displacement.frame, stays]
  rfl

/-- Decoding begins where the stream begins. -/
theorem progress_initial (top : Int) :
    (Displacement.mk offset target groups).progress (.initial offset top) =
      .initial target ((Displacement.mk offset target groups).row top) := by
  have first : (Displacement.mk offset target groups).offset offset = target := by
    rw [Displacement.offset, Nat.sub_self, Nat.zero_add]
  simp only [Displacement.progress, Decoder.Progress.initial, first]

/-- Over other data, decoding begins in the same state. -/
theorem state_start :
    (Displacement.mk offset offset 0).state ((frame data rectangle).start offset) =
      (frame other rectangle).start offset := by
  have top : (Displacement.mk offset offset 0).row (frame data rectangle).top =
      (frame data rectangle).top := Int.add_zero _
  rw [Decoder.Frame.start, Displacement.state, progress_initial, top]
  rfl

end Frames

section Decoding

variable {data : Window} {offset : Nat} {rectangle : Rectangle} {raster : Raster}
  {outcome : Outcome} {stop : Nat}

/-- The place that decoding reads up to lies in the stream. -/
theorem ReadsUpTo.bounds (reads : ReadsUpTo data offset rectangle stop) :
    offset ≤ stop ∧ stop ≤ max offset data.length := by
  obtain ⟨last, words, outcome, reaches, halts, rfl⟩ := reads
  have within := halts.stop_bounds
  have after : offset ≤ last.1.offset := Decoder.Reaches.offset_le reaches
  have before : last.1.offset ≤ max offset data.length :=
    Decoder.Reaches.offset_le_length reaches
  have same : (frame data rectangle).data.length = data.length := rfl
  omega

/-- Decoding without an error has read the stream up to some place. -/
theorem exists_readsUpTo (decoded : decode data offset rectangle = .ok (raster, outcome)) :
    ∃ stop, ReadsUpTo data offset rectangle stop ∧ offset ≤ stop ∧
      stop ≤ max offset data.length := by
  obtain ⟨last, reaches, halts, _⟩ := exists_halt_of_decode decoded
  have reads : ReadsUpTo data offset rectangle (outcome.stop last.1.offset) :=
    ⟨last, last.2, outcome, reaches, halts, rfl⟩
  exact ⟨_, reads, reads.bounds⟩

/-- What stands before and behind the bytes that decoding has read does not matter, nor where they
stand. -/
theorem decode_other (decoded : decode data offset rectangle = .ok (raster, outcome))
    (reads : ReadsUpTo data offset rectangle stop) (fits : stop ≤ max offset data.length)
    {other : Window} {target : Nat}
    (same : ∀ place, offset + place < stop →
      other.byte (target + place) = data.byte (offset + place)) :
    decode other target rectangle =
      .ok (raster, (Displacement.mk offset target 0).outcome outcome) := by
  obtain ⟨last, words, ending, reaches, halts, rfl⟩ := reads
  have ran := (Decoder.Reaches.run_eq reaches).trans halts.run_eq
  cases (decode_eq_of_run ran).symm.trans decoded
  have agrees : (Displacement.mk offset target 0).Agrees (frame data rectangle).data other
      (outcome.stop last.1.offset) := by
    refine .of_bytes fits fun place starts within => ?_
    have here := same (place - offset) (by dsimp only at starts; omega)
    rw [Nat.add_sub_cancel' starts, Nat.add_comm] at here
    exact here
  have moved := Displacement.run_moved (Nat.le_refl offset) reaches halts agrees
  have stays : (Displacement.mk offset target 0).row (frame data rectangle).top =
      (frame data rectangle).top := Int.add_zero _
  dsimp only [Decoder.Frame.start] at moved
  rw [progress_initial, stays, ← frame_other data other rectangle offset target] at moved
  exact decode_eq_of_run moved

/-- A rectangle that is moved by whole words and by eight rows at a time is decoded in the same
way. -/
theorem decode_rectangle_moved (data : Window) (offset : Nat) (rectangle : Rectangle)
    (groups columns : Int) :
    decode data offset (rectangle.moved groups columns) = decode data offset rectangle := by
  obtain ⟨last, reaches, halts⟩ :=
    Decoder.exists_halt (frame data rectangle) ((frame data rectangle).start offset)
  have everywhere (stop : Nat) :
      (Displacement.mk 0 0 groups).Agrees (frame data rectangle).data data stop :=
    ⟨fun _ _ _ => rfl, fun _ _ _ => rfl⟩
  have moved := Displacement.run_moved (Nat.zero_le _) reaches halts (.of_all everywhere)
  rw [Displacement.result_stay] at moved
  rw [decode_eq_map, decode_eq_map, frame_moved, Displacement.height_frame,
    Displacement.blank_frame]
  exact congrArg (_ <$> ·) moved

end Decoding

/-- **A stream may stand anywhere.** When decoding ends without an error, it has read the stream up
to some place, and any other block with the same bytes somewhere decodes to the same raster, with
the same outcome but for the offset it may name. A rectangle that is moved by whole words and by
eight rows at a time has the same result, be it a raster or an error. -/
theorem decode_moved (data : Window) (offset : Nat) (rectangle : Rectangle) :
    (∀ raster outcome, decode data offset rectangle = .ok (raster, outcome) →
      ∃ stop, ReadsUpTo data offset rectangle stop ∧ offset ≤ stop ∧ stop ≤ max offset data.length ∧
        ∀ (other : Window) (target : Nat),
          (∀ place, offset + place < stop →
            other.byte (target + place) = data.byte (offset + place)) →
          decode other target rectangle =
            .ok (raster, (Displacement.mk offset target 0).outcome outcome)) ∧
      ∀ groups columns : Int,
        decode data offset (rectangle.moved groups columns) = decode data offset rectangle := by
  constructor
  · intro raster outcome decoded
    obtain ⟨stop, reads, after, fits⟩ := exists_readsUpTo decoded
    exact ⟨stop, reads, after, fits, fun _ _ same => decode_other decoded reads fits same⟩
  · exact decode_rectangle_moved data offset rectangle

/-- A row of the byte remembered for it, and a byte that is no instruction: with other bytes before
and behind them, and sixteen rows and three words further on. -/
theorem decode_moved_remembered :
    let raster : Raster := ⟨1, 2, #[0x55555555, 0]⟩
    decode (.ofArray #[0x84, 0x87]) 0 ⟨1, 0, 3, 32⟩ = .ok (raster, .truncated 1 0x87 1) ∧
      decode (.ofArray #[0xFF, 0x83, 0x84, 0x87, 0x82]) 2 ⟨1, 0, 3, 32⟩ =
        .ok (raster, .truncated 1 0x87 3) ∧
      decode (.ofArray #[0x84, 0x87]) 0 ⟨17, 96, 19, 128⟩ = .ok (raster, .truncated 1 0x87 1) := by
  intro raster
  let filled : Decoder.Progress := ((Decoder.Progress.initial 0 1).taking 0x84).advanceRows 1 1
  have remembers : Decoder.Step (frame (.ofArray #[0x84, 0x87]) ⟨1, 0, 3, 32⟩)
      ((frame (.ofArray #[0x84, 0x87]) ⟨1, 0, 3, 32⟩).start 0) (filled, raster.words) :=
    @Decoder.Step.instruction _ (.initial 0 1) filled _ raster.words 0x84
      (by decide) (by decide) rfl (by decide) rfl
  have ends : Decoder.Halts (frame (.ofArray #[0x84, 0x87]) ⟨1, 0, 3, 32⟩) (filled, raster.words)
      (.ok (raster.words, .truncated 1 0x87 1)) :=
    @Decoder.Halts.truncated _ filled raster.words 0x87 (by decide) (by decide) rfl (by decide)
  have decoded : decode (.ofArray #[0x84, 0x87]) 0 ⟨1, 0, 3, 32⟩ =
      .ok (raster, .truncated 1 0x87 1) :=
    decode_eq_of_run (remembers.run_eq.trans ends.run_eq)
  obtain ⟨anywhere, moved⟩ := decode_moved (.ofArray #[0x84, 0x87]) 0 ⟨1, 0, 3, 32⟩
  obtain ⟨stop, _, _, fits, others⟩ := anywhere _ _ decoded
  have bound : stop ≤ 2 := fits
  have same : ∀ place < 2, (Window.ofArray #[0xFF, 0x83, 0x84, 0x87, 0x82]).byte (2 + place) =
      (Window.ofArray #[0x84, 0x87]).byte (0 + place) := by
    intro place less
    match place, less with
    | 0, _ => rfl
    | 1, _ => rfl
  exact ⟨decoded, others _ 2 fun place less => same place (by omega), (moved 2 3).trans decoded⟩

end Raster
end HyperCard
