import HyperCard.Proofs.Picture.Rows
import Mathlib.Tactic.Ring

/-!
# Decoding a well-formed stream

The decoder and the draft of a stream go through the same rows. Each instruction of the stream takes
the decoder from one draft to the next, and it closes a row exactly when the draft does; so it ends
with the array full of the rows of the stream, and with no error.
-/
namespace HyperCard

namespace RasterStream

/-- The instruction of a piece. -/
def Piece.instruction : Piece → Instruction
  | .packed zeros count _ => .run zeros count
  | .literal groups _ => .run 0 (8 * groups)
  | .skip units => .skip units
  | .rows (.copied _) => .copiedRows
  | .rows .white => .whiteRows
  | .rows .black => .blackRows
  | .rows (.byte _) => .byteRows
  | .rows .remembered => .rememberedRows
  | .rows (.above between) => .rowsAbove (between + 1)
  | .delta kind => .combine (deltas.get kind).1 (deltas.get kind).2
  | .repeatNext count => .repeatNext count

/-- The byte of an instruction is read as that instruction. -/
theorem Piece.ofByte_opcode (piece : Piece) :
    Instruction.ofByte piece.opcode = piece.instruction := by
  cases piece with
  | packed zeros count data =>
    have all : ∀ (zeros : Fin 16) (count : Fin 8),
        Instruction.ofByte (UInt8.ofNat (16 * count + zeros)) = .run zeros count := by
      decide +kernel
    exact all zeros count
  | literal groups data =>
    have all : ∀ groups : Fin 32,
        Instruction.ofByte (UInt8.ofNat (0xC0 + groups)) = .run 0 (8 * groups) := by
      decide +kernel
    exact all groups
  | skip units => exact (by decide +kernel : ∀ units : Fin 32,
      Instruction.ofByte (UInt8.ofNat (0xE0 + units)) = .skip units) units
  | delta kind => exact (by decide +kernel : ∀ kind : Fin 8,
      Instruction.ofByte (UInt8.ofNat (0x88 + kind)) =
        .combine (deltas.get kind).1 (deltas.get kind).2) kind
  | repeatNext count => exact (by decide +kernel : ∀ count : Fin 32,
      Instruction.ofByte (UInt8.ofNat (0xA0 + count)) = .repeatNext count) count
  | rows content =>
    cases content with
    | above between => exact (by decide +kernel : ∀ between : Fin 2,
        Instruction.ofByte (UInt8.ofNat (0x85 + between)) = .rowsAbove (between + 1)) between
    | copied _ | white | black | byte _ | remembered => rfl

/-- No piece of a stream is an instruction that is not known. -/
theorem Piece.instruction_ne_unknown (piece : Piece) : piece.instruction ≠ .unknown := by
  cases piece with
  | rows content => cases content <;> exact Instruction.noConfusion
  | packed _ _ _ | literal _ _ | skip _ | delta _ | repeatNext _ => exact Instruction.noConfusion

namespace Draft

variable {extent : Extent} {content : Content} {draft : Draft}

/-- Adding whole rows changes nothing but the rows. -/
theorem addRows_eq (count : Nat) :
    draft.addRows extent content count =
      { draft with rows := (draft.addRows extent content count).rows } := by
  induction count generalizing draft with
  | zero => rfl
  | succ count ih =>
    rw [addRows, ih]

/-- There are so many rows more. -/
theorem length_addRows (count : Nat) :
    (draft.addRows extent content count).rows.length = draft.rows.length + count := by
  induction count generalizing draft with
  | zero => rfl
  | succ count ih =>
    rw [addRows, ih, List.length_append, List.length_singleton]
    omega

/-- Rows that are all the same are added as copies. -/
theorem addRows_replicate {row : List UInt32}
    (same : ∀ draft : Draft, draft.wholeRow extent content = row) (count : Nat) :
    (draft.addRows extent content count).rows = draft.rows ++ List.replicate count row := by
  induction count generalizing draft with
  | zero => exact (List.append_nil _).symm
  | succ count ih =>
    rw [addRows, ih, same, List.append_assoc, List.singleton_append, List.replicate_succ]

end Draft
end RasterStream

namespace Decoder

open RasterStream (Draft Content Extent Piece wordOfBytes wordAt rowOf wordBytes deltas)

variable {frame : Frame} {draft : Draft} {progress : Progress} {words filled : Words}

/-- Without bytes every word is white. -/
theorem wordAt_nil (index : Nat) : wordAt [] index = 0 := by
  simp only [wordAt, List.getD_nil]
  decide

namespace Follows

/-- Where the stream stands does not matter to the rows. -/
theorem moved (follows : Follows frame draft progress words) (offset opcodeOffset : Nat)
    (opcode : UInt8) :
    Follows frame draft { progress with offset, opcode, opcodeOffset } words :=
  ⟨follows.size, follows.inside, follows.widths, follows.shows, follows.white, follows.rowStart,
    follows.y, follows.x, follows.repetitions, follows.dx, follows.whole, follows.dy,
    follows.remembered⟩

/-- How often the next instruction acts is kept on both sides. -/
theorem repeatNext (follows : Follows frame draft progress words) (count : Nat) :
    Follows frame { draft with copies := count } { progress with repetitions := count } words :=
  ⟨follows.size, follows.inside, follows.widths, follows.shows, follows.white, follows.rowStart,
    follows.y, follows.x, rfl, follows.dx, follows.whole, follows.dy, follows.remembered⟩

/-- So is the way of combining rows, whose distance across divides a word. -/
theorem delta (follows : Follows frame draft progress words) (kind : Fin 8) :
    Follows frame { draft with dx := (deltas.get kind).1, dy := (deltas.get kind).2 }
      { progress with dx := (deltas.get kind).1, dy := (deltas.get kind).2 } words := by
  have whole : ∀ kind : Fin 8,
      (deltas.get kind).1 = 0 ∨ (deltas.get kind).1 * (32 / (deltas.get kind).1) = 32 := by
    decide
  exact ⟨follows.size, follows.inside, follows.widths, follows.shows, follows.white,
    follows.rowStart, follows.y, follows.x, follows.repetitions, rfl,
    (whole kind).imp_right fun same => ⟨_, same⟩, rfl, follows.remembered⟩

/-- Bytes are remembered for the same rows. -/
theorem remember (follows : Follows frame draft progress words) (byte : UInt8) :
    Follows frame (draft.remember frame.extent byte) (progress.remember byte) words := by
  refine ⟨follows.size, follows.inside, follows.widths, follows.shows, follows.white,
    follows.rowStart, follows.y, follows.x, follows.repetitions, follows.dx, follows.whole,
    follows.dy, fun y => ?_⟩
  have slots : (historySlot progress.y).val = (historySlot y).val ↔
      y % 8 = draft.y frame.extent % 8 := by
    rw [follows.y, historySlot, historySlot, Fin.val_ofNat, Fin.val_ofNat]
    omega
  have get : ∀ (bytes : Vector UInt8 8) (slot : Fin 8), bytes.get slot = bytes[slot.val] :=
    fun _ _ => rfl
  have before := follows.remembered y
  rw [Progress.remembered, get] at before
  rw [Progress.remembered, Progress.remember, get, Vector.getElem_set]
  simp only [slots, before, Draft.remember]

/-- Where a row begins, no byte of it is there yet. -/
theorem shows_nil (follows : Follows frame draft progress words) (fresh : draft.current = []) :
    Shows words draft.rows.flatten fun _ => 0 := by
  have shows := follows.shows
  rw [fresh] at shows
  exact shows.congr fun index _ => wordAt_nil index

/-- White bytes are appended to the next row by going past them. -/
theorem skip (follows : Follows frame draft progress words) (units : Nat) :
    Follows frame (draft.append (List.replicate units 0)) (progress.advancePixels (8 * units))
      words := by
  have same : ∀ index, (draft.append (List.replicate units 0)).current.getD index 0 =
      draft.current.getD index 0 := by
    intro index
    rw [Draft.append, List.flatten_replicate_replicate, getD_append_white]
  refine ⟨follows.size, follows.inside, follows.widths, ?_, fun index beyond => ?_,
    follows.rowStart, follows.y, ?_, rfl, follows.dx, follows.whole, follows.dy,
    follows.remembered⟩
  · refine follows.shows.congr fun index _ => ?_
    simp only [wordAt, same]
  · rw [same]
    exact follows.white index beyond
  · rw [Draft.append, List.length_append, List.flatten_replicate_replicate, List.length_replicate,
      Progress.advancePixels, follows.x, follows.repetitions]
    ring

/-- Whole rows that the array shows are added to the draft. -/
theorem addRows (follows : Follows frame draft progress words) (content : Content)
    (fresh : draft.current = []) (inside : draft.rows.length + draft.copies ≤ frame.extent.height)
    (size : filled.size = words.size)
    (widths : ∀ row ∈ (draft.addRows frame.extent content draft.copies).rows,
      row.length = frame.wordsPerRow)
    (shows : Shows filled (draft.addRows frame.extent content draft.copies).rows.flatten
      fun _ => 0) :
    Follows frame { draft.addRows frame.extent content draft.copies with copies := 1 }
      (progress.advanceRows frame.wordsPerRow progress.repetitions) filled := by
  have length : (draft.addRows frame.extent content draft.copies).rows.length =
      draft.rows.length + draft.copies := Draft.length_addRows draft.copies
  have total := length_flatten_rows widths
  obtain ⟨rows, later⟩ :
      ∃ rows, draft.addRows frame.extent content draft.copies = { draft with rows } :=
    ⟨_, Draft.addRows_eq draft.copies⟩
  rw [later] at length total widths shows ⊢
  dsimp only at length total widths shows
  refine ⟨size.trans follows.size, ?_, widths, ?_, ?_, ?_, ?_, ?_, rfl, follows.dx, follows.whole,
    follows.dy, follows.remembered⟩
  · rw [length]
    exact inside
  · rw [fresh]
    exact shows.congr fun index _ => (wordAt_nil index).symm
  · rw [fresh]
    exact fun index _ => List.getD_nil
  · dsimp only [Progress.advanceRows]
    rw [total, length, follows.rowStart, follows.repetitions, length_flatten_rows follows.widths]
    ring
  · dsimp only [Progress.advanceRows, Draft.y]
    rw [length, follows.y, follows.repetitions, Draft.y]
    push_cast
    ring
  · rw [fresh]
    rfl

/-- Copies of one row that the array shows are added to the draft. -/
theorem addCopies (follows : Follows frame draft progress words) (content : Content)
    {row : List UInt32} (same : ∀ draft : Draft, draft.wholeRow frame.extent content = row)
    (width : row.length = frame.wordsPerRow) (fresh : draft.current = [])
    (inside : draft.rows.length + draft.copies ≤ frame.extent.height)
    (size : filled.size = words.size)
    (shows : Shows filled (draft.rows.flatten ++ (List.replicate draft.copies row).flatten)
      fun _ => 0) :
    Follows frame { draft.addRows frame.extent content draft.copies with copies := 1 }
      (progress.advanceRows frame.wordsPerRow progress.repetitions) filled := by
  have rows := @Draft.addRows_replicate frame.extent content draft row same draft.copies
  rw [← List.flatten_append, ← rows] at shows
  refine follows.addRows content fresh inside size ?_ shows
  intro other member
  rw [rows] at member
  rcases List.mem_append.mp member with member | member
  · exact follows.widths other member
  · rw [List.eq_of_mem_replicate member, width]

end Follows

/-- Whether an instruction is executed without error, takes so many bytes from the stream and leads
to a draft. -/
def Leads (frame : Frame) (instruction : Instruction) (progress : Progress) (words : Words)
    (next : Draft) (length : Nat) : Prop :=
  ∃ filled later, execute frame instruction progress words = .ok (filled, later) ∧
    later.offset = progress.offset + length ∧ Follows frame next later filled

/-- Bytes that fall inside the next row are appended to it. -/
theorem leads_run (follows : Follows frame draft progress words)
    (unfinished : draft.rows.length < frame.extent.height) (zeros : Nat) (data : List UInt8)
    (holds : frame.data.Holds progress.offset data)
    (room : data.length = 0 ∨
      draft.current.length + draft.copies * (zeros + data.length) ≤ 4 * frame.wordsPerRow) :
    Leads frame (.run zeros data.length) progress words
      (draft.append (List.replicate zeros 0 ++ data)) data.length := by
  by_cases none : data.length = 0
  · obtain rfl : data = [] := List.length_eq_zero_iff.mp none
    refine ⟨words, _, rfl, rfl, ?_⟩
    rw [List.append_nil]
    exact (follows.skip zeros).moved _ _ _
  · have inside := room.resolve_left none
    have fits := follows.room unfinished
    have start : Shows words draft.rows.flatten (wordsOf
        (partlyWritten draft.current zeros (zeros + data.length) progress.repetitions [])) :=
      follows.shows.congr fun index _ => by
        simp only [wordsOf, partlyWritten_nil, wordAt]
    obtain ⟨filled, run, size, shows⟩ := writeRun_shows [] data
      (by rw [List.length_nil, Nat.zero_add]) holds follows.rowStart
      (by rw [follows.repetitions]; exact inside) fits start
    have length : (draft.append (List.replicate zeros 0 ++ data)).current.length =
        draft.current.length + draft.copies * (zeros + data.length) := by
      simp [Draft.append]
    refine ⟨filled, { progress.advancePixels (8 * (zeros + data.length)) with
      offset := progress.offset + data.length }, ?_, rfl, ?_⟩
    · have place : progress.x + 8 * zeros =
          8 * (draft.current.length + zeros + ([] : List UInt8).length) := by
        rw [follows.x, List.length_nil]
        omega
      simp only [execute, place, run]
      rfl
    · refine ⟨size.trans follows.size, follows.inside, follows.widths, ?_, fun index beyond => ?_,
        follows.rowStart, follows.y, ?_, rfl, follows.dx, follows.whole, follows.dy,
        follows.remembered⟩
      · refine shows.congr fun index _ => ?_
        simp only [wordsOf, List.nil_append, partlyWritten_all, follows.repetitions, wordAt,
          Draft.append]
      · exact List.getD_eq_default _ _ (by rw [length]; omega)
      · rw [length]
        dsimp only [Progress.advancePixels]
        rw [follows.x, follows.repetitions]
        ring

/-- Rows of computed words are added to the draft. -/
theorem finishRows_follows (value : Int → Words → Nat → Except BitmapError UInt32)
    (follows : Follows frame draft progress words) (content : Content) (fresh : draft.current = [])
    (inside : draft.rows.length + draft.copies ≤ frame.extent.height)
    (gives : 0 < draft.copies → ∀ later : Draft, later.history = draft.history →
      draft.rows.length ≤ later.rows.length →
      (∀ row ∈ later.rows, row.length = frame.wordsPerRow) →
      (later.wholeRow frame.extent content).length = frame.wordsPerRow ∧
        Gives (value (later.y frame.extent)) later.rows.flatten
          (later.wholeRow frame.extent content)) :
    ∃ filled,
      finishRows frame progress value words =
          .ok (filled, progress.advanceRows frame.wordsPerRow progress.repetitions) ∧
        Follows frame { draft.addRows frame.extent content draft.copies with copies := 1 }
          (progress.advanceRows frame.wordsPerRow progress.repetitions) filled := by
  have room : (draft.rows.length + draft.copies) * frame.wordsPerRow ≤ words.size := by
    rw [follows.size]
    exact Nat.mul_le_mul_right _ inside
  obtain ⟨filled, run, size, shows, widths⟩ := @fillRows_shows frame progress words value
    frame.extent rfl content draft.copies draft follows.widths room (follows.shows_nil fresh) gives
  refine ⟨filled, ?_, follows.addRows content fresh inside size widths shows⟩
  rw [finishRows, follows.repetitions, follows.y, follows.rowStart, run]
  rfl

/-- A word of one byte four times over. -/
theorem replicate_eq : ∀ byte : UInt8, replicate byte = wordOfBytes byte byte byte byte :=
  forall_byte (by decide +kernel)

/-- There is room in the array for rows that stay inside the raster. -/
theorem Follows.room_copies (follows : Follows frame draft progress words)
    (inside : draft.rows.length + draft.copies ≤ frame.extent.height) :
    draft.rows.flatten.length + draft.copies * frame.wordsPerRow ≤ words.size := by
  have total := length_flatten_rows follows.widths
  rw [total, ← Nat.add_mul, follows.size]
  exact Nat.mul_le_mul_right _ inside

/-- Rows of words that follow in the stream are added to the draft. -/
theorem leads_copied (follows : Follows frame draft progress words) {row : List UInt32}
    (width : row.length = frame.wordsPerRow) (fresh : draft.current = [])
    (inside : draft.rows.length + draft.copies ≤ frame.extent.height)
    (holds : frame.data.Holds progress.offset (row.flatMap wordBytes)) :
    Leads frame .copiedRows progress words (draft.perform frame.extent (.rows (.copied row)))
      (row.flatMap wordBytes).length := by
  have room := follows.room_copies inside
  rw [← width] at room
  obtain ⟨filled, run, size, shows⟩ := @copyRows_shows frame progress words draft.rows.flatten
    row [] row progress.offset rfl width.symm holds (by rw [follows.repetitions]; exact room)
    ((follows.shows_nil fresh).congr fun index _ => by simp [partlyCopied])
  rw [follows.repetitions] at shows
  have copies := shows.append_copies (by rw [size]; exact room)
  refine ⟨filled, { progress.advanceRows frame.wordsPerRow progress.repetitions with
    offset := progress.offset + 4 * frame.wordsPerRow }, ?_, ?_,
    (follows.addCopies (.copied row) (fun _ => rfl) width fresh inside size copies).moved _ _ _⟩
  · rw [execute, follows.rowStart, ← width]
    rw [List.length_nil, Nat.add_zero] at run
    rw [run]
    rfl
  · rw [RasterStream.length_flatMap_wordBytes, width]

/-- Rows without a black pixel are added to the draft; the array has them already. -/
theorem leads_white (follows : Follows frame draft progress words) (fresh : draft.current = [])
    (inside : draft.rows.length + draft.copies ≤ frame.extent.height) :
    Leads frame .whiteRows progress words (draft.perform frame.extent (.rows .white)) 0 := by
  have blank : (List.replicate draft.copies
      (List.replicate frame.wordsPerRow (0 : UInt32))).flatten =
      List.replicate (draft.copies * frame.wordsPerRow) 0 := List.flatten_replicate_replicate
  have shows := (follows.shows_nil fresh).append
    (List.replicate (draft.copies * frame.wordsPerRow) 0)
    (by rw [List.length_replicate]; exact follows.room_copies inside)
    fun index _ => by rw [List.getElem_replicate]
  rw [← blank] at shows
  exact ⟨words, _, rfl, rfl, follows.addCopies .white (fun _ => rfl) List.length_replicate fresh
    inside rfl shows⟩

/-- Whole rows begin where a row begins and are added to the draft. -/
theorem leads_rows (follows : Follows frame draft progress words) (content : Content)
    (accepts : draft.Accepts frame.extent (.rows content))
    (holds : frame.data.Holds progress.offset content.data) :
    Leads frame (Piece.rows content).instruction progress words
      (draft.perform frame.extent (.rows content)) content.data.length := by
  obtain ⟨fresh, inside, exists_source⟩ := accepts
  cases content with
  | copied row => exact leads_copied follows exists_source fresh inside holds
  | white => exact leads_white follows fresh inside
  | black =>
    obtain ⟨filled, run, next⟩ := finishRows_follows (fun _ _ _ => .ok 0xFFFFFFFF)
      follows .black fresh inside fun _ later _ _ _ =>
        ⟨List.length_replicate, gives_replicate _ _ _⟩
    exact ⟨filled, _, run, rfl, next⟩
  | byte value =>
    have found : frame.data.byte progress.offset = .ok value := holds.cons.1
    have noted := (follows.remember value).moved (progress.offset + 1) progress.opcodeOffset
      progress.opcode
    obtain ⟨filled, run, next⟩ := finishRows_follows
      (fun _ _ _ => .ok (replicate value)) noted (.byte value) fresh inside
      fun _ later _ _ _ => by
        rw [replicate_eq]
        exact ⟨List.length_replicate, gives_replicate _ _ _⟩
    refine ⟨filled, _, ?_, rfl, next⟩
    rw [Piece.instruction, execute, read_bind found]
    exact run
  | remembered =>
    obtain ⟨filled, run, next⟩ := finishRows_follows
      (fun y _ _ => .ok (replicate (progress.remembered y))) follows .remembered fresh
      inside fun _ later history _ _ => by
        rw [follows.remembered, replicate_eq, ← history]
        exact ⟨List.length_replicate, gives_replicate _ _ _⟩
    exact ⟨filled, _, run, rfl, next⟩
  | above between =>
    obtain ⟨filled, run, next⟩ := finishRows_follows
      (fun _ => wordAbove progress ((between + 1) * frame.wordsPerRow)) follows
      (.above between) fresh inside fun some later _ more widths => by
        have high : between + 1 ≤ draft.rows.length :=
          exists_source.resolve_left (Nat.ne_of_gt some)
        have less : later.rows.length - (between + 1) < later.rows.length := by omega
        refine ⟨?_, gives_above widths (by omega) (Nat.succ_pos _)⟩
        rw [Draft.wholeRow, List.getD_eq_getElem _ _ less]
        exact widths _ (List.getElem_mem less)
    exact ⟨filled, _, run, rfl, next⟩

/-- An instruction that may come next does in the array what it does in the draft. -/
theorem leads_perform (follows : Follows frame draft progress words)
    (unfinished : draft.rows.length < frame.extent.height) {piece : Piece}
    (accepts : draft.Accepts frame.extent piece)
    (holds : frame.data.Holds progress.offset piece.data) :
    Leads frame piece.instruction progress words (draft.perform frame.extent piece)
      piece.data.length := by
  cases piece with
  | packed zeros count data =>
    have length : data.toList.length = count := Vector.length_toList
    have room : data.toList.length = 0 ∨
        draft.current.length + draft.copies * (zeros + data.toList.length) ≤
          4 * frame.wordsPerRow := by
      rw [length]
      exact accepts
    have leads := leads_run follows unfinished zeros data.toList holds room
    rw [length] at leads
    rw [Piece.data, length]
    exact leads
  | literal groups data =>
    have length : data.toList.length = 8 * groups := Vector.length_toList
    have room : draft.current.length + draft.copies * (0 + data.toList.length) ≤
        4 * frame.wordsPerRow := by
      rw [length, Nat.zero_add]
      exact accepts
    have leads := leads_run follows unfinished 0 data.toList holds (.inr room)
    rw [length] at leads
    rw [Piece.data, length]
    exact leads
  | skip units =>
    have pixels : 128 * units.val = 8 * (16 * units) := by omega
    refine ⟨words, progress.advancePixels (128 * units), rfl, rfl, ?_⟩
    rw [pixels]
    exact follows.skip (16 * units)
  | rows content => exact leads_rows follows content accepts holds
  | delta kind => exact ⟨words, _, rfl, rfl, follows.delta kind⟩
  | repeatNext count => exact ⟨words, _, rfl, rfl, follows.repeatNext count⟩

section Run

/-- Rows are missing as long as the last row is not reached. -/
theorem Follows.lt_bottom_iff (follows : Follows frame draft progress words) :
    progress.y < frame.bottom ↔ draft.rows.length < frame.extent.height := by
  rw [follows.y, Draft.y, Frame.extent_top, Frame.extent_height]
  omega

/-- In a row that is not long enough, the next byte is taken for an instruction. -/
theorem run_of_byte {opcode : UInt8} (unfinished : progress.y < frame.bottom)
    (short : progress.x < 32 * frame.wordsPerRow)
    (found : frame.data.byte progress.offset = .ok opcode) :
    run frame progress words =
      if Instruction.ofByte opcode = .unknown then
        .ok (words, .truncated (progress.y - frame.top).toNat opcode progress.offset)
      else
        execute frame (Instruction.ofByte opcode)
          { progress with offset := progress.offset + 1, opcode, opcodeOffset := progress.offset }
          words >>= fun done => run frame done.2 done.1 := by
  obtain ⟨within, same⟩ := Window.byte_eq_ok found
  have inside := frame.data.inside
  rw [Array.getElem?_eq_getElem (by omega), Option.some_inj] at same
  subst same
  rw [run, dif_pos unfinished, if_pos short, dif_pos within]
  dsimp only
  split
  · rename_i unknown
    rw [if_pos unknown]
  · rename_i known
    rw [if_neg known]
    split
    · rename_i failed
      rw [failed]
      rfl
    · rename_i succeeded
      rw [succeeded]
      rfl

/-- A row that is long enough is combined before the next one begins. -/
theorem run_of_long (unfinished : progress.y < frame.bottom)
    (long : 32 * frame.wordsPerRow ≤ progress.x) :
    run frame progress words = combineRow frame progress words >>= fun filled =>
      run frame (progress.advanceRows frame.wordsPerRow 1) filled := by
  rw [run, dif_pos unfinished, if_neg (Nat.not_lt.mpr long)]
  cases combineRow frame progress words <;> rfl

/-- An instruction that is executed is one step of the decoder. -/
theorem run_instruction {opcode : UInt8} {later : Progress} (unfinished : progress.y < frame.bottom)
    (short : progress.x < 32 * frame.wordsPerRow)
    (found : frame.data.byte progress.offset = .ok opcode)
    (known : Instruction.ofByte opcode ≠ .unknown)
    (executed : execute frame (Instruction.ofByte opcode)
      { progress with offset := progress.offset + 1, opcode, opcodeOffset := progress.offset }
      words = .ok (filled, later)) :
    run frame progress words = run frame later filled := by
  rw [run_of_byte unfinished short found, if_neg known, executed]
  rfl

/-- A row that is long enough is combined, and the next one begins. -/
theorem run_row (unfinished : progress.y < frame.bottom)
    (long : 32 * frame.wordsPerRow ≤ progress.x)
    (combined : combineRow frame progress words = .ok filled) :
    run frame progress words = run frame (progress.advanceRows frame.wordsPerRow 1) filled := by
  rw [run_of_long unfinished long, combined]
  rfl

/-- Only parts of rows leave bytes for the next row, and they leave the finished rows alone. -/
theorem rows_perform {piece : Piece} (accepts : draft.Accepts frame.extent piece)
    (some : (draft.perform frame.extent piece).current ≠ []) :
    (draft.perform frame.extent piece).rows = draft.rows := by
  cases piece with
  | packed _ _ _ | literal _ _ | skip _ | delta _ | repeatNext _ => rfl
  | rows content =>
    have fresh : draft.current = [] := accepts.1
    refine absurd ?_ some
    cases content with
    | byte value =>
      rw [Draft.perform, Draft.addRows_eq]
      exact fresh
    | copied _ | white | black | remembered | above _ =>
      simp only [Draft.perform]
      rw [Draft.addRows_eq]
      exact fresh

/-- A row keeps its length when it is combined with itself and with a row above. -/
theorem length_combined (follows : Follows frame draft progress words) {row : List UInt32}
    (length : row.length = frame.wordsPerRow) :
    (draft.combined row).length = frame.wordsPerRow := by
  have across : (combinedAcross draft row).length = frame.wordsPerRow := by
    rw [length_combinedAcross, length]
  change (if _ then combinedAcross draft row
    else List.zipWith _ (combinedAcross draft row) _).length = _
  by_cases none : draft.dy = 0 ∨ draft.rows.length < draft.dy
  · rw [if_pos none]
    exact across
  · have less : draft.rows.length - draft.dy < draft.rows.length := by omega
    rw [if_neg none, List.length_zipWith, across, List.getD_eq_getElem _ _ less,
      follows.widths _ (List.getElem_mem less), Nat.min_self]

/-- The next row is finished in the array as in the draft. -/
theorem Follows.close (follows : Follows frame draft progress words)
    (unfinished : draft.rows.length < frame.extent.height) (size : filled.size = words.size)
    (shows : Shows filled
      (draft.rows.flatten ++ draft.combined (rowOf frame.wordsPerRow draft.current))
      fun index => wordAt draft.current (frame.wordsPerRow + index)) :
    Follows frame
      { draft with
        rows := draft.rows ++ [draft.combined (rowOf frame.wordsPerRow draft.current)]
        current := []
        copies := 1 }
      (progress.advanceRows frame.wordsPerRow 1) filled := by
  have length := length_combined follows (length_rowOf frame.wordsPerRow draft.current)
  refine ⟨size.trans follows.size, ?_, ?_, ?_, fun index _ => List.getD_nil, ?_, ?_, rfl, rfl,
    follows.dx, follows.whole, follows.dy, follows.remembered⟩
  · rw [List.length_append, List.length_singleton]
    exact unfinished
  · exact List.forall_mem_append.mpr ⟨follows.widths, List.forall_mem_singleton.mpr length⟩
  · rw [List.flatten_append, List.flatten_singleton]
    refine shows.congr fun index _ => ?_
    have white : ∀ part, draft.current.getD (4 * (frame.wordsPerRow + index) + part) 0 = 0 :=
      fun part => follows.white _ (by omega)
    have first := white 0
    rw [Nat.add_zero] at first
    rw [wordAt_nil]
    simp only [wordAt, white, first]
    decide
  · dsimp only [Progress.advanceRows]
    rw [List.flatten_append, List.flatten_singleton, List.length_append, length, follows.rowStart,
      Nat.one_mul]
  · dsimp only [Progress.advanceRows, Draft.y]
    rw [follows.y, Draft.y, List.length_append, List.length_singleton]
    push_cast
    ring

/-- A piece that may come next is decoded as its step of the draft. -/
theorem run_piece (follows : Follows frame draft progress words)
    (unfinished : draft.rows.length < frame.extent.height)
    (short : draft.current.length < 4 * frame.wordsPerRow) {piece : Piece}
    (accepts : draft.Accepts frame.extent piece)
    (holds : frame.data.Holds progress.offset piece.bytes) :
    ∃ filled later, run frame progress words = run frame later filled ∧
      later.offset = progress.offset + piece.bytes.length ∧
        Follows frame (draft.step frame.extent piece) later filled ∧
          (draft.step frame.extent piece).current.length < 4 * frame.wordsPerRow := by
  obtain ⟨found, data⟩ := holds.cons
  obtain ⟨filled, later, executed, offset, next⟩ :=
    leads_perform (follows.moved (progress.offset + 1) progress.offset piece.opcode) unfinished
      accepts data
  rw [← Piece.ofByte_opcode] at executed
  have known : Instruction.ofByte piece.opcode ≠ .unknown := by
    rw [Piece.ofByte_opcode]
    exact piece.instruction_ne_unknown
  have started := run_instruction (follows.lt_bottom_iff.mpr unfinished)
    (by rw [follows.x]; omega) found known executed
  have taken : later.offset = progress.offset + piece.bytes.length := by
    dsimp only at offset
    rw [offset, Piece.bytes, List.length_cons]
    omega
  rw [Draft.step, Draft.close, Frame.extent_wordsPerRow]
  by_cases long : 4 * frame.wordsPerRow ≤ (draft.perform frame.extent piece).current.length
  · have some : (draft.perform frame.extent piece).current ≠ [] := by
      intro none
      rw [none, List.length_nil] at long
      omega
    have open_row : (draft.perform frame.extent piece).rows.length < frame.extent.height := by
      rw [rows_perform accepts some]
      exact unfinished
    obtain ⟨combined, row, size, shows⟩ := combineRow_shows next open_row
    have ended := run_row (next.lt_bottom_iff.mpr open_row) (by rw [next.x]; omega) row
    rw [if_pos long]
    refine ⟨combined, _, started.trans ended, taken, next.close open_row size shows, ?_⟩
    exact Nat.lt_of_le_of_lt (Nat.zero_le _) short
  · rw [if_neg long]
    exact ⟨filled, later, started, taken, next, Nat.not_le.mp long⟩

/-- A stream that makes the missing rows is decoded to its end. -/
theorem run_completes (stream : List Piece) (follows : Follows frame draft progress words)
    (short : draft.current.length < 4 * frame.wordsPerRow)
    (completes : draft.Completes frame.extent stream)
    (holds : frame.data.Holds progress.offset (RasterStream.bytes stream)) :
    ∃ filled later, run frame progress words = .ok (filled, .complete) ∧
      Follows frame (stream.foldl (Draft.step frame.extent) draft) later filled ∧
        (stream.foldl (Draft.step frame.extent) draft).rows.length = frame.extent.height := by
  induction stream generalizing draft progress words with
  | nil =>
    have ended : ¬ progress.y < frame.bottom := by
      rw [follows.lt_bottom_iff]
      exact Nat.not_lt.mpr (Nat.le_of_eq completes.symm)
    refine ⟨words, progress, ?_, follows, completes⟩
    rw [run, dif_neg ended]
  | cons piece stream ih =>
    obtain ⟨unfinished, accepts, rest⟩ := completes
    rw [RasterStream.bytes, List.flatMap_cons] at holds
    obtain ⟨here, others⟩ := holds.append
    obtain ⟨filled, later, stepped, offset, next, open_row⟩ :=
      run_piece follows unfinished short accepts here
    rw [← offset] at others
    obtain ⟨done, last, ran, ended, full⟩ := ih next open_row rest others
    exact ⟨done, last, stepped.trans ran, ended, full⟩

/-- Rows of no width are finished without reading the stream. -/
theorem run_narrow (narrow : frame.wordsPerRow = 0) (dx : progress.dx = 0) (dy : progress.dy = 0) :
    run frame progress words = .ok (words, .complete) := by
  induction missing : (frame.bottom - progress.y).toNat generalizing progress with
  | zero =>
    have ended : ¬ progress.y < frame.bottom := by omega
    rw [run, dif_neg ended]
  | succ rows ih =>
    have combined : combineRow frame progress words = .ok words := by
      simp only [combineRow, combineWithSelf, combineWithAbove, dx, dy, ↓reduceIte, true_or]
      rfl
    rw [run_row (by omega) (by rw [narrow]; exact Nat.zero_le _) combined]
    refine ih dx dy ?_
    dsimp only [Progress.advanceRows]
    omega

/-- The words of a frame before anything is decoded. -/
def Frame.blank (frame : Frame) : Words :=
  Array.replicate (frame.wordsPerRow * frame.extent.height) 0

/-- The words of a frame are white before anything is decoded. -/
theorem shows_blank (frame : Frame) : Shows frame.blank [] fun _ => 0 := by
  refine ⟨Nat.zero_le _, fun index less => absurd less (Nat.not_lt_zero _),
    fun index inside => ?_⟩
  rw [Frame.blank, Array.size_replicate] at inside
  rw [Frame.blank, Array.getElem?_replicate, if_pos inside]

/-- Decoding begins as a draft does. -/
theorem follows_initial (wide : frame.wordsPerRow ≠ 0) (offset : Nat) :
    Follows frame (Draft.initial frame.extent) (.initial offset frame.top) frame.blank := by
  have rows : (Draft.initial frame.extent).rows = [] := if_neg wide
  refine ⟨?_, ?_, ?_, ?_, fun _ _ => List.getD_nil, ?_, ?_, rfl, rfl, rfl, .inl rfl, rfl, ?_⟩
  · rw [Frame.blank, Array.size_replicate, Nat.mul_comm]
  · rw [rows]
    exact Nat.zero_le _
  · rw [rows]
    exact fun row member => absurd member List.not_mem_nil
  · rw [rows]
    exact (shows_blank frame).congr fun index _ => (wordAt_nil index).symm
  · rw [rows]
    rfl
  · rw [Draft.y, rows]
    exact (Int.add_zero _).symm
  · intro y
    have grey : ∀ slot : Fin 8,
        initialHistory.get slot = if slot.val % 2 = 0 then 0xAA else 0x55 := by decide
    have parity : (historySlot y).val % 2 = 0 ↔ y % 2 = 0 := by
      rw [historySlot, Fin.val_ofNat]
      omega
    rw [Progress.remembered, Progress.initial, grey]
    simp only [parity, Draft.initial]

end Run

end Decoder

namespace Raster

/-- The frame in which a stream is decoded over a rectangle. -/
def frame (data : Window) (rectangle : Rectangle) : Decoder.Frame :=
  let aligned := rectangle.alignedToWords
  ⟨data, aligned.top, aligned.bottom, (aligned.width / 32).toNat⟩

/-- The frame over a rectangle has the extent that a stream for the rectangle has. -/
theorem extent_frame (data : Window) (rectangle : Rectangle) :
    (frame data rectangle).extent = RasterStream.Extent.ofRectangle rectangle := by
  have height : (rectangle.alignedToWords.bottom - rectangle.alignedToWords.top).toNat =
      rectangle.alignedToWords.height.toNat := by
    rw [Rectangle.height]
    omega
  simp only [Decoder.Frame.extent, frame, RasterStream.Extent.ofRectangle, height]

/-- Decoding is a run of the decoder, and its errors are those of the run. -/
theorem decode_eq_map (data : Window) (offset : Nat) (rectangle : Rectangle) :
    decode data offset rectangle =
      (fun result => (⟨(frame data rectangle).wordsPerRow, (frame data rectangle).extent.height,
        result.1⟩, result.2)) <$>
        Decoder.run (frame data rectangle) (.initial offset (frame data rectangle).top)
          (frame data rectangle).blank := by
  rw [Decoder.Frame.blank, extent_frame]
  change (Decoder.run (frame data rectangle) (.initial offset (frame data rectangle).top)
    (Array.replicate ((frame data rectangle).wordsPerRow *
      (RasterStream.Extent.ofRectangle rectangle).height) 0) >>= _) = _
  cases Decoder.run (frame data rectangle) (.initial offset (frame data rectangle).top)
    (Array.replicate ((frame data rectangle).wordsPerRow *
      (RasterStream.Extent.ofRectangle rectangle).height) 0) <;> rfl

/-- What the run ends with is decoded. -/
theorem decode_eq_of_run {data : Window} {offset : Nat} {rectangle : Rectangle}
    {words : Decoder.Words} {outcome : Outcome}
    (ran : Decoder.run (frame data rectangle) (.initial offset (frame data rectangle).top)
      (frame data rectangle).blank = .ok (words, outcome)) :
    decode data offset rectangle =
      .ok (⟨(frame data rectangle).wordsPerRow, (frame data rectangle).extent.height, words⟩,
        outcome) := by
  rw [decode_eq_map, ran]
  rfl

/-- The rows of an array that shows them. -/
theorem map_row?_eq {rows : List (List UInt32)} {width : Nat} {words : Decoder.Words}
    {tail : Nat → UInt32} (widths : ∀ row ∈ rows, row.length = width)
    (shows : Decoder.Shows words rows.flatten tail) :
    (List.range rows.length).map (Raster.row? ⟨width, rows.length, words⟩) = rows.map some := by
  have total := Decoder.length_flatten_rows widths
  have fits := shows.fits
  apply List.ext_getElem
  · rw [List.length_map, List.length_map, List.length_range]
  · intro index inside less
    rw [List.length_map] at less
    have found : rows[index]? = some rows[index] := List.getElem?_eq_getElem less
    have length : rows[index].length = width := widths _ (List.getElem_mem less)
    have within : index * width + width ≤ rows.flatten.length := by
      rw [total, ← Nat.succ_mul]
      exact Nat.mul_le_mul_right _ less
    have sliced := Decoder.slice?_eq words (index * width) rows[index] (by omega)
      fun column before => by
        rw [length] at before
        rw [shows.before _ (by omega), Decoder.getElem?_flatten_rows widths found before]
    rw [List.getElem_map, List.getElem_map, List.getElem_range]
    rw [length] at sliced
    exact sliced

/-- Rows of no width need no stream. -/
theorem rows_of_narrow {extent : RasterStream.Extent} {stream : List RasterStream.Piece}
    (narrow : extent.wordsPerRow = 0) (wellFormed : RasterStream.WellFormed extent stream) :
    RasterStream.rows extent stream = List.replicate extent.height [] := by
  have rows : (RasterStream.Draft.initial extent).rows = List.replicate extent.height [] :=
    if_pos narrow
  cases stream with
  | nil => exact rows
  | cons piece rest =>
    have unfinished := wellFormed.1
    rw [rows, List.length_replicate] at unfinished
    exact absurd unfinished (Nat.lt_irrefl _)

/-- **Decoding a well-formed stream.** Wherever the bytes of a stream stand in a block, if the
stream is well formed for a rectangle, decoding it there ends with every row filled, and the rows of
the raster are those of the stream, in order. -/
theorem decode_of_wellFormed {data : Window} {offset : Nat} {rectangle : Rectangle}
    {stream : List RasterStream.Piece}
    (wellFormed : RasterStream.WellFormed (.ofRectangle rectangle) stream)
    (holds : data.Holds offset (RasterStream.bytes stream)) :
    ∃ raster, Raster.decode data offset rectangle = .ok (raster, .complete) ∧
      (List.range raster.height).map raster.row? =
        (RasterStream.rows (.ofRectangle rectangle) stream).map some := by
  rw [← extent_frame data rectangle] at wellFormed ⊢
  by_cases narrow : (frame data rectangle).wordsPerRow = 0
  · have ran : Decoder.run (frame data rectangle) (.initial offset (frame data rectangle).top)
        (frame data rectangle).blank = .ok ((frame data rectangle).blank, .complete) :=
      Decoder.run_narrow narrow rfl rfl
    have empty : (List.replicate (frame data rectangle).extent.height ([] : List UInt32)).flatten =
        [] := List.flatten_replicate_nil
    have widths : ∀ row ∈ List.replicate (frame data rectangle).extent.height ([] : List UInt32),
        row.length = (frame data rectangle).wordsPerRow := by
      intro row member
      rw [List.eq_of_mem_replicate member, List.length_nil, narrow]
    have shows := Decoder.shows_blank (frame data rectangle)
    rw [← empty] at shows
    have rows := map_row?_eq widths shows
    rw [List.length_replicate, ← rows_of_narrow narrow wellFormed] at rows
    exact ⟨_, decode_eq_of_run ran, rows⟩
  · obtain ⟨filled, later, ran, follows, full⟩ := Decoder.run_completes stream
      (Decoder.follows_initial narrow offset)
      (Nat.mul_pos (by decide) (Nat.pos_of_ne_zero narrow)) wellFormed holds
    have rows := map_row?_eq follows.widths follows.shows
    rw [full] at rows
    exact ⟨_, decode_eq_of_run ran, rows⟩

/-- Rows built from parts, a remembered byte, and rows above, after one byte of something else. -/
theorem decode_of_wellFormed_mixed :
    ∃ raster,
      Raster.decode
          (.ofArray #[0xFF, 0x8D, 0x31, 0x12, 0x34, 0x56, 0xA2, 0x11, 0xF0, 0x83, 0x3C, 0xA2, 0x86])
          1 ⟨3, 5, 8, 30⟩ = .ok (raster, .complete) ∧
        (List.range raster.height).map raster.row? =
          [some [0x001C279B], some [0x00BC273B], some [0x3C3C3C3C], some [0x00BC273B],
            some [0x3C3C3C3C]] := by
  let stream : List RasterStream.Piece :=
    [.delta 5, .packed 1 3 #v[0x12, 0x34, 0x56], .repeatNext 2, .packed 1 1 #v[0xF0],
      .rows (.byte 0x3C), .repeatNext 2, .rows (.above 1)]
  have wellFormed : RasterStream.WellFormed (.ofRectangle ⟨3, 5, 8, 30⟩) stream := by
    decide +kernel
  have holds : (Window.ofArray #[0xFF, 0x8D, 0x31, 0x12, 0x34, 0x56, 0xA2, 0x11, 0xF0, 0x83, 0x3C,
      0xA2, 0x86]).Holds 1 (RasterStream.bytes stream) := by
    unfold Window.Holds
    decide +kernel
  have rows : RasterStream.rows (.ofRectangle ⟨3, 5, 8, 30⟩) stream =
      [[0x001C279B], [0x00BC273B], [0x3C3C3C3C], [0x00BC273B], [0x3C3C3C3C]] := by
    decide +kernel
  obtain ⟨raster, decoded, found⟩ := decode_of_wellFormed wellFormed holds
  rw [rows] at found
  exact ⟨raster, decoded, found⟩

end Raster
end HyperCard
