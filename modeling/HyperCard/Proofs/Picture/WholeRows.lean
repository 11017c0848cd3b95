import HyperCard.Proofs.Picture.Changes
import HyperCard.Proofs.Picture.Termination

/-!
# Whole rows

An instruction for whole rows says what each of its rows is to be. All but one of them write every
word of their rows, so it does not matter what was there before: an earlier run may have begun the
row, or may have gone past the end of the row above it. The instruction for white rows writes
nothing. Its rows are white only where nothing was written to them before.
-/
namespace HyperCard

namespace Decoder

variable {frame : Frame} {progress later : Progress} {words filled : Words}

/-- The row that an instruction stands for, in the raster that it has led to. -/
inductive StandsFor (frame : Frame) (progress : Progress) (raster : Raster) (index : Nat) :
    UInt8 → List UInt32 → Prop
  /-- The words that follow. -/
  | copied {row : List UInt32} (length : row.length = frame.wordsPerRow)
      (read : ∀ column < frame.wordsPerRow, ∃ word,
        frame.data.unsigned 4 (progress.offset + 1 + 4 * column) = .ok word ∧
          row[column]? = some (UInt32.ofNat word)) :
      StandsFor frame progress raster index 0x80 row
  /-- White pixels. -/
  | white : StandsFor frame progress raster index 0x81 (List.replicate frame.wordsPerRow 0)
  /-- Black pixels. -/
  | black :
      StandsFor frame progress raster index 0x82 (List.replicate frame.wordsPerRow 0xFFFFFFFF)
  /-- The byte that follows. -/
  | byte {value : UInt8} (read : frame.data.byte (progress.offset + 1) = .ok value) :
      StandsFor frame progress raster index 0x83
        (List.replicate frame.wordsPerRow (RasterStream.wordOfBytes value value value value))
  /-- The byte that is remembered for the row. -/
  | remembered {value : UInt8}
      (known : progress.history.get (historySlot (frame.top + index)) = value) :
      StandsFor frame progress raster index 0x84
        (List.replicate frame.wordsPerRow (RasterStream.wordOfBytes value value value value))
  /-- The row above. -/
  | above {row : List UInt32} {source : Nat} (one : source + 1 = index)
      (found : raster.row? source = some row) : StandsFor frame progress raster index 0x85 row
  /-- The second row above. -/
  | secondAbove {row : List UInt32} {source : Nat} (two : source + 2 = index)
      (found : raster.row? source = some row) : StandsFor frame progress raster index 0x86 row

/-- What a word is filled with that does not depend on any other. -/
theorem Computed.of_constant {word : UInt32} {place : Nat}
    (computed : Computed (fun _ _ => .ok word) words place) : words[place]? = some word := by
  obtain ⟨value, found, there⟩ := computed
  cases found
  exact there

/-- A word that is filled from above is the same as the one above. -/
theorem Computed.above {distance place : Nat}
    (computed : Computed (wordAbove progress distance) words place) :
    distance ≤ place ∧ words[place - distance]? = words[place]? := by
  obtain ⟨value, found, there⟩ := computed
  unfold wordAbove at found
  by_cases missing : place < distance
  · rw [if_pos missing] at found
    cases found
  · rw [if_neg missing] at found
    refine ⟨Nat.not_lt.mp missing, ?_⟩
    cases source : words[place - distance]? with
    | none =>
      rw [source] at found
      cases found
    | some word =>
      rw [source] at found
      cases found
      exact there.symm

variable {state : State} {opcode : UInt8} {copy : Nat}

/-- One word for all places looks at no other words. -/
theorem looksBack_constant (word : UInt32) : LooksBack fun _ _ => .ok word :=
  fun _ _ _ _ _ => rfl

/-- The rows that an instruction fills with one word each. -/
theorem row_of_fillRows {word : Int → UInt32} {index : Nat} {row : List UInt32}
    (done : fillRows frame progress (fun y _ _ => .ok (word y)) progress.repetitions progress.y
      progress.rowStart words = .ok filled)
    (repeated : copy < progress.repetitions)
    (place : index * frame.wordsPerRow = progress.rowStart + copy * frame.wordsPerRow)
    (found : (frame.raster filled).row? index = some row) :
    row = List.replicate frame.wordsPerRow (word (progress.y + copy)) := by
  apply Raster.eq_replicate_of_row? found
  intro column inside
  have computed := (fillRows_spec done).2 (fun y => looksBack_constant (word y)) copy repeated
    column inside
  rw [← place] at computed
  exact computed.of_constant

/-- The rows that an instruction copies from so far above are the ones above. -/
theorem row_of_rowsAbove {distance index : Nat} {row : List UInt32} (positive : 0 < distance)
    (wide : 0 < frame.wordsPerRow)
    (done : written frame (.rowsAbove distance) progress words = .ok filled)
    (repeated : copy < progress.repetitions)
    (place : index * frame.wordsPerRow = progress.rowStart + copy * frame.wordsPerRow)
    (found : (frame.raster filled).row? index = some row) :
    ∃ source, source + distance = index ∧ (frame.raster filled).row? source = some row := by
  have looksBack := looksBack_wordAbove progress (Nat.mul_pos positive wide)
  have computed := (fillRows_spec done).2 (fun _ => looksBack) copy repeated
  rw [← place] at computed
  have far : distance * frame.wordsPerRow ≤ index * frame.wordsPerRow := (computed 0 wide).above.1
  have high : distance ≤ index := Nat.le_of_mul_le_mul_right far wide
  refine ⟨index - distance, Nat.sub_add_cancel high, ?_⟩
  apply Raster.row?_of_same (Nat.sub_le index distance) found
  intro column inside
  have same := (computed column inside).above.2
  have source : index * frame.wordsPerRow + column - distance * frame.wordsPerRow =
      (index - distance) * frame.wordsPerRow + column := by
    rw [Nat.sub_mul]
    omega
  rw [source] at same
  exact same

/-- An instruction for whole rows that are not white leaves the rows that it stands for. -/
theorem Takes.standsFor {index : Nat} {row : List UInt32}
    (takes : Takes frame opcode state (later, filled)) (positioned : Positioned frame state)
    (known : opcode ∈ [0x80, 0x82, 0x83, 0x84, 0x85, 0x86])
    (repeated : copy < state.1.repetitions) (same : frame.top + index = state.1.y + copy)
    (found : (frame.raster filled).row? index = some row) :
    StandsFor frame state.1 (frame.raster filled) index opcode row := by
  have wide : 0 < frame.wordsPerRow := by
    have short := takes.short
    omega
  have place : index * frame.wordsPerRow = state.1.rowStart + copy * frame.wordsPerRow := by
    have above := positioned.above
    have rows : index = (state.1.y - frame.top).toNat + copy := by omega
    rw [rows, Nat.add_mul, positioned.rowStart_eq]
  have done := (execute_ok takes.executed).1
  simp only [List.mem_cons, List.not_mem_nil, or_false] at known
  rcases known with rfl | rfl | rfl | rfl | rfl | rfl
  · have copied : Instruction.ofByte 0x80 = .copiedRows := by decide
    rw [copied] at done
    obtain ⟨_, length, shown⟩ := Raster.row?_eq_some_iff.mp found
    refine .copied length fun column inside => ?_
    obtain ⟨word, read, there⟩ := (copyRows_spec (Nat.le_refl _) done).2 copy repeated column inside
    refine ⟨word, read, ?_⟩
    rw [← shown column inside]
    show filled[index * frame.wordsPerRow + column]? = _
    rw [place, Nat.add_right_comm]
    exact there
  · have black : Instruction.ofByte 0x82 = .blackRows := by decide
    rw [black] at done
    rw [row_of_fillRows done repeated place found]
    exact .black
  · have byte : Instruction.ofByte 0x83 = .byteRows := by decide
    rw [byte] at done
    obtain ⟨value, read, done, _⟩ := exists_of_byteRows done
    rw [row_of_fillRows done repeated place found, replicate_eq]
    exact .byte read
  · have remembered : Instruction.ofByte 0x84 = .rememberedRows := by decide
    rw [remembered] at done
    rw [row_of_fillRows done repeated place found, replicate_eq]
    exact .remembered (by rw [same]; rfl)
  · have above : Instruction.ofByte 0x85 = .rowsAbove 1 := by decide
    rw [above] at done
    obtain ⟨source, one, there⟩ := row_of_rowsAbove (by decide) wide done repeated place found
    exact .above one there
  · have above : Instruction.ofByte 0x86 = .rowsAbove 2 := by decide
    rw [above] at done
    obtain ⟨source, two, there⟩ := row_of_rowsAbove (by decide) wide done repeated place found
    exact .secondAbove two there

/-- The instruction for white rows leaves its rows as they are. -/
theorem Takes.eq_of_white (takes : Takes frame 0x81 state (later, filled)) : filled = state.2 := by
  have white : Instruction.ofByte 0x81 = .whiteRows := by decide
  have done := (execute_ok takes.executed).1
  rw [white] at done
  cases done
  rfl

/-- The rows that it stands for are white. -/
theorem standsFor_white_iff {index : Nat} {raster : Raster} {row : List UInt32} :
    StandsFor frame progress raster index 0x81 row ↔ row = List.replicate frame.wordsPerRow 0 := by
  constructor
  · intro stands
    cases stands
    rfl
  · rintro rfl
    exact .white

/-- The instructions for whole rows that write them. -/
theorem mem_of_wholeRows : ∀ opcode : UInt8, 0x80 ≤ opcode ∧ opcode ≤ 0x86 → opcode ≠ 0x81 →
    opcode ∈ [0x80, 0x82, 0x83, 0x84, 0x85, 0x86] :=
  forall_byte (by decide +kernel)

end Decoder

namespace Raster

open Decoder (Reaches Takes StandsFor Positioned)

/-- **What instructions for whole rows leave behind.** Whenever a run of the decoder, over any
block, offset and rectangle, takes an instruction for whole rows, each of its rows that lies in the
raster is afterwards what the instruction stands for, whatever was written there before, unless the
instruction is the one for white rows. That one leaves its rows as they are, so they are white
exactly where they were white before. -/
theorem wholeRow_stands_iff {data : Window} {offset : Nat} {rectangle : Rectangle} {opcode : UInt8}
    {state next : Decoder.State} {copy index : Nat}
    (reaches : Reaches (frame data rectangle) ((frame data rectangle).start offset) state)
    (takes : Takes (frame data rectangle) opcode state next)
    (wholeRows : 0x80 ≤ opcode ∧ opcode ≤ 0x86) (repeated : copy < state.1.repetitions)
    (same : rectangle.top + index = state.1.y + copy) (inside : index < rectangle.height.toNat) :
    ∃ row, ((frame data rectangle).raster next.2).row? index = some row ∧
      (StandsFor (frame data rectangle) state.1 ((frame data rectangle).raster next.2) index opcode
          row ↔
        (opcode = 0x81 → ((frame data rectangle).raster state.2).row? index =
          some (List.replicate (frame data rectangle).wordsPerRow 0))) := by
  obtain ⟨later, filled⟩ := next
  have positioned := Positioned.reaches reaches
  have size := (positioned.step takes.step).size
  have same : (frame data rectangle).top + index = state.1.y + copy := same
  have fits : (index + 1) * (frame data rectangle).wordsPerRow ≤ filled.size := by
    have height : (frame data rectangle).extent.height = rectangle.height.toNat := by
      rw [extent_frame]
      rfl
    rw [size, height, Nat.mul_comm _ rectangle.height.toNat]
    exact Nat.mul_le_mul_right _ inside
  obtain ⟨row, found⟩ := @exists_row? ((frame data rectangle).raster filled) index fits
  refine ⟨row, found, ?_⟩
  by_cases white : opcode = 0x81
  · subst white
    rw [Decoder.standsFor_white_iff, ← takes.eq_of_white, found]
    constructor
    · intro blank _
      rw [blank]
    · intro blank
      exact Option.some_inj.mp (blank rfl)
  · have known := Decoder.mem_of_wholeRows opcode wholeRows white
    have stands := takes.standsFor positioned known repeated same found
    exact iff_of_true stands fun stated => absurd stated white

/-- A black byte, then a row of another byte: nothing of the first one is left. -/
theorem wholeRow_stands_iff_byte :
    let stream := frame (.ofArray #[0x10, 0xFF, 0x83, 0x0F]) ⟨0, 0, 1, 32⟩
    ∃ state next, Reaches stream (stream.start 0) state ∧ state.2 = #[0xFF000000] ∧
      Takes stream 0x83 state next ∧
      ∃ row, (stream.raster next.2).row? 0 = some row ∧
        StandsFor stream state.1 (stream.raster next.2) 0 0x83 row := by
  have begins : Reaches (frame (.ofArray #[0x10, 0xFF, 0x83, 0x0F]) ⟨0, 0, 1, 32⟩)
      ((frame (.ofArray #[0x10, 0xFF, 0x83, 0x0F]) ⟨0, 0, 1, 32⟩).start 0)
      (⟨2, 0x10, 0, 0, 0, 8, 1, 0, 0, Decoder.initialHistory⟩, #[0xFF000000]) :=
    .single (.instruction (by decide) (by decide) (show Window.byte _ 0 = .ok 0x10 from rfl)
      (by decide) rfl)
  have takes : Takes (frame (.ofArray #[0x10, 0xFF, 0x83, 0x0F]) ⟨0, 0, 1, 32⟩) 0x83
      (⟨2, 0x10, 0, 0, 0, 8, 1, 0, 0, Decoder.initialHistory⟩, #[0xFF000000]) _ :=
    ⟨.instruction (by decide) (by decide) (show Window.byte _ 2 = .ok 0x83 from rfl) (by decide)
      rfl, by decide, rfl⟩
  obtain ⟨row, found, stands⟩ := @wholeRow_stands_iff _ 0 ⟨0, 0, 1, 32⟩ _ _ _ 0 0 begins takes
    (by decide) (by decide) rfl (by decide)
  exact ⟨_, _, begins, rfl, takes, row, found, stands.mpr (by decide)⟩

/-- A black byte, then the instruction for white rows: the row is not white. -/
theorem exists_whiteRow_black :
    let stream := frame (.ofArray #[0x10, 0xFF, 0x81]) ⟨0, 0, 1, 32⟩
    decode (.ofArray #[0x10, 0xFF, 0x81]) 0 ⟨0, 0, 1, 32⟩ =
        .ok (⟨1, 1, #[0xFF000000]⟩, .complete) ∧
      ∃ state next, Reaches stream (stream.start 0) state ∧ Takes stream 0x81 state next ∧
        state.1.y = 0 ∧ state.1.repetitions = 1 ∧
        (stream.raster next.2).row? 0 = some [0xFF000000] ∧
        ¬StandsFor stream state.1 (stream.raster next.2) 0 0x81 [0xFF000000] := by
  have decoded : ∃ result,
      decode (.ofArray #[0x10, 0xFF, 0x81]) 0 ⟨0, 0, 1, 32⟩ = .ok result ∧
        result = (⟨1, 1, #[0xFF000000]⟩, .complete) :=
    exists_of_check (by decide +kernel)
  obtain ⟨_, decoded, rfl⟩ := decoded
  have begins : Reaches (frame (.ofArray #[0x10, 0xFF, 0x81]) ⟨0, 0, 1, 32⟩)
      ((frame (.ofArray #[0x10, 0xFF, 0x81]) ⟨0, 0, 1, 32⟩).start 0)
      (⟨2, 0x10, 0, 0, 0, 8, 1, 0, 0, Decoder.initialHistory⟩, #[0xFF000000]) :=
    .single (.instruction (by decide) (by decide) (show Window.byte _ 0 = .ok 0x10 from rfl)
      (by decide) rfl)
  have takes : Takes (frame (.ofArray #[0x10, 0xFF, 0x81]) ⟨0, 0, 1, 32⟩) 0x81
      (⟨2, 0x10, 0, 0, 0, 8, 1, 0, 0, Decoder.initialHistory⟩, #[0xFF000000]) _ :=
    ⟨.instruction (by decide) (by decide) (show Window.byte _ 2 = .ok 0x81 from rfl) (by decide)
      rfl, by decide, rfl⟩
  refine ⟨decoded, _, _, begins, takes, rfl, rfl, rfl, ?_⟩
  rw [Decoder.standsFor_white_iff]
  decide

end Raster
end HyperCard
