import HyperCard.Proofs.Picture.Displacement

/-!
# What a truncation reports

A raster that is truncated comes with the byte that ended it, the place of that byte, and the number
of rows that were finished before. The bytes before the place have decided these rows: a step never
writes above the row that it begins in, so a stream that goes on in any other way has the same rows
in the end.
-/
namespace HyperCard

/-- The bytes that are no instructions. -/
theorem Instruction.ofByte_eq_unknown_iff (byte : UInt8) :
    Instruction.ofByte byte = .unknown ↔ byte = 0x87 ∨ 0x90 ≤ byte ∧ byte ≤ 0x9F :=
  @forall_byte
    (fun byte => Instruction.ofByte byte = .unknown ↔ byte = 0x87 ∨ 0x90 ≤ byte ∧ byte ≤ 0x9F)
    (by decide +kernel) byte

namespace Decoder

variable {frame : Frame} {state last : State} {words filled : Words} {first : Nat}

/-- Words that are kept before an index are kept before earlier ones. -/
theorem Keeps.mono (keeps : Keeps first words filled) {less : Nat} (above : less ≤ first) :
    Keeps less words filled :=
  ⟨keeps.size, fun index before => keeps.before index (Nat.lt_of_lt_of_le before above)⟩

/-- A run leaves the rows above the one that it begins in as they are. -/
theorem Keeps.of_reaches (reaches : Reaches frame state last) :
    Keeps state.1.rowStart state.2 last.2 := by
  induction reaches with
  | refl => exact Keeps.refl _ _
  | tail before step ih =>
    apply ih.trans
    exact (Keeps.of_step step).mono (Reaches.rowStart_le before)

end Decoder

namespace Raster

open Decoder (Reaches Halts Keeps Positioned Displacement)

variable {data other : Window} {offset place rows : Nat} {rectangle : Rectangle}
  {raster : Raster} {opcode : UInt8}

/-- Rows of the same width are the same where their words are. -/
theorem row?_congr {left right : Raster} (width : right.wordsPerRow = left.wordsPerRow) {y : Nat}
    (keeps : Keeps ((y + 1) * left.wordsPerRow) left.words right.words) :
    right.row? y = left.row? y := by
  rw [Nat.succ_mul] at keeps
  unfold row?
  simp only [width, keeps.size]
  by_cases fits : y * left.wordsPerRow + left.wordsPerRow ≤ left.words.size
  · rw [if_pos fits, if_pos fits]
    apply congrArg
    apply List.ext_getElem?
    intro index
    rw [Array.getElem?_toList, Array.getElem?_toList, Array.getElem?_extract,
      Array.getElem?_extract, keeps.size]
    split
    · exact keeps.before _ (by omega)
    · rfl
  · rw [if_neg fits, if_neg fits]

/-- Data with the bytes that a run has read lead it to the same words and the same row. -/
theorem reaches_over_other {last : Decoder.State}
    (reaches : Reaches (frame data rectangle) ((frame data rectangle).start offset) last)
    (same : ∀ index, offset ≤ index → index < last.1.offset → other.byte index = data.byte index) :
    ∃ also, Reaches (frame other rectangle) ((frame other rectangle).start offset) also ∧
      also.2 = last.2 ∧ also.1.rowStart = last.1.rowStart := by
  let stays : Displacement := ⟨offset, offset, 0⟩
  have within : last.1.offset ≤ max offset data.length := Decoder.Reaches.offset_le_length reaches
  have agrees : stays.Agrees (frame data rectangle).data other last.1.offset := by
    apply Displacement.Agrees.of_bytes within
    intro index starts before
    rw [Displacement.offset, Nat.sub_add_cancel starts]
    exact same index starts before
  have moved := Displacement.reaches_moved (Nat.le_refl offset) agrees reaches
  rw [state_start data other, ← frame_other data other rectangle offset offset] at moved
  exact ⟨_, moved, rfl, rfl⟩

/-- **A truncation is reported as it is.** Where decoding was truncated, the byte that is reported
stands at the place that is reported, which is not before the stream, and it is no instruction. The
number of rows is less than that of the raster, and these rows are final: data with the same bytes
from the offset up to that place and with anything behind them have the same first rows, whenever
they can be decoded over the same rectangle. -/
theorem truncation_exact
    (decoded : decode data offset rectangle = .ok (raster, .truncated rows opcode place)) :
    data.byte place = .ok opcode ∧ (opcode = 0x87 ∨ 0x90 ≤ opcode ∧ opcode ≤ 0x9F) ∧
      offset ≤ place ∧ rows < raster.height ∧
      ∀ (other : Window) (otherRaster : Raster) (outcome : Outcome),
        (∀ index, offset ≤ index → index < place → other.byte index = data.byte index) →
        decode other offset rectangle = .ok (otherRaster, outcome) →
        ∀ y < rows, ∃ row, raster.row? y = some row ∧ otherRaster.row? y = some row := by
  obtain ⟨last, reaches, halts, rfl⟩ := exists_halt_of_decode decoded
  have positioned := Positioned.reaches reaches
  have starts : offset ≤ last.1.offset := Decoder.Reaches.offset_le reaches
  cases halts with
  | @truncated progress words _ unfinished _ found unknown =>
    have inside := positioned.inside unfinished
    have rowStart := positioned.rowStart_eq
    have above := positioned.above
    dsimp only at inside rowStart above starts
    refine ⟨found, (Instruction.ofByte_eq_unknown_iff _).mp unknown, starts, ?_, ?_⟩
    · show _ < ((frame data rectangle).bottom - (frame data rectangle).top).toNat
      omega
    · intro other otherRaster outcome same decodedOther y finished
      obtain ⟨also, reachesAlso, sameWords, sameRow⟩ := reaches_over_other reaches same
      obtain ⟨ended, reachesEnd, haltsOther, rfl⟩ := exists_halt_of_decode decodedOther
      have onward := reachesAlso.before_end reachesEnd haltsOther
      have keeps := Keeps.of_reaches onward
      rw [sameWords, sameRow, rowStart] at keeps
      have before : (y + 1) * (frame data rectangle).wordsPerRow ≤ _ :=
        Nat.mul_le_mul_right _ finished
      have within : (y + 1) * (frame data rectangle).wordsPerRow ≤ words.size := by omega
      obtain ⟨row, shown⟩ := @exists_row? ((frame data rectangle).raster words) y within
      refine ⟨row, shown, ?_⟩
      rw [← shown]
      exact @row?_congr ((frame data rectangle).raster words)
        ((frame other rectangle).raster ended.2) rfl y (keeps.mono before)

/-- A black row, then a byte that goes past its row: in one stream a byte that is no instruction
follows, in the other one three rows that are copied from two rows above. -/
theorem truncation_exact_copied :
    ∃ raster otherRaster,
      decode (.ofArray #[0x82, 0x1F, 0xFF, 0x87]) 0 ⟨0, 0, 5, 32⟩ =
        .ok (raster, .truncated 2 0x87 3) ∧
      decode (.ofArray #[0x82, 0x1F, 0xFF, 0xA3, 0x86]) 0 ⟨0, 0, 5, 32⟩ =
        .ok (otherRaster, .complete) ∧
      2 < raster.height ∧ otherRaster ≠ raster ∧
      ∀ y < 2, ∃ row, raster.row? y = some row ∧ otherRaster.row? y = some row := by
  have first : ∃ result,
      decode (.ofArray #[0x82, 0x1F, 0xFF, 0x87]) 0 ⟨0, 0, 5, 32⟩ = .ok result ∧
        result = (⟨1, 5, #[0xFFFFFFFF, 0, 0, 0, 0xFF]⟩, .truncated 2 0x87 3) :=
    exists_of_check (by decide +kernel)
  have second : ∃ result,
      decode (.ofArray #[0x82, 0x1F, 0xFF, 0xA3, 0x86]) 0 ⟨0, 0, 5, 32⟩ = .ok result ∧
        result = (⟨1, 5, #[0xFFFFFFFF, 0, 0xFFFFFFFF, 0, 0xFFFFFFFF]⟩, .complete) :=
    exists_of_check (by decide +kernel)
  obtain ⟨_, decoded, rfl⟩ := first
  obtain ⟨_, decodedOther, rfl⟩ := second
  have same : ∀ index, 0 ≤ index → index < 3 →
      (Window.ofArray #[0x82, 0x1F, 0xFF, 0xA3, 0x86]).byte index =
        (Window.ofArray #[0x82, 0x1F, 0xFF, 0x87]).byte index := by
    intro index _ before
    match index, before with
    | 0, _ => rfl
    | 1, _ => rfl
    | 2, _ => rfl
  obtain ⟨_, _, _, inside, final⟩ := truncation_exact decoded
  exact ⟨_, _, decoded, decodedOther, inside, by decide,
    final (.ofArray #[0x82, 0x1F, 0xFF, 0xA3, 0x86]) _ _ same decodedOther⟩

end Raster
end HyperCard
