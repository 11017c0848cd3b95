import HyperCard.Picture.BitmapBlock
import HyperCard.Proofs.Picture.Displacement

/-!
# Which bytes a mask is decoded from

A block declares the number of bytes of its mask, and the image begins behind them. Decoding the
mask looks at this number only to know whether there is a mask: it ends with the last row, or with a
byte that is no instruction, wherever that stands. A mask whose stream ends within its own bytes
depends on nothing else, and that is so exactly when the block may be cut off behind them. A mask
whose stream is too short goes on with the bytes of the image.
-/
namespace HyperCard

namespace Raster

open Decoder (Displacement Reaches Halts)

variable {data other : Window} {offset stop : Nat} {rectangle : Rectangle}

/-- Other data with the bytes that decoding reads are read as far and decoded in the same way. -/
theorem ReadsUpTo.congr (reads : ReadsUpTo data offset rectangle stop)
    (same : ∀ place, offset ≤ place → place < stop → other.byte place = data.byte place) :
    ReadsUpTo other offset rectangle stop ∧
      decode other offset rectangle = decode data offset rectangle := by
  have fits := reads.bounds.2
  obtain ⟨last, words, outcome, reaches, halts, rfl⟩ := reads
  let stays : Displacement := ⟨offset, offset, 0⟩
  have place {place : Nat} (starts : offset ≤ place) : stays.offset place = place :=
    Nat.sub_add_cancel starts
  have later : offset ≤ last.1.offset := Reaches.offset_le reaches
  have agrees : stays.Agrees (frame data rectangle).data other (outcome.stop last.1.offset) :=
    .of_bytes fits fun index starts within => (place starts).symm ▸ same index starts within
  have ending : stays.outcome outcome = outcome := by
    cases halts with
    | complete _ => rfl
    | truncated _ _ _ _ => exact congrArg _ (place later)
  have reachesOther := Displacement.reaches_moved (Nat.le_refl offset)
    (agrees.mono halts.stop_bounds.1) reaches
  have haltsOther := @Displacement.halts_moved stays _ other last (.ok (words, outcome)) later
    agrees halts
  rw [← frame_other data other rectangle offset offset] at reachesOther haltsOther
  rw [state_start data other] at reachesOther
  have result : stays.result (.ok (words, outcome)) = .ok (words, outcome) :=
    congrArg (fun ending => Except.ok (words, ending)) ending
  rw [result] at haltsOther
  refine ⟨⟨_, words, outcome, reachesOther, haltsOther, ?_⟩, ?_⟩
  · exact congrArg outcome.stop (place later).symm
  · rw [decode_eq_of_run ((Reaches.run_eq reaches).trans halts.run_eq)]
    exact decode_eq_of_run ((Reaches.run_eq reachesOther).trans haltsOther.run_eq)

end Raster

namespace BitmapBlock

/-- Where the bytes of the mask end and those of the image begin. -/
def maskEnd (block : BitmapBlock) : Nat := block.dataOffset + block.maskLength

/-- What is decoded for the mask. -/
def decodeMask (block : BitmapBlock) : Except BitmapError (Option (Raster × Outcome)) :=
  block.decodeLayer block.dataOffset block.maskLength block.maskRectangle

/-- Whether the mask is decoded from no other bytes than its own. -/
def KeepsMask (block : BitmapBlock) : Prop :=
  block.maskLength = 0 ∨ ∃ stop ≤ block.maskEnd,
    Raster.ReadsUpTo block.data block.dataOffset block.maskRectangle stop

/-- The block cut off behind its mask. -/
def withoutImage (block : BitmapBlock) : BitmapBlock :=
  { block with
    data := {
      block.data with
      length := min block.data.length block.maskEnd
      inside := by
        have inside := block.data.inside
        omega } }

/-- Whether another block has the same header and the same bytes for its mask. -/
structure SharesMask (block other : BitmapBlock) : Prop where
  /-- All fields of the headers are equal. -/
  header : { other with data := block.data } = block
  /-- Both headers are followed by layers, or neither is. -/
  payload : other.hasPayload = block.hasPayload
  /-- The bytes of the masks are equal. -/
  mask : ∀ place, block.dataOffset ≤ place → place < block.maskEnd →
    other.data.byte place = block.data.byte place

variable {block other : BitmapBlock}

/-- A mask that is decoded from its own bytes is the same in every block that has these. -/
theorem KeepsMask.decodeMask_eq (keeps : block.KeepsMask) (shares : block.SharesMask other) :
    other.decodeMask = block.decodeMask := by
  obtain ⟨header, _, mask⟩ := shares
  have same : other.decodeMask = { block with data := other.data }.decodeMask := by
    rw [← header]
  rw [same, decodeMask, decodeMask, decodeLayer, decodeLayer]
  obtain none | ⟨stop, within, reads⟩ := keeps
  · rw [if_pos none, if_pos none]
  · have decoded := (reads.congr fun place starts before =>
      mask place starts (Nat.lt_of_lt_of_le before within)).2
    dsimp only
    rw [decoded]

/-- What stands behind the mask may be left out. -/
theorem byte_withoutImage {place : Nat} (before : place < block.maskEnd) :
    block.withoutImage.data.byte place = block.data.byte place := by
  unfold withoutImage Window.byte
  dsimp only
  by_cases inside : place < block.data.length
  · rw [dif_pos inside, dif_pos (by omega)]
  · have short : min block.data.length block.maskEnd = block.data.length := by omega
    rw [dif_neg inside, dif_neg (by omega), short]

/-- A block that is cut off behind its mask has the same mask. -/
theorem sharesMask_withoutImage (some : block.maskLength ≠ 0) :
    block.SharesMask block.withoutImage where
  header := rfl
  payload := by
    have more : block.dataOffset < min block.data.length block.maskEnd ↔
        block.dataOffset < block.data.length := by
      unfold maskEnd
      omega
    exact decide_eq_decide.mpr more
  mask _ _ before := byte_withoutImage before

/-- A mask that can be decoded from its own bytes is decoded from them. -/
theorem keepsMask_of_withoutImage {layer : Option (Raster × Outcome)}
    (decoded : block.withoutImage.decodeMask = .ok layer) : block.KeepsMask := by
  by_cases none : block.maskLength = 0
  · exact .inl none
  · have decoded : some <$> Raster.decode block.withoutImage.data block.dataOffset
        block.maskRectangle = .ok layer := (if_neg none).symm.trans decoded
    cases result : Raster.decode block.withoutImage.data block.dataOffset block.maskRectangle with
    | error error =>
      rw [result] at decoded
      cases decoded
    | ok found =>
      obtain ⟨stop, reads, _, fits⟩ := Raster.exists_readsUpTo result
      have within : stop ≤ block.maskEnd := by
        have short : block.withoutImage.data.length ≤ block.maskEnd := Nat.min_le_right _ _
        have starts : block.dataOffset ≤ block.maskEnd := Nat.le_add_right _ _
        omega
      have also := (reads.congr fun place _ before =>
        (byte_withoutImage (Nat.lt_of_lt_of_le before within)).symm).1
      exact .inr ⟨stop, within, also⟩

/-- The mask of a picture is what is decoded for it. -/
theorem mask_of_decode {picture : Picture} {report : DecodeReport}
    (payload : block.hasPayload = true) (decoded : block.decode = .ok (picture, report)) :
    ∃ layer, block.decodeMask = .ok layer ∧
      picture.mask = .ofRaster (layer.map (·.1)) block.maskRectangle ∧
      report.mask = layer.map (·.2) := by
  unfold decode at decoded
  rw [if_pos payload] at decoded
  obtain ⟨mask, masked, decoded⟩ := exists_of_bind decoded
  obtain ⟨image, _, decoded⟩ := exists_of_bind decoded
  cases decoded
  exact ⟨mask, masked, rfl, rfl⟩

/-- A block without layers has plain rectangles. -/
theorem plain_of_decode {picture : Picture} {report : DecodeReport}
    (plain : ¬block.hasPayload = true) (decoded : block.decode = .ok (picture, report)) :
    picture.mask = .solid block.maskRectangle ∧ report.mask = none := by
  unfold decode at decoded
  rw [if_neg plain] at decoded
  cases decoded
  exact ⟨rfl, rfl⟩

/-- **A mask that ends in time comes from its own bytes.** Where decoding the mask of a block reads
none but the bytes that the header declares for it, every block with the same header and the same
bytes there shows the same mask, and says the same about how it was decoded. And only there: when
every such block has the same mask decoded, no byte behind those has been read. -/
theorem mask_from_own_bytes (block : BitmapBlock) :
    (block.KeepsMask → ∀ other picture report otherPicture otherReport, block.SharesMask other →
      block.decode = .ok (picture, report) → other.decode = .ok (otherPicture, otherReport) →
      otherPicture.mask = picture.mask ∧ otherReport.mask = report.mask) ∧
    ∀ layer, block.decodeMask = .ok layer →
      (block.KeepsMask ↔ ∀ other, block.SharesMask other → other.decodeMask = .ok layer) := by
  refine ⟨fun keeps other picture report otherPicture otherReport shares decoded decodedOther => ?_,
    fun layer decoded => ⟨fun keeps other shares => ?_, fun determined => ?_⟩⟩
  · have rectangle : other.maskRectangle = block.maskRectangle :=
      congrArg (·.maskRectangle) shares.header
    by_cases payload : block.hasPayload = true
    · obtain ⟨layer, masked, mask, outcome⟩ := mask_of_decode payload decoded
      obtain ⟨_, maskedOther, maskOther, outcomeOther⟩ :=
        mask_of_decode (shares.payload.trans payload) decodedOther
      cases maskedOther.symm.trans ((keeps.decodeMask_eq shares).trans masked)
      rw [maskOther, outcomeOther, rectangle]
      exact ⟨mask.symm, outcome.symm⟩
    · have plainOther : ¬other.hasPayload = true := by
        rw [shares.payload]
        exact payload
      obtain ⟨mask, outcome⟩ := plain_of_decode payload decoded
      obtain ⟨maskOther, outcomeOther⟩ := plain_of_decode plainOther decodedOther
      rw [maskOther, outcomeOther, rectangle]
      exact ⟨mask.symm, outcome.symm⟩
  · exact (keeps.decodeMask_eq shares).trans decoded
  · by_cases none : block.maskLength = 0
    · exact .inl none
    · exact keepsMask_of_withoutImage (determined _ (sharesMask_withoutImage none))

end BitmapBlock

/-- A layer of one row of 32 pixels. -/
def oneRow (word : UInt32) : PictureLayer :=
  .bitmap ⟨1, 1, #[word]⟩ ⟨0, 0, 1, 32⟩ ⟨0, 0, 1, 32⟩

/-- A block of such layers, with one byte for the mask and five for the image, of which one is
given. -/
def oneRowBlock (mask pixels : UInt8) : BitmapBlock where
  data := .ofArray (List.replicate 8 0 ++ [0, 0, 0x13, 0x88] ++ List.replicate 16 0 ++
    [0, 1, 0, 32] ++ List.replicate 4 0 ++ [0, 1, 0, 32] ++ List.replicate 4 0 ++ [0, 1, 0, 32] ++
    List.replicate 8 0 ++ [0, 0, 0, 1, 0, 0, 0, 5, mask, 0x40, pixels, 0, 0, 0]).toArray
  identifier := 5000
  cardRectangle := ⟨0, 0, 1, 32⟩
  maskRectangle := ⟨0, 0, 1, 32⟩
  imageRectangle := ⟨0, 0, 1, 32⟩
  maskLength := 1
  imageLength := 5
  dataOffset := 0x40

/-- Other pixels are no part of the mask. -/
theorem sharesMask_oneRowBlock (mask pixels others : UInt8) :
    (oneRowBlock mask pixels).SharesMask (oneRowBlock mask others) where
  header := rfl
  payload := rfl
  mask place starts before := by
    have only : place = 0x40 := Nat.le_antisymm (Nat.le_of_lt_succ before) starts
    subst only
    rfl

/-- A black row for a mask ends with its own byte, so another image leaves it as it is. -/
theorem mask_from_own_bytes_black :
    (oneRowBlock 0x82 0xF0).KeepsMask ∧ ∃ picture report otherPicture otherReport,
      (oneRowBlock 0x82 0xF0).decode = .ok (picture, report) ∧
      (oneRowBlock 0x82 0x0F).decode = .ok (otherPicture, otherReport) ∧
      otherPicture.mask = picture.mask ∧ otherReport.mask = report.mask ∧
      otherPicture.image ≠ picture.image := by
  have alone : ∃ layer, (oneRowBlock 0x82 0xF0).withoutImage.decodeMask = .ok layer ∧
      layer = some (⟨1, 1, #[0xFFFFFFFF]⟩, .complete) :=
    exists_of_check (by decide +kernel)
  have decoded : ∃ result, (oneRowBlock 0x82 0xF0).decode = .ok result ∧
      result.1.image = oneRow 0xF0000000 := exists_of_check (by decide +kernel)
  have decodedOther : ∃ result, (oneRowBlock 0x82 0x0F).decode = .ok result ∧
      result.1.image = oneRow 0x0F000000 := exists_of_check (by decide +kernel)
  obtain ⟨layer, alone, _⟩ := alone
  obtain ⟨⟨picture, report⟩, shown, image⟩ := decoded
  obtain ⟨⟨otherPicture, otherReport⟩, shownOther, imageOther⟩ := decodedOther
  have keeps := BitmapBlock.keepsMask_of_withoutImage alone
  obtain ⟨mask, outcome⟩ := (BitmapBlock.mask_from_own_bytes (oneRowBlock 0x82 0xF0)).1 keeps
    (oneRowBlock 0x82 0x0F) picture report otherPicture otherReport
    (sharesMask_oneRowBlock 0x82 0xF0 0x0F) shown shownOther
  refine ⟨keeps, picture, report, otherPicture, otherReport, shown, shownOther, mask, outcome, ?_⟩
  dsimp only at image imageOther
  rw [image, imageOther]
  decide

/-- **A mask that is too short goes on with the image.** The one byte of the mask is an instruction
for four bytes of pixels, so the first four bytes of the image are its pixels, and two blocks that
differ in their images alone have different masks. -/
theorem exists_mask_from_image :
    ∃ block other picture report otherPicture otherReport,
      BitmapBlock.read block.data .two = .ok block ∧ BitmapBlock.read other.data .two = .ok other ∧
      block.SharesMask other ∧ block.decode = .ok (picture, report) ∧
      other.decode = .ok (otherPicture, otherReport) ∧ otherPicture.mask ≠ picture.mask := by
  have read : BitmapBlock.read (oneRowBlock 0x40 0xF0).data .two =
      .ok (oneRowBlock 0x40 0xF0) := by
    set_option maxRecDepth 4000 in rfl
  have readOther : BitmapBlock.read (oneRowBlock 0x40 0x0F).data .two =
      .ok (oneRowBlock 0x40 0x0F) := by
    set_option maxRecDepth 4000 in rfl
  have decoded : ∃ result, (oneRowBlock 0x40 0xF0).decode = .ok result ∧
      result.1.mask = oneRow 0x40F00000 := exists_of_check (by decide +kernel)
  have decodedOther : ∃ result, (oneRowBlock 0x40 0x0F).decode = .ok result ∧
      result.1.mask = oneRow 0x400F0000 := exists_of_check (by decide +kernel)
  obtain ⟨⟨picture, report⟩, shown, mask⟩ := decoded
  obtain ⟨⟨otherPicture, otherReport⟩, shownOther, maskOther⟩ := decodedOther
  refine ⟨_, _, picture, report, otherPicture, otherReport, read, readOther,
    sharesMask_oneRowBlock 0x40 0xF0 0x0F, shown, shownOther, ?_⟩
  dsimp only at mask maskOther
  rw [mask, maskOther]
  decide

end HyperCard
