import HyperCard.Picture.BitmapBlock
import HyperCard.Proofs.Picture.Position

/-!
# What a picture shows

A layer is decoded over its rectangle widened to whole words, and the part of the raster that shows
is given from the corner of the raster. Together these come to the rectangle that the block
declares: a pixel of the card is covered when it lies in the rectangle and its bit is set, counted
from the rows of the rectangle and from the word that its left edge lies in. The bits of all pixels
of the rectangle lie in the raster.
-/
namespace HyperCard

/-- A rectangle contains its first column and row, and not those behind its last ones. -/
theorem Rectangle.contains_iff (rectangle : Rectangle) {x y : Int} :
    rectangle.contains x y = true ↔ rectangle.left ≤ x ∧ x < rectangle.right ∧
      rectangle.top ≤ y ∧ y < rectangle.bottom := by
  simp only [contains, Bool.and_eq_true, decide_eq_true_eq, and_assoc]

namespace Raster

variable {data : Window} {offset : Nat} {rectangle : Rectangle} {raster : Raster}
  {outcome : Outcome}

/-- The bit at a column and a row, if it lies in the raster. -/
def bit? (raster : Raster) (column row : Int) : Option Bool :=
  if 0 ≤ column ∧ column < raster.width ∧ 0 ≤ row ∧ row < raster.height then
    (fun word => word.toNat.testBit (31 - column.toNat % 32)) <$>
      raster.words[row.toNat * raster.wordsPerRow + column.toNat / 32]?
  else none

/-- A raster is as large as its rectangle, widened to whole words. -/
structure Fits (raster : Raster) (rectangle : Rectangle) : Prop where
  /-- Rows are whole words. -/
  wordsPerRow : raster.wordsPerRow = (rectangle.alignedToWords.width / 32).toNat
  /-- There is a row for each one of the rectangle. -/
  height : raster.height = rectangle.height.toNat
  /-- All words are there. -/
  size : raster.words.size = raster.wordsPerRow * raster.height

/-- What is decoded has the size of its rectangle. -/
theorem fits_of_decode (decoded : decode data offset rectangle = .ok (raster, outcome)) :
    raster.Fits rectangle := by
  obtain ⟨last, reaches, _, rfl⟩ := exists_halt_of_decode decoded
  refine ⟨rfl, ?_, (Decoder.Positioned.reaches reaches).size⟩
  show (frame data rectangle).extent.height = rectangle.height.toNat
  rw [extent_frame]
  rfl

/-- The bits of all pixels of the rectangle lie in the raster. -/
theorem Fits.exists_bit (fits : raster.Fits rectangle) {x y : Int}
    (inside : rectangle.contains x y = true) :
    ∃ bit, raster.bit? (x - 32 * (rectangle.left / 32)) (y - rectangle.top) = some bit := by
  obtain ⟨left, right, top, bottom⟩ := rectangle.contains_iff.mp inside
  have width := fits.wordsPerRow
  have height := fits.height
  unfold Rectangle.alignedToWords Rectangle.width at width
  unfold Rectangle.height at height
  dsimp only at width
  have within : 0 ≤ x - 32 * (rectangle.left / 32) ∧
      x - 32 * (rectangle.left / 32) < raster.width ∧
      0 ≤ y - rectangle.top ∧ y - rectangle.top < raster.height := by
    unfold Raster.width
    omega
  have row : (y - rectangle.top).toNat + 1 ≤ raster.height := by omega
  have words := Nat.mul_le_mul_right raster.wordsPerRow row
  have column : (x - 32 * (rectangle.left / 32)).toNat / 32 < raster.wordsPerRow := by
    unfold Raster.width at within
    omega
  have index : (y - rectangle.top).toNat * raster.wordsPerRow +
      (x - 32 * (rectangle.left / 32)).toNat / 32 < raster.words.size := by
    rw [fits.size, Nat.mul_comm raster.wordsPerRow]
    rw [Nat.add_mul, Nat.one_mul] at words
    omega
  rw [bit?, if_pos within, Array.getElem?_eq_getElem index]
  exact ⟨_, rfl⟩

/-- A pixel is black where its bit is set. -/
theorem pixel_eq_bit? (raster : Raster) (column row : Int) :
    (decide (0 ≤ column) && decide (0 ≤ row) && raster.pixel column.toNat row.toNat) =
      (raster.bit? column row).getD false := by
  by_cases within : 0 ≤ column ∧ column < raster.width ∧ 0 ≤ row ∧ row < raster.height
  · have across : column.toNat < raster.width := by omega
    have down : row.toNat < raster.height := by omega
    rw [bit?, if_pos within, pixel, decide_eq_true within.1, decide_eq_true within.2.2.1,
      decide_eq_true across, decide_eq_true down, Array.getD_eq_getD_getElem?]
    cases raster.words[row.toNat * raster.wordsPerRow + column.toNat / 32]? with
    | none => exact Nat.zero_testBit _
    | some word => rfl
  · rw [bit?, if_neg within]
    show _ = false
    by_contra covered
    rw [Bool.not_eq_false] at covered
    simp only [pixel, Bool.and_eq_true, decide_eq_true_eq] at covered
    omega

end Raster

/-- A layer as a block stores it. -/
structure StoredLayer where
  /-- The rectangle that the block declares. -/
  rectangle : Rectangle
  /-- Where the stream begins. -/
  offset : Nat
  /-- The number of bytes, which is zero when there is no stream. -/
  length : Nat

/-- The mask of a block. -/
def BitmapBlock.maskLayer (block : BitmapBlock) : StoredLayer :=
  ⟨block.maskRectangle, block.dataOffset, block.maskLength⟩

/-- The image of a block, which comes after the mask. -/
def BitmapBlock.imageLayer (block : BitmapBlock) : StoredLayer :=
  ⟨block.imageRectangle, block.dataOffset + block.maskLength, block.imageLength⟩

namespace StoredLayer

/-- The bit of a pixel of the card in the raster that is decoded for the layer. -/
def bit? (stored : StoredLayer) (data : Window) (x y : Int) : Option Bool :=
  match Raster.decode data stored.offset stored.rectangle with
  | .ok (raster, _) =>
    raster.bit? (x - 32 * (stored.rectangle.left / 32)) (y - stored.rectangle.top)
  | .error _ => none

/-- Whether a pixel of the card lies in the rectangle, and its bit is set where there are bits. -/
def Covers (stored : StoredLayer) (data : Window) (x y : Int) : Prop :=
  stored.rectangle.contains x y = true ∧ (stored.length = 0 ∨ stored.bit? data x y = some true)

instance (stored : StoredLayer) (data : Window) (x y : Int) : Decidable (stored.Covers data x y) :=
  inferInstanceAs (Decidable (_ ∧ _))

/-- Whether a layer of a picture shows what is stored. -/
structure Shows (stored : StoredLayer) (data : Window) (layer : PictureLayer) : Prop where
  /-- It covers the pixels that are stored as covered. -/
  covers : ∀ x y, layer.covers x y = true ↔ stored.Covers data x y
  /-- A stream has a bit for each pixel of the rectangle. -/
  inside : ∀ x y, stored.rectangle.contains x y = true → stored.length ≠ 0 →
    ∃ bit, stored.bit? data x y = some bit

/-- The image shows over the mask. -/
theorem Shows.pixel_eq {image mask : StoredLayer} {data : Window} {picture : Picture}
    (above : image.Shows data picture.image) (below : mask.Shows data picture.mask) (x y : Int) :
    picture.pixel x y =
      if image.Covers data x y then .black else if mask.Covers data x y then .white
      else .transparent := by
  unfold Picture.pixel
  simp only [above.covers x y, below.covers x y]

end StoredLayer

namespace PictureLayer

variable (rectangle : Rectangle) (x y : Int)

/-- The zero rectangle has no pixels. -/
theorem contains_of_isZero (zero : rectangle.isZero = true) : rectangle.contains x y = false := by
  have same : rectangle = .zero := of_decide_eq_true zero
  rw [same, Bool.eq_false_iff]
  intro inside
  have edges := Rectangle.zero.contains_iff.mp inside
  dsimp only [Rectangle.zero] at edges
  omega

/-- A layer without a raster is its rectangle. -/
theorem covers_ofRaster_none :
    (PictureLayer.ofRaster none rectangle).covers x y = rectangle.contains x y := by
  unfold PictureLayer.ofRaster
  split
  · rename_i zero
    exact (contains_of_isZero rectangle x y zero).symm
  · rfl

/-- The part of a raster that shows is the rectangle, wherever that lies in the raster. -/
theorem contains_ofOrigin (column row : Int) :
    (Rectangle.ofOrigin (rectangle.left - column) (rectangle.top - row) rectangle.width
      rectangle.height).contains (x - column) (y - row) = rectangle.contains x y := by
  rw [Bool.eq_iff_iff, Rectangle.contains_iff, Rectangle.contains_iff]
  unfold Rectangle.ofOrigin Rectangle.width Rectangle.height
  dsimp only
  omega

/-- A layer with a raster shows the bits of its rectangle. -/
theorem covers_ofRaster_some (raster : Raster) :
    (PictureLayer.ofRaster (some raster) rectangle).covers x y =
      (rectangle.contains x y && (raster.bit? (x - 32 * (rectangle.left / 32))
        (y - rectangle.top)).getD false) := by
  unfold PictureLayer.ofRaster
  split
  · rename_i zero
    rw [contains_of_isZero rectangle x y zero]
    rfl
  · have column : rectangle.alignedToWords.left = 32 * (rectangle.left / 32) := Int.mul_comm _ _
    rw [← Raster.pixel_eq_bit?, ← contains_ofOrigin rectangle x y (32 * (rectangle.left / 32))
      rectangle.top, ← column]
    show (_ && _ && _ && _) = _
    rw [Bool.and_assoc, Bool.and_assoc, Bool.and_assoc]
    rfl

end PictureLayer

namespace BitmapBlock

variable {block : BitmapBlock} {picture : Picture} {report : DecodeReport}

/-- A stored layer is shown as its rectangle, or as the raster that is decoded from its bytes. -/
theorem shows_of_decodeLayer {stored : StoredLayer} {layer : Option (Raster × Outcome)}
    (decoded : block.decodeLayer stored.offset stored.length stored.rectangle = .ok layer) :
    stored.Shows block.data (.ofRaster (layer.map (·.1)) stored.rectangle) := by
  unfold BitmapBlock.decodeLayer at decoded
  by_cases plain : stored.length = 0
  · rw [if_pos plain] at decoded
    cases decoded
    refine ⟨fun x y => ?_, fun _ _ _ some => absurd plain some⟩
    show (PictureLayer.ofRaster none stored.rectangle).covers x y = true ↔ _
    rw [PictureLayer.covers_ofRaster_none]
    exact ⟨fun inside => ⟨inside, .inl plain⟩, fun covers => covers.1⟩
  · rw [if_neg plain] at decoded
    cases result : Raster.decode block.data stored.offset stored.rectangle with
    | error error =>
      rw [result] at decoded
      cases decoded
    | ok found =>
      rw [result] at decoded
      cases decoded
      have bit (x y : Int) : stored.bit? block.data x y =
          found.1.bit? (x - 32 * (stored.rectangle.left / 32)) (y - stored.rectangle.top) := by
        rw [StoredLayer.bit?, result]
      refine ⟨fun x y => ?_, fun x y inside _ => ?_⟩
      · show (PictureLayer.ofRaster (some found.1) stored.rectangle).covers x y = true ↔ _
        rw [PictureLayer.covers_ofRaster_some, StoredLayer.Covers, bit, Bool.and_eq_true,
          or_iff_right plain]
        cases found.1.bit? (x - 32 * (stored.rectangle.left / 32)) (y - stored.rectangle.top) with
        | none =>
          exact ⟨fun covers => absurd covers.2 Bool.false_ne_true, fun covers => nomatch covers.2⟩
        | some bit => rw [Option.getD_some, Option.some_inj]
      · rw [bit]
        exact (Raster.fits_of_decode result).exists_bit inside

/-- **A picture shows what its block declares.** Each layer of a picture that is decoded covers the
pixels of its rectangle whose bits are set, or all of them where there are no bits, and all bits of
the rectangle are there. The image shows in black, and the rest of the mask in white. -/
theorem decode_shows (payload : block.hasPayload = true)
    (decoded : block.decode = .ok (picture, report)) :
    block.maskLayer.Shows block.data picture.mask ∧
      block.imageLayer.Shows block.data picture.image ∧
      ∀ x y, picture.pixel x y =
        if block.imageLayer.Covers block.data x y then .black
        else if block.maskLayer.Covers block.data x y then .white
        else .transparent := by
  unfold BitmapBlock.decode at decoded
  rw [if_pos payload] at decoded
  obtain ⟨mask, masked, decoded⟩ := exists_of_bind decoded
  obtain ⟨image, imaged, decoded⟩ := exists_of_bind decoded
  cases decoded
  have below : block.maskLayer.Shows block.data _ := shows_of_decodeLayer masked
  have above : block.imageLayer.Shows block.data _ := shows_of_decodeLayer imaged
  exact ⟨below, above, StoredLayer.Shows.pixel_eq above below⟩

/-- An image whose rectangle begins inside a word, over a mask without a stream: a black pixel to
the left of the rectangle does not show. -/
theorem decode_shows_inside :
    let block : BitmapBlock :=
      ⟨.ofArray #[0x83, 0x0C], 7, ⟨0, 0, 1, 64⟩, ⟨0, 0, 1, 32⟩, ⟨0, 5, 1, 20⟩, 0, 2, 0⟩
    ∃ picture report, block.decode = .ok (picture, report) ∧ picture.pixel 5 0 = .black ∧
      picture.pixel 4 0 = .white ∧ picture.pixel 40 0 = .transparent := by
  intro block
  let frame := Raster.frame block.data ⟨0, 5, 1, 20⟩
  let remembering : Decoder.Progress :=
    { ((Decoder.Progress.initial 0 0).taking 0x83).remember 0x0C with offset := 2 }
  let filled : Decoder.Progress := remembering.advanceRows 1 1
  have fills : Decoder.Step frame (frame.start 0) (filled, #[0x0C0C0C0C]) :=
    @Decoder.Step.instruction frame (.initial 0 0) filled frame.blank #[0x0C0C0C0C] 0x83
      (by decide) (by decide) rfl (by decide) rfl
  have ends : Decoder.Halts frame (filled, #[0x0C0C0C0C]) (.ok (#[0x0C0C0C0C], .complete)) :=
    .complete (by decide)
  have image : Raster.decode block.data 0 ⟨0, 5, 1, 20⟩ =
      .ok (⟨1, 1, #[0x0C0C0C0C]⟩, .complete) :=
    Raster.decode_eq_of_run (fills.run_eq.trans ends.run_eq)
  have decoded : block.decode = .ok (⟨64, 1, .ofRaster (some ⟨1, 1, #[0x0C0C0C0C]⟩) ⟨0, 5, 1, 20⟩,
      .ofRaster none ⟨0, 0, 1, 32⟩⟩, ⟨none, some .complete⟩) := by
    show ((some <$> Raster.decode block.data 0 ⟨0, 5, 1, 20⟩) >>= _) = _
    rw [image]
    rfl
  obtain ⟨_, _, pixels⟩ := @decode_shows block _ _ (by decide) decoded
  have bit (x y : Int) : block.imageLayer.bit? block.data x y =
      Raster.bit? ⟨1, 1, #[0x0C0C0C0C]⟩ x y := by
    show (match Raster.decode block.data 0 ⟨0, 5, 1, 20⟩ with
      | .ok (raster, _) => raster.bit? (x - 0) (y - 0)
      | .error _ => none) = _
    rw [image, Int.sub_zero, Int.sub_zero]
  refine ⟨_, _, decoded, ?_, ?_, ?_⟩
  · rw [pixels, if_pos ⟨by decide, .inr ((bit 5 0).trans (by decide))⟩]
  · rw [pixels, if_neg fun covers => absurd covers.1 (by decide), if_pos ⟨by decide, .inl rfl⟩]
  · rw [pixels, if_neg fun covers => absurd covers.1 (by decide),
      if_neg fun covers => absurd covers.1 (by decide)]

end BitmapBlock
end HyperCard
