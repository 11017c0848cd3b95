import HyperCard.Archive.Version
import HyperCard.Picture.Decoder

/-!
# Blocks of pictures

A picture is stored as two compressed layers after a header that gives their rectangles and
lengths, the mask before the image. A layer of length zero is not compressed: it is its plain
rectangle. A block that ends with its header has two plain rectangles.
-/
namespace HyperCard

/-- The header of a picture. -/
structure BitmapBlock where
  /-- The whole block. -/
  data : Window
  /-- The identifier. -/
  identifier : Int
  /-- The rectangle of the card. -/
  cardRectangle : Rectangle
  /-- The rectangle of the mask. -/
  maskRectangle : Rectangle
  /-- The rectangle of the image. -/
  imageRectangle : Rectangle
  /-- The number of bytes of the mask. -/
  maskLength : Nat
  /-- The number of bytes of the image. -/
  imageLength : Nat
  /-- Where the layers begin. -/
  dataOffset : Nat

/-- How the layers of a picture were decoded; a layer without bytes is not decoded. -/
structure DecodeReport where
  /-- The mask. -/
  mask : Option Outcome
  /-- The image. -/
  image : Option Outcome
  deriving DecidableEq, Repr

/-- Whether no layer ended early. -/
def DecodeReport.isComplete (report : DecodeReport) : Bool :=
  report.mask.all (· = .complete) && report.image.all (· = .complete)

/-- A layer from its decoded raster, if it has one. The zero rectangle stands for no layer. -/
def PictureLayer.ofRaster (raster : Option Raster) (rectangle : Rectangle) : PictureLayer :=
  if rectangle.isZero then .clear
  else
    match raster with
    | none => .solid rectangle
    | some raster =>
      let aligned := rectangle.alignedToWords
      .bitmap raster aligned
        (.ofOrigin (rectangle.left - aligned.left) (rectangle.top - aligned.top) rectangle.width
          rectangle.height)

namespace BitmapBlock

/-- The header of a block. -/
def read (data : Window) (version : FormatVersion) : Except ArchiveError BitmapBlock := do
  let dataOffset := version.shift 0x40
  let (maskLength, imageLength) ←
    if dataOffset < data.length then
      pure (← data.unsigned 4 (version.shift 0x38), ← data.unsigned 4 (version.shift 0x3C))
    else pure (0, 0)
  return {
    data
    identifier := ← data.signed 4 0x08
    cardRectangle := ← data.rectangle (version.shift 0x18)
    maskRectangle := ← data.rectangle (version.shift 0x20)
    imageRectangle := ← data.rectangle (version.shift 0x28)
    maskLength
    imageLength
    dataOffset }

/-- Whether anything follows the header. -/
def hasPayload (block : BitmapBlock) : Bool := block.dataOffset < block.data.length

/-- A layer of the block, unless it has no bytes. -/
def decodeLayer (block : BitmapBlock) (offset length : Nat) (rectangle : Rectangle) :
    Except BitmapError (Option (Raster × Outcome)) :=
  if length = 0 then .ok none else some <$> Raster.decode block.data offset rectangle

/-- The picture of a block. -/
def decode (block : BitmapBlock) : Except BitmapError (Picture × DecodeReport) := do
  let width := block.cardRectangle.width
  let height := block.cardRectangle.height
  if block.hasPayload then
    let mask ← block.decodeLayer block.dataOffset block.maskLength block.maskRectangle
    let image ← block.decodeLayer (block.dataOffset + block.maskLength) block.imageLength
      block.imageRectangle
    return (⟨width, height, .ofRaster (image.map (·.1)) block.imageRectangle,
      .ofRaster (mask.map (·.1)) block.maskRectangle⟩, ⟨mask.map (·.2), image.map (·.2)⟩)
  else
    return (⟨width, height, .solid block.imageRectangle, .solid block.maskRectangle⟩, ⟨none, none⟩)

end BitmapBlock
end HyperCard
