import HyperCard.Rectangle

/-!
# Pictures

A raster packs pixels of one bit into words of 32, the leftmost pixel in the highest bit; a set
bit is black. A picture of a card has two layers, an image of black pixels over a mask of white
ones, and each layer may be a raster, a plain rectangle or nothing. A pixel outside both layers
is transparent.
-/
namespace HyperCard

/-- Rows of pixels, one bit each. -/
structure Raster where
  /-- The number of words in a row. -/
  wordsPerRow : Nat
  /-- The number of rows. -/
  height : Nat
  /-- The words, row after row. -/
  words : Array UInt32
  deriving DecidableEq, Repr, Inhabited

namespace Raster

/-- A raster without a black pixel. -/
def blank (wordsPerRow height : Nat) : Raster :=
  ⟨wordsPerRow, height, Array.replicate (wordsPerRow * height) 0⟩

/-- The number of pixels in a row. -/
def width (raster : Raster) : Nat := 32 * raster.wordsPerRow

/-- The words of a row, if they all lie in the raster. -/
def row? (raster : Raster) (y : Nat) : Option (List UInt32) :=
  let first := y * raster.wordsPerRow
  let last := first + raster.wordsPerRow
  if last ≤ raster.words.size then some (raster.words.extract first last).toList else none

/-- One pixel of a word, counted from the left. -/
def wordPixel (word : UInt32) (column : Nat) : Bool := word.toNat.testBit (31 - column)

/-- Whether a pixel is black; outside the raster none is. -/
def pixel (raster : Raster) (x y : Nat) : Bool :=
  x < raster.width && y < raster.height &&
    wordPixel (raster.words.getD (y * raster.wordsPerRow + x / 32) 0) (x % 32)

end Raster

/-- A layer of a picture. -/
inductive PictureLayer
  /-- Pixels, the rectangle that they fill, and the part of it that shows, from its corner. -/
  | bitmap (raster : Raster) (rasterRectangle realRectangle : Rectangle)
  /-- All pixels of a rectangle. -/
  | solid (extent : Rectangle)
  /-- No pixel. -/
  | clear
  deriving DecidableEq, Repr

/-- Whether a layer covers a pixel of the card. -/
def PictureLayer.covers (layer : PictureLayer) (x y : Int) : Bool :=
  match layer with
  | .bitmap raster rasterRectangle realRectangle =>
    let column := x - rasterRectangle.left
    let row := y - rasterRectangle.top
    realRectangle.contains column row && 0 ≤ column && 0 ≤ row &&
      raster.pixel column.toNat row.toNat
  | .solid extent => extent.contains x y
  | .clear => false

/-- What a pixel of a picture shows. -/
inductive Pixel
  /-- The image covers it. -/
  | black
  /-- Only the mask covers it. -/
  | white
  /-- Neither layer covers it. -/
  | transparent
  deriving DecidableEq, Repr

/-- A picture of a card or of a background. -/
structure Picture where
  /-- The number of columns. -/
  width : Int
  /-- The number of rows. -/
  height : Int
  /-- The black pixels. -/
  image : PictureLayer
  /-- The white pixels. -/
  mask : PictureLayer
  deriving DecidableEq, Repr

namespace Picture

/-- What a pixel shows. -/
def pixel (picture : Picture) (x y : Int) : Pixel :=
  if picture.image.covers x y then .black
  else if picture.mask.covers x y then .white
  else .transparent

/-- Eight pixels as a byte, the first in the highest bit. -/
def packedByte (isBlack : Nat → Bool) : UInt8 :=
  (List.range 8).foldl (fun byte bit => if isBlack bit then byte ||| 0x80 >>> bit.toUInt8 else byte)
    0

/-- A row of the portable bitmap format: eight pixels a byte, black pixels set, and the bits after
the last pixel clear. -/
def portableRow (picture : Picture) (width y : Nat) : List UInt8 :=
  (List.range ((width + 7) / 8)).map fun index =>
    packedByte fun bit =>
      8 * index + bit < width && picture.pixel ((8 * index + bit : Nat) : Int) y = .black

/-- The picture in the binary portable bitmap format, where what is not black is white. -/
def portableBitmap (picture : Picture) : List UInt8 :=
  let width := picture.width.toNat
  let height := picture.height.toNat
  ("P4\n" ++ toString width ++ " " ++ toString height ++ "\n").toUTF8.toList ++
    (List.range height).flatMap (picture.portableRow width)

end Picture
end HyperCard
