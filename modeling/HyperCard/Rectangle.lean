/-!
# Rectangles

Rectangles of pixels by their four edges. The top and left edges are inside and the others are
outside, so a rectangle whose edges are out of order has no pixel. Sizes are never negative.
-/
namespace HyperCard

/-- A rectangle by its edges. -/
structure Rectangle where
  /-- The first row. -/
  top : Int
  /-- The first column. -/
  left : Int
  /-- The row after the last. -/
  bottom : Int
  /-- The column after the last. -/
  right : Int
  deriving DecidableEq, Repr, Inhabited

namespace Rectangle

/-- All edges at the origin, which stands for no rectangle. -/
def zero : Rectangle := ⟨0, 0, 0, 0⟩

/-- The rectangle of a size with its first column and row. -/
def ofOrigin (x y width height : Int) : Rectangle := ⟨y, x, y + height, x + width⟩

/-- Number of columns. -/
def width (rectangle : Rectangle) : Int := max (rectangle.right - rectangle.left) 0

/-- Number of rows. -/
def height (rectangle : Rectangle) : Int := max (rectangle.bottom - rectangle.top) 0

/-- Whether the rectangle stands for none. -/
def isZero (rectangle : Rectangle) : Bool := rectangle = zero

/-- Whether a pixel lies inside. -/
def contains (rectangle : Rectangle) (x y : Int) : Bool :=
  rectangle.left ≤ x && x < rectangle.right && rectangle.top ≤ y && y < rectangle.bottom

/-- The least rectangle around this one whose rows are whole words of 32 pixels. -/
def alignedToWords (rectangle : Rectangle) : Rectangle :=
  { rectangle with
    left := rectangle.left / 32 * 32
    right := (rectangle.right + 31) / 32 * 32 }

end Rectangle
end HyperCard
