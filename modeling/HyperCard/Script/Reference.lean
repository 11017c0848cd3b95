import HyperCard.Script.Expression

/-!
# References to objects

The words by which scripts refer to the objects of the program: stacks, backgrounds, cards, and
the buttons and fields on them.
-/
namespace HyperCard

/-- A position in a sequence. -/
inductive Ordinal
  /-- Counted from the first. -/
  | number (position : Expression)
  /-- The last one. -/
  | last
  /-- The one in the middle. -/
  | middle
  /-- One chosen at random. -/
  | any
  deriving Repr

/-- A position relative to the current object. -/
inductive RelativePosition
  /-- The current object. -/
  | current
  /-- The one after it. -/
  | next
  /-- The one before it. -/
  | previous
  deriving DecidableEq, Repr

/-- How an object is chosen among its siblings. -/
inductive Identification
  /-- By position. -/
  | ordinal (position : Ordinal)
  /-- By its lasting number. -/
  | identifier (number : Expression)
  /-- By name. -/
  | name (text : Expression)
  deriving Repr

/-- Quoted text names an object; any other expression is its position. -/
def Identification.ofExpression : Expression → Identification
  | .string text => .name (.string text)
  | other => .ordinal (.number other)

/-- One of the cards or of the backgrounds. -/
inductive LayerReference
  /-- By its place beside the current one. -/
  | relative (position : RelativePosition)
  /-- Among all of them. -/
  | absolute (which : Identification)
  deriving Repr

/-- A card, perhaps among those of one background. -/
structure CardReference where
  /-- Which card. -/
  card : LayerReference
  /-- The background it is looked for in. -/
  background : Option LayerReference
  deriving Repr

/-- The current card. -/
def CardReference.current : CardReference := ⟨.relative .current, none⟩

/-- What kind of part is meant. -/
inductive PartKind
  /-- A button. -/
  | button
  /-- A field. -/
  | field
  /-- Either of the two. -/
  | part
  deriving DecidableEq, Repr

/-- The two layers that parts belong to. -/
inductive Layer
  /-- The card's own. -/
  | card
  /-- The one shared by the cards of a background. -/
  | background
  deriving DecidableEq, Repr

/-- The layer of a part for which none is named: fields belong to the background. -/
def PartKind.usualLayer : PartKind → Layer
  | .field => .background
  | .button | .part => .card

/-- A button or a field. -/
structure PartReference where
  /-- Button, field or either. -/
  kind : PartKind
  /-- The layer it is on. -/
  layer : Layer
  /-- Which of them. -/
  which : Identification
  /-- The card it is looked for on. -/
  card : Option CardReference
  deriving Repr

/-- A stack. -/
inductive StackReference
  /-- The current stack. -/
  | current
  /-- The stack with a name. -/
  | named (name : Expression)
  deriving Repr

/-- Any object that a script can name. -/
inductive ObjectReference
  /-- The object whose script runs. -/
  | me
  /-- The program itself. -/
  | hyperCard
  /-- A stack. -/
  | stack (stack : StackReference)
  /-- A background. -/
  | background (background : LayerReference)
  /-- A card. -/
  | card (card : CardReference)
  /-- A button or a field. -/
  | part (part : PartReference)
  deriving Repr

end HyperCard
