import HyperCard.Number.Shortest
import HyperCard.Script.Command

/-!
# Outlines of parsed scripts

The structure of a parsed line as text. An outline is a tree of names, each with parts in order
or by label; it is written in one line, or with one part a line, each level four spaces further
in and a comma after every part.
-/
namespace HyperCard

/-- The structure of a value. -/
inductive Outline
  /-- A value without parts. -/
  | leaf (text : String)
  /-- A name with parts in order. -/
  | node (name : String) (parts : List Outline)
  /-- A name with parts by label. -/
  | record (name : String) (parts : List (String × Outline))
  /-- Values in order. -/
  | list (items : List Outline)
  deriving Inhabited

namespace Outline

mutual

/-- The outline in one line. -/
def inline : Outline → String
  | .leaf text => text
  | .node name parts => name ++ "(" ++ ", ".intercalate (inlineParts parts) ++ ")"
  | .record name parts =>
    name ++ " \x7b " ++ ", ".intercalate (inlineFields parts) ++ " \x7d"
  | .list items => "[" ++ ", ".intercalate (inlineParts items) ++ "]"

/-- Parts in one line each. -/
def inlineParts : List Outline → List String
  | [] => []
  | part :: parts => part.inline :: inlineParts parts

/-- Parts after their labels, in one line each. -/
def inlineFields : List (String × Outline) → List String
  | [] => []
  | (label, part) :: parts => (label ++ ": " ++ part.inline) :: inlineFields parts

end

/-- The start of a line so many levels in. -/
def margin (depth : Nat) : String := String.ofList (List.replicate (4 * depth) ' ')

mutual

/-- The outline so many levels in, with one part a line. -/
def indentedAt (depth : Nat) : Outline → String
  | .leaf text => text
  | .node name parts => name ++ "(\n" ++ indentedParts (depth + 1) parts ++ margin depth ++ ")"
  | .record name parts =>
    name ++ " \x7b\n" ++ indentedFields (depth + 1) parts ++ margin depth ++ "\x7d"
  | .list [] => "[]"
  | .list (item :: items) =>
    "[\n" ++ indentedParts (depth + 1) (item :: items) ++ margin depth ++ "]"

/-- Parts, each in lines of its own. -/
def indentedParts (depth : Nat) : List Outline → String
  | [] => ""
  | part :: parts =>
    margin depth ++ part.indentedAt depth ++ ",\n" ++ indentedParts depth parts

/-- Parts after their labels, each in lines of its own. -/
def indentedFields (depth : Nat) : List (String × Outline) → String
  | [] => ""
  | (label, part) :: parts =>
    margin depth ++ label ++ ": " ++ part.indentedAt depth ++ ",\n" ++
      indentedFields depth parts

end

/-- The outline with one part a line. -/
def indented (outline : Outline) : String := outline.indentedAt 0

/-- A value that may be absent. -/
def ofOption : Option Outline → Outline
  | none => .leaf "None"
  | some outline => .node "Some" [outline]

end Outline

/-- The name of an operator. -/
def UnaryOperator.name : UnaryOperator → String
  | .negate => "Negate"
  | .not => "Not"

/-- The name of an operator. -/
def BinaryOperator.name : BinaryOperator → String
  | .or => "Or"
  | .and => "And"
  | .equal => "Equal"
  | .unequal => "Unequal"
  | .lessThan => "LessThan"
  | .greaterThan => "GreaterThan"
  | .lessThanOrEqual => "LessThanOrEqual"
  | .greaterThanOrEqual => "GreaterThanOrEqual"
  | .contains => "Contains"
  | .isIn => "IsIn"
  | .isNotIn => "IsNotIn"
  | .concatenate => "Concatenate"
  | .concatenateWithSpace => "ConcatenateWithSpace"
  | .add => "Add"
  | .subtract => "Subtract"
  | .multiply => "Multiply"
  | .divide => "Divide"
  | .integerDivide => "IntegerDivide"
  | .modulo => "Modulo"
  | .power => "Power"

namespace Expression

/-- The outline of a constant. -/
def literalOutline (kind text : String) : Outline := .node "Literal" [.node kind [.leaf text]]

mutual

/-- The outline of an expression. -/
def outline : Expression → Outline
  | .string text => literalOutline "String" text.quoted
  | .word text => literalOutline "Word" text.quoted
  | .integer value => literalOutline "Integer" (toString value)
  | .real value => literalOutline "Real" value.text
  | .boolean value => literalOutline "Boolean" (if value then "true" else "false")
  | .unary operator operand => .node "Unary" [.leaf operator.name, operand.outline]
  | .binary operator left right =>
    .node "Binary" [.leaf operator.name, left.outline, right.outline]
  | .call name arguments =>
    .record "FunctionCall" [("name", .leaf name.quoted), ("arguments", .list (outlines arguments))]

/-- The outlines of expressions. -/
def outlines : List Expression → List Outline
  | [] => []
  | first :: rest => first.outline :: outlines rest

end

end Expression

/-- The outline of a position. -/
def Ordinal.outline : Ordinal → Outline
  | .number position => .node "Number" [position.outline]
  | .last => .leaf "Last"
  | .middle => .leaf "Middle"
  | .any => .leaf "Any"

/-- The name of a position. -/
def RelativePosition.name : RelativePosition → String
  | .current => "Current"
  | .next => "Next"
  | .previous => "Previous"

/-- The outline of a choice. -/
def Identification.outline : Identification → Outline
  | .ordinal position => .node "Ordinal" [position.outline]
  | .identifier number => .node "Identifier" [number.outline]
  | .name text => .node "Name" [text.outline]

/-- The outline of a card or background. -/
def LayerReference.outline : LayerReference → Outline
  | .relative position => .node "Relative" [.leaf position.name]
  | .absolute which => .node "Absolute" [which.outline]

/-- The outline of a card. -/
def CardReference.outline (reference : CardReference) : Outline :=
  .record "CardDescriptor" [("card", reference.card.outline),
    ("background", .ofOption (reference.background.map (·.outline)))]

/-- The name of a kind of part. -/
def PartKind.name : PartKind → String
  | .button => "Button"
  | .field => "Field"
  | .part => "Part"

/-- The name of a layer. -/
def Layer.name : Layer → String
  | .card => "Card"
  | .background => "Background"

/-- The outline of a button or field. -/
def PartReference.outline (part : PartReference) : Outline :=
  .record "PartDescriptor" [("part_type", .leaf part.kind.name), ("layer", .leaf part.layer.name),
    ("identification", part.which.outline), ("card", .ofOption (part.card.map (·.outline)))]

/-- The outline of a stack. -/
def StackReference.outline : StackReference → Outline
  | .current => .leaf "Current"
  | .named name => .node "Named" [name.outline]

/-- The outline of a place to go. -/
def Destination.outline : Destination → Outline
  | .card reference => .node "Card" [reference.outline]
  | .background reference => .node "Background" [reference.outline]
  | .stack reference => .node "Stack" [reference.outline]

/-- The name of a preposition. -/
def Preposition.name : Preposition → String
  | .into => "Into"
  | .after => "After"
  | .before => "Before"

/-- The outline of what holds a value. -/
def Container.outline : Container → Outline
  | .variable name => .node "Variable" [.leaf name.quoted]
  | .part reference => .node "Part" [reference.outline]
  | .messageBox => .leaf "MessageBox"

/-- The outline of a command. -/
def Command.outline : Command → Outline
  | .go destination => .node "Go" [destination.outline]
  | .put value preposition container =>
    .record "Put" [("value", value.outline), ("preposition", .leaf preposition.name),
      ("container", container.outline)]
  | .answer prompt replies =>
    .record "Answer" [("prompt", prompt.outline), ("replies", .list (Expression.outlines replies))]
  | .beep count => .node "Beep" [.ofOption (count.map (·.outline))]
  | .visual effect => .node "Visual" [.leaf effect.quoted]

end HyperCard
