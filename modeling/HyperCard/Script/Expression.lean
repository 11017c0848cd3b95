import HyperCard.Text.Spelling
import HyperCard.Number.Double

/-!
# Expressions

Expressions of scripts as trees: constants, variables, operators and calls of functions. A call
keeps its name in small letters, because names of functions are the same in any case.
-/
namespace HyperCard

/-- Operators before their operand. -/
inductive UnaryOperator
  /-- The opposite number. -/
  | negate
  /-- The other truth value. -/
  | not
  deriving DecidableEq, Repr

/-- Operators between their operands, from the loosest to the tightest. -/
inductive BinaryOperator
  /-- At least one holds. -/
  | or
  /-- Both hold. -/
  | and
  /-- Same value. -/
  | equal
  /-- Different values. -/
  | unequal
  /-- Less. -/
  | lessThan
  /-- Greater. -/
  | greaterThan
  /-- Less or equal. -/
  | lessThanOrEqual
  /-- Greater or equal. -/
  | greaterThanOrEqual
  /-- The left text has the right one in it. -/
  | contains
  /-- The left text is in the right one. -/
  | isIn
  /-- The left text is not in the right one. -/
  | isNotIn
  /-- Two texts in order. -/
  | concatenate
  /-- Two texts in order with a space between. -/
  | concatenateWithSpace
  /-- Sum. -/
  | add
  /-- Difference. -/
  | subtract
  /-- Product. -/
  | multiply
  /-- Quotient. -/
  | divide
  /-- Whole part of the quotient. -/
  | integerDivide
  /-- Remainder. -/
  | modulo
  /-- Power. -/
  | power
  deriving DecidableEq, Repr

/-- An expression. -/
inductive Expression
  /-- Text between quotes; the word for the empty text is one as well. -/
  | string (text : RomanString)
  /-- A word without quotes, which may name a variable. -/
  | word (text : RomanString)
  /-- A whole number. -/
  | integer (value : Nat)
  /-- A number with a point, or one too large to be whole. -/
  | real (value : Double)
  /-- A truth value. -/
  | boolean (value : Bool)
  /-- An operator and its operand. -/
  | unary (operator : UnaryOperator) (operand : Expression)
  /-- An operator and its two operands. -/
  | binary (operator : BinaryOperator) (left right : Expression)
  /-- A function and its arguments. -/
  | call (name : RomanString) (arguments : List Expression)
  deriving Repr

namespace Expression

/-- The empty text. -/
def emptyText : Expression := .string .empty

instance : Inhabited Expression := ⟨emptyText⟩

end Expression

/-- A call that is still being read. -/
structure PendingCall where
  /-- The name as it is spelled. -/
  name : Spelling
  /-- The arguments so far, the last one first. -/
  reversedArguments : List Expression
  deriving Repr

namespace PendingCall

/-- No name and no argument. -/
def empty : PendingCall := ⟨.empty, []⟩

/-- Name the function; arguments come after its name. -/
def setName (_ : PendingCall) (name : Spelling) : PendingCall := ⟨name, []⟩

/-- One more argument. -/
def addArgument (call : PendingCall) (argument : Expression) : PendingCall :=
  ⟨call.name, argument :: call.reversedArguments⟩

/-- The call with its name in small letters. -/
def expression (call : PendingCall) : Expression :=
  .call call.name.text.toLower call.reversedArguments.reverse

end PendingCall
end HyperCard
