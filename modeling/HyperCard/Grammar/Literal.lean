import HyperCard.Grammar.Rule

/-!
# Matching a literal text

Blanks before the text are skipped. Where the text has blanks between other characters, more
blanks are skipped too, so that words may stand any distance apart; blanks at the end of the
text are matched one for one. A text that begins with a letter or digit does not begin right
after another one.
-/
namespace HyperCard.Grammar

/-- How much of a text has been matched. -/
inductive LiteralProgress
  /-- Nothing yet, with the character just before. -/
  | awaiting (previous : Option UInt8)
  /-- A part of the text: whether that part ends in a blank, the rest of the text, and the
  characters that matched so far, the last one first. -/
  | inside (afterBlank : Bool) (remaining matched : List UInt8)
  deriving Repr

namespace Literal

variable {Value : Type}

/-- Whether a character may stand for one of the text. A blank stands for any blank. -/
def admits (literal : Literal Value) (expected character : UInt8) : Bool :=
  if Character.isBlank expected then Character.isBlank character
  else if literal.ignoresCase then Character.toLower expected == Character.toLower character
  else expected == character

/-- Match one more character, or fail. A text that is already complete admits no more. -/
def advance (literal : Literal Value) (progress : LiteralProgress) (character : UInt8) :
    Option LiteralProgress :=
  match progress with
  | .awaiting previous =>
    match literal.text.characters with
    | [] => none
    | expected :: rest =>
      if Character.isBlank character then some (.awaiting (some character))
      else if literal.admits expected character && !Character.joinsWord previous character then
        some (.inside (Character.isBlank expected) rest [character])
      else none
  | .inside _ [] _ => none
  | .inside afterBlank (expected :: rest) matched =>
    if Character.isBlank character && afterBlank && !Character.isBlank expected then
      some (.inside afterBlank (expected :: rest) (character :: matched))
    else if literal.admits expected character then
      some (.inside (Character.isBlank expected) rest (character :: matched))
    else none

end Literal

end HyperCard.Grammar
