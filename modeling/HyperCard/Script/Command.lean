import HyperCard.Script.Reference

/-!
# Commands

What a line of a script tells the program to do.
-/
namespace HyperCard

/-- Where to go. -/
inductive Destination
  /-- A card. -/
  | card (card : CardReference)
  /-- The current card of a background. -/
  | background (background : LayerReference)
  /-- A stack. -/
  | stack (stack : StackReference)
  deriving Repr

/-- What holds a value. -/
inductive Container
  /-- A variable. -/
  | variable (name : RomanString)
  /-- The text of a field. -/
  | part (part : PartReference)
  /-- The message box. -/
  | messageBox
  deriving Repr

/-- How a value goes into a container. -/
inductive Preposition
  /-- In place of the old value. -/
  | into
  /-- At the end. -/
  | after
  /-- At the start. -/
  | before
  deriving DecidableEq, Repr

/-- A command. -/
inductive Command
  /-- Show another card. -/
  | go (destination : Destination)
  /-- Store a value. -/
  | put (value : Expression) (preposition : Preposition) (container : Container)
  /-- Ask a question, with labels for the buttons. -/
  | answer (prompt : Expression) (replies : List Expression)
  /-- Make a sound, so many times. -/
  | beep (count : Option Expression)
  /-- Choose an effect for the next change of cards. -/
  | visual (effect : RomanString)
  deriving Repr

end HyperCard
