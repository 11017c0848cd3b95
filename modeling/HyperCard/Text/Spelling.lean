import HyperCard.Text.RomanString

/-!
# Texts that are still being read

A rule learns a text one character at a time, and several interpretations of a line learn the
same text side by side. A spelling keeps its last character first, so that one more character
costs the same however long the text is and interpretations share what they have in common.
-/
namespace HyperCard

/-- A text that grows at its end. -/
structure Spelling where
  /-- The characters, the last one first. -/
  reversed : List UInt8
  deriving DecidableEq, Repr, Inhabited

namespace Spelling

/-- The spelling without characters. -/
def empty : Spelling := ⟨[]⟩

/-- Whether there is no character. -/
def isEmpty (spelling : Spelling) : Bool := spelling.reversed.isEmpty

/-- One more character at the end. -/
def push (spelling : Spelling) (character : UInt8) : Spelling :=
  ⟨character :: spelling.reversed⟩

/-- Two spellings in order. -/
def append (left right : Spelling) : Spelling := ⟨right.reversed ++ left.reversed⟩

instance : Append Spelling := ⟨append⟩

/-- The text that is spelled. -/
def text (spelling : Spelling) : RomanString := ⟨spelling.reversed.reverse⟩

end Spelling
end HyperCard
