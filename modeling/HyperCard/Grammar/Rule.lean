import HyperCard.Text.RomanString

/-!
# Grammar rules

A grammar is a family of rules that may refer to each other. A rule has branches, tried side by
side; a branch is a sequence of elements; an element is a pattern matched between a least and a
greatest number of times. Each rule produces values of its own type: a branch starts from the
rule's initial value, and every occurrence of a pattern updates the value of its branch.
-/
namespace HyperCard.Grammar

/-- A text to be matched, perhaps without regard to ASCII case, and what its match does to the
value of the branch. -/
structure Literal (Value : Type) where
  /-- The text, which begins with no blank if it is ever to match. -/
  text : RomanString
  /-- Whether capitals and small letters match each other. -/
  ignoresCase : Bool
  /-- The new value, from the old one and the characters that matched the text. -/
  update : Value → RomanString → Value

/-- A set of single characters and what a match does to the value of the branch. -/
structure CharacterSet (Value : Type) where
  /-- The members. -/
  accepts : UInt8 → Bool
  /-- The new value, from the old one and the character. -/
  update : Value → UInt8 → Value

variable {ι : Type}

/-- What one occurrence of an element matches, in a grammar whose rules are named by `ι` and
have values of the types `Val`, for a branch with values of type `Value`. -/
inductive Pattern (Val : ι → Type) (Value : Type)
  /-- A text, after any blanks. -/
  | literal (literal : Literal Value)
  /-- One character. -/
  | character (set : CharacterSet Value)
  /-- A rule, after any blanks; its value updates that of the branch. -/
  | nested (rule : ι) (update : Value → Val rule → Value)

/-- A pattern and how often it occurs. -/
structure Element (Val : ι → Type) (Value : Type) where
  /-- What each occurrence matches. -/
  pattern : Pattern Val Value
  /-- The least number of occurrences. -/
  minimum : Nat
  /-- The greatest number of occurrences, if there is one. -/
  maximum : Option Nat
  /-- As many occurrences as there must be are allowed, and one at least. -/
  bounded : ∀ most ∈ maximum, max minimum 1 ≤ most

/-- Elements matched in order. -/
abbrev Branch (Val : ι → Type) (Value : Type) := List (Element Val Value)

/-- A rule of a grammar. -/
structure Rule (Val : ι → Type) (Value : Type) where
  /-- The name that the rule goes by. -/
  name : String
  /-- The value that every branch starts from. -/
  initial : Value
  /-- The branches in order of preference, or none while the rule is only announced. -/
  definition : Option (List (Branch Val Value))

namespace Rule

variable {Val : ι → Type} {Value : Type}

/-- The branches of a rule, of which an announced rule has none. -/
def branches (rule : Rule Val Value) : List (Branch Val Value) := rule.definition.getD []

/-- Whether the rule has been given branches. -/
def isDefined (rule : Rule Val Value) : Bool := rule.definition.isSome

/-- Give an announced rule its branches; the first definition stands. -/
def define (rule : Rule Val Value) (branches : List (Branch Val Value)) : Rule Val Value :=
  { rule with definition := some (rule.definition.getD branches) }

/-- The rule in one line: its name and its number of branches. -/
def summary (rule : Rule Val Value) : String :=
  "Schema \x7b name: " ++ Quoted.ofString rule.name ++ ", branches: " ++
    toString rule.branches.length ++ " \x7d"

end Rule

namespace Element

variable {Val : ι → Type} {Value : Type}

/-- One occurrence of a pattern. -/
def once (pattern : Pattern Val Value) : Element Val Value := ⟨pattern, 1, some 1, by simp⟩

/-- An exact text. -/
def literal (text : String) : Element Val Value :=
  once (.literal ⟨.encodeOrRaw text, false, fun value _ => value⟩)

/-- An exact text that updates the value. -/
def literalWith (text : String) (update : Value → RomanString → Value) : Element Val Value :=
  once (.literal ⟨.encodeOrRaw text, false, update⟩)

/-- A text in any case. -/
def keyword (text : String) : Element Val Value :=
  once (.literal ⟨.encodeOrRaw text, true, fun value _ => value⟩)

/-- A text in any case that updates the value. -/
def keywordWith (text : String) (update : Value → RomanString → Value) : Element Val Value :=
  once (.literal ⟨.encodeOrRaw text, true, update⟩)

/-- One character of a set. -/
def character (accepts : UInt8 → Bool) (update : Value → UInt8 → Value) : Element Val Value :=
  once (.character ⟨accepts, update⟩)

/-- Another rule. -/
def nested (rule : ι) (update : Value → Val rule → Value) : Element Val Value :=
  once (.nested rule update)

/-- The element with other bounds; the greatest number is at least one and at least the least. -/
def counts (element : Element Val Value) (minimum : Nat) (maximum : Option Nat) :
    Element Val Value :=
  { element with
    minimum
    maximum := maximum.map fun most => max (max most minimum) 1
    bounded := by
      intro most found
      obtain ⟨_, _, rfl⟩ := Option.map_eq_some_iff.mp found
      omega }

/-- The element, which may be absent. -/
def optional (element : Element Val Value) : Element Val Value := element.counts 0 (some 1)

/-- The element any number of times. -/
def many (element : Element Val Value) : Element Val Value := element.counts 0 none

/-- The element at least once. -/
def oneOrMore (element : Element Val Value) : Element Val Value := element.counts 1 none

/-- Whether another occurrence may follow so many. -/
def allowsRepeat (element : Element Val Value) (count : Nat) : Bool :=
  element.maximum.all (count < ·)

end Element

/-- Whether a branch may stop before these remaining elements. -/
def canEnd {Val : ι → Type} {Value : Type} (remaining : Branch Val Value) : Bool :=
  remaining.all (·.minimum == 0)

end HyperCard.Grammar

namespace HyperCard

/-- A family of rules. -/
structure Grammar {ι : Type} (Val : ι → Type) where
  /-- The rule of each name. -/
  rule : (name : ι) → Grammar.Rule Val (Val name)
  /-- A bound on the number of rules. -/
  size : Nat

end HyperCard
