import HyperCard.Grammar.Matcher
import Mathlib.Logic.Relation

/-!
# Languages of grammar rules

What a rule matches, said without a matcher. A text is matched by a branch when it can be cut
into segments, one for each occurrence of an element, in the order of the elements and as often
as their bounds allow. A segment of a nested rule is matched by that rule in turn, so the
language of a rule is the least family closed under this.

Which segments a text is cut into is its reading: the index of the element and the position of
the end of every occurrence. A grammar is proper when its texts can match at all, no rule begins
with itself, and its size bounds the number of its rules.
-/
namespace HyperCard.Grammar

variable {ι : Type} {Val : ι → Type}

/-- The character just before what follows a text. -/
def before (previous : Option UInt8) : List UInt8 → Option UInt8
  | [] => previous
  | character :: rest => before (some character) rest

/-- Nothing comes between a character and the text after it. -/
@[simp] theorem before_nil (previous : Option UInt8) : before previous [] = previous := rfl

/-- The first character of a text is before the others. -/
@[simp] theorem before_cons (previous : Option UInt8) (character : UInt8) (rest : List UInt8) :
    before previous (character :: rest) = before (some character) rest := rfl

/-- What is before the rest of a text follows from what is before the text. -/
@[simp] theorem before_append (previous : Option UInt8) (left right : List UInt8) :
    before previous (left ++ right) = before (before previous left) right := by
  induction left generalizing previous with
  | nil => rfl
  | cons character left ih => exact ih (some character)

/-- Whether a character stands for another one that is no blank. -/
def Same (ignoresCase : Bool) (expected character : UInt8) : Prop :=
  if ignoresCase then Character.toLower expected = Character.toLower character
  else expected = character

/-- What may be written for a text: each character for itself, blanks between two others by at
least as many blanks, and blanks at the end by as many blanks. -/
inductive Spells (ignoresCase : Bool) : List UInt8 → List UInt8 → Prop
  /-- Nothing for the empty text. -/
  | nil : Spells ignoresCase [] []
  /-- A character that is no blank. -/
  | character {expected character : UInt8} {text input : List UInt8}
      (solid : Character.isBlank expected = false) (same : Same ignoresCase expected character)
      (others : Spells ignoresCase text input) :
      Spells ignoresCase (expected :: text) (character :: input)
  /-- All blanks up to the next other character, or up to the end. -/
  | gap {gap blanks text input : List UInt8} (nonempty : gap ≠ [])
      (gapBlank : ∀ character ∈ gap, Character.isBlank character)
      (blank : ∀ character ∈ blanks, Character.isBlank character)
      (maximal : ∀ character ∈ text.head?, Character.isBlank character = false)
      (enough : gap.length ≤ blanks.length) (final : text = [] → blanks.length = gap.length)
      (others : Spells ignoresCase text input) :
      Spells ignoresCase (gap ++ text) (blanks ++ input)

/-- Which texts the rules match, each after some character. -/
abbrev Language (ι : Type) := (rule : ι) → (previous : Option UInt8) → (text : List UInt8) → Prop

/-- What one occurrence of a pattern matches after a character. A text or a nested rule may
follow blanks, and does not begin with a letter or digit right after another one. -/
inductive Segment (language : Language ι) {Val : ι → Type} :
    (text : List UInt8) → (previous : Option UInt8) → {Value : Type} → Pattern Val Value → Prop
  /-- One character of a set. -/
  | character {Value : Type} {set : CharacterSet Value} {previous : Option UInt8}
      {character : UInt8} (accepted : set.accepts character) :
      Segment language [character] previous (.character set)
  /-- A text. -/
  | literal {Value : Type} {literal : Literal Value} {previous : Option UInt8}
      {blanks rest : List UInt8} {first : UInt8}
      (blank : ∀ character ∈ blanks, Character.isBlank character)
      (apart : Character.joinsWord (before previous blanks) first = false)
      (spells : Spells literal.ignoresCase literal.text.characters (first :: rest)) :
      Segment language (blanks ++ first :: rest) previous (.literal literal)
  /-- A nested rule. -/
  | nested {Value : Type} {rule : ι} {update : Value → Val rule → Value}
      {previous : Option UInt8} {blanks rest : List UInt8} {first : UInt8}
      (blank : ∀ character ∈ blanks, Character.isBlank character)
      (solid : Character.isBlank first = false)
      (apart : Character.joinsWord (before previous blanks) first = false)
      (inner : language rule (before previous blanks) (first :: rest)) :
      Segment language (blanks ++ first :: rest) previous (.nested rule update)

/-- One occurrence of an element: which element of the branch, and the position of its end. -/
structure Occurrence where
  /-- The position of the element in its branch. -/
  index : Nat
  /-- The position in the text where the occurrence ends. -/
  finish : Nat
  deriving DecidableEq, Repr

/-- A text made of so many segments of one pattern, with the occurrences that they are. -/
inductive Repeats (language : Language ι) {Val : ι → Type} :
    (text : List UInt8) → (previous : Option UInt8) → {Value : Type} → Pattern Val Value →
      (index count position : Nat) → List Occurrence → Prop
  /-- No segment. -/
  | none {Value : Type} {pattern : Pattern Val Value} {previous : Option UInt8}
      {index position : Nat} : Repeats language [] previous pattern index 0 position []
  /-- A segment, then the others. -/
  | more {Value : Type} {pattern : Pattern Val Value} {previous : Option UInt8}
      {first rest : List UInt8} {index count position : Nat} {occurrences : List Occurrence}
      (segment : Segment language first previous pattern)
      (others : Repeats language rest (before previous first) pattern index count
        (position + first.length) occurrences) :
      Repeats language (first ++ rest) previous pattern index (count + 1) position
        (⟨index, position + first.length⟩ :: occurrences)

/-- A text made of segments of the elements of a branch, the first of which has the given index;
each element occurs as often as its bounds allow. The text stands at a position. -/
inductive Reads (language : Language ι) {Val : ι → Type} :
    (text : List UInt8) → (previous : Option UInt8) → {Value : Type} → Branch Val Value →
      (index position : Nat) → List Occurrence → Prop
  /-- No element. -/
  | nil {Value : Type} {previous : Option UInt8} {index position : Nat} :
      Reads language [] previous ([] : Branch Val Value) index position []
  /-- The occurrences of an element, then those of the others. -/
  | cons {Value : Type} {element : Element Val Value} {following : Branch Val Value}
      {previous : Option UInt8} {first rest : List UInt8} {index count position : Nat}
      {these those : List Occurrence}
      (repeats : Repeats language first previous element.pattern index count position these)
      (enough : element.minimum ≤ count) (allowed : ∀ most ∈ element.maximum, count ≤ most)
      (others : Reads language rest (before previous first) following (index + 1)
        (position + first.length) those) :
      Reads language (first ++ rest) previous (element :: following) index position
        (these ++ those)

/-- What the rules of a grammar match: after a character, a rule matches the texts that one of
its branches reads. -/
inductive Matches (grammar : Grammar Val) : Language ι
  /-- A text that a branch reads. -/
  | branch {name : ι} {previous : Option UInt8} {text : List UInt8}
      {branch : Branch Val (Val name)} {occurrences : List Occurrence}
      (member : branch ∈ (grammar.rule name).branches)
      (reads : Reads (Matches grammar) text previous branch 0 0 occurrences) :
      Matches grammar name previous text

/-- Whether a text can be matched: it has a first character, which is no blank. -/
def Literal.Proper {Value : Type} (literal : Literal Value) : Prop :=
  ∃ first rest, literal.text.characters = first :: rest ∧ Character.isBlank first = false

/-- A rule may begin with another one: some branch has it after elements that may be absent. -/
def Leads (grammar : Grammar Val) (name rule : ι) : Prop :=
  ∃ branch ∈ (grammar.rule name).branches, ∃ skipped element following,
    branch = skipped ++ element :: following ∧ (∀ other ∈ skipped, other.minimum = 0) ∧
      ∃ update, element.pattern = .nested rule update

/-- What makes the matcher of a grammar follow its language. -/
structure Proper (grammar : Grammar Val) : Prop where
  /-- Every text has a first character, which is no blank. -/
  texts : ∀ name, ∀ branch ∈ (grammar.rule name).branches, ∀ element ∈ branch,
    ∀ literal, element.pattern = .literal literal → literal.Proper
  /-- No rule begins with itself, be it through other rules. -/
  acyclic : ∀ name, ¬ Relation.TransGen grammar.Leads name name
  /-- The size bounds the number of rules with branches. -/
  counted : ∃ names : List ι, names.length ≤ grammar.size ∧
    ∀ name, (grammar.rule name).branches ≠ [] → name ∈ names

end HyperCard.Grammar
