import HyperCard.Proofs.Grammar.Language

/-!
# Readings and their values

A text may have many readings. The preferred one takes the earliest branch; in one branch it
takes, at the first occurrence where it differs from another reading, the earlier element or,
for the same element, the longer occurrence. A text denotes the value of its preferred reading:
the initial value of the rule, updated by each occurrence in turn, where a nested rule
contributes what its own text denotes. No text denotes two values.
-/
namespace HyperCard.Grammar

variable {ι : Type} {Val : ι → Type}

/-- A way to cut a text for a rule. -/
structure Reading where
  /-- The position of the branch in the rule. -/
  branch : Nat
  /-- The occurrences of its elements. -/
  occurrences : List Occurrence
  deriving DecidableEq, Repr

/-- Occurrences are preferred to others that have, at the first difference, a later element or
an earlier end. -/
inductive Precedes : List Occurrence → List Occurrence → Prop
  /-- The next element comes earlier in the branch. -/
  | earlier {left right : Occurrence} {lefts rights : List Occurrence}
      (less : left.index < right.index) : Precedes (left :: lefts) (right :: rights)
  /-- The next occurrence is one of the same element and longer. -/
  | longer {left right : Occurrence} {lefts rights : List Occurrence}
      (same : left.index = right.index) (less : right.finish < left.finish) :
      Precedes (left :: lefts) (right :: rights)
  /-- The difference comes later. -/
  | later {first : Occurrence} {lefts rights : List Occurrence} (others : Precedes lefts rights) :
      Precedes (first :: lefts) (first :: rights)

/-- No occurrences are preferred to those that are preferred to them. -/
theorem Precedes.asymm {left right : List Occurrence} (forward : Precedes left right)
    (backward : Precedes right left) : False := by
  induction forward with
  | earlier less =>
    cases backward with
    | earlier more => omega
    | longer same _ => omega
    | later _ => omega
  | longer same less =>
    cases backward with
    | earlier more => omega
    | longer _ more => omega
    | later _ => omega
  | later _ ih =>
    cases backward with
    | earlier more => omega
    | longer _ more => omega
    | later others => exact ih others

/-- A reading is preferred to those of later branches and, within its branch, to those whose
occurrences its own ones precede. -/
def Reading.Precedes (left right : Reading) : Prop :=
  left.branch < right.branch ∨
    left.branch = right.branch ∧ Grammar.Precedes left.occurrences right.occurrences

/-- No reading is preferred to one that is preferred to it. -/
theorem Reading.Precedes.asymm {left right : Reading} (forward : left.Precedes right)
    (backward : right.Precedes left) : False := by
  rcases forward with less | ⟨same, forward⟩
  · rcases backward with more | ⟨same, _⟩ <;> omega
  · rcases backward with more | ⟨_, backward⟩
    · omega
    · exact forward.asymm backward

/-- The least of the things that have a property, in an order. -/
def Foremost {α : Type} (precedes : α → α → Prop) (holds : α → Prop) (least : α) : Prop :=
  holds least ∧ ∀ other, holds other → other = least ∨ precedes least other

/-- There is at most one least thing. -/
theorem Foremost.unique {α : Type} {precedes : α → α → Prop} {holds : α → Prop} {left right : α}
    (asymm : ∀ {left right}, precedes left right → precedes right left → False)
    (first : Foremost precedes holds left) (second : Foremost precedes holds right) :
    left = right := by
  rcases first.2 right second.1 with same | before
  · exact same.symm
  · rcases second.2 left first.1 with same | after
    · exact same
    · exact (asymm before after).elim

/-- A reading of a text by a rule. -/
def IsReading (grammar : Grammar Val) (name : ι) (previous : Option UInt8) (text : List UInt8)
    (reading : Reading) : Prop :=
  ∃ branch, (grammar.rule name).branches[reading.branch]? = some branch ∧
    Reads grammar.Matches text previous branch 0 0 reading.occurrences

/-- The texts that a rule matches are those that have a reading. -/
theorem matches_iff_exists_reading (grammar : Grammar Val) (name : ι) (previous : Option UInt8)
    (text : List UInt8) :
    grammar.Matches name previous text ↔
      ∃ reading, grammar.IsReading name previous text reading := by
  constructor
  · intro matched
    cases matched with
    | branch member reads =>
      obtain ⟨index, found⟩ := List.mem_iff_getElem?.mp member
      exact ⟨⟨index, _⟩, _, found, reads⟩
  · rintro ⟨reading, branch, found, reads⟩
    exact .branch (List.mem_of_getElem? found) reads

/-- The reading that is preferred to all others. -/
def Preferred (grammar : Grammar Val) (name : ι) (previous : Option UInt8) (text : List UInt8) :
    Reading → Prop :=
  Foremost Reading.Precedes (grammar.IsReading name previous text)

/-- What texts stand for as texts of a rule, each after some character. -/
abbrev Meaning (Val : ι → Type) :=
  (rule : ι) → (previous : Option UInt8) → (text : List UInt8) → Val rule → Prop

/-- What one occurrence of a pattern does to a value: a character and a text pass on what they
match, blanks before the text left aside, and a nested rule what its text means. -/
inductive Updates (meaning : Meaning Val) :
    (text : List UInt8) → (previous : Option UInt8) → {Value : Type} → Pattern Val Value →
      (old new : Value) → Prop
  /-- One character. -/
  | character {Value : Type} {set : CharacterSet Value} {previous : Option UInt8}
      {character : UInt8} {old : Value} :
      Updates meaning [character] previous (.character set) old (set.update old character)
  /-- A text. -/
  | literal {Value : Type} {literal : Literal Value} {previous : Option UInt8}
      {text : List UInt8} {old : Value} :
      Updates meaning text previous (.literal literal) old
        (literal.update old ⟨RomanString.dropBlanks text⟩)
  /-- A nested rule. -/
  | nested {Value : Type} {rule : ι} {update : Value → Val rule → Value}
      {previous : Option UInt8} {blanks rest : List UInt8} {first : UInt8} {old : Value}
      {value : Val rule} (blank : ∀ character ∈ blanks, Character.isBlank character)
      (solid : Character.isBlank first = false)
      (inner : meaning rule (before previous blanks) (first :: rest) value) :
      Updates meaning (blanks ++ first :: rest) previous (.nested rule update) old
        (update old value)

/-- What occurrences in a text at a position do to a value, one after the other. -/
inductive Applies (meaning : Meaning Val) :
    (text : List UInt8) → (previous : Option UInt8) → {Value : Type} → Branch Val Value →
      (position : Nat) → List Occurrence → (old new : Value) → Prop
  /-- No occurrence. -/
  | nil {Value : Type} {previous : Option UInt8} {branch : Branch Val Value} {position : Nat}
      {value : Value} : Applies meaning [] previous branch position [] value value
  /-- An occurrence, then the others. -/
  | cons {Value : Type} {first rest : List UInt8} {previous : Option UInt8}
      {branch : Branch Val Value} {element : Element Val Value} {index position : Nat}
      {occurrences : List Occurrence} {old middle new : Value}
      (found : branch[index]? = some element)
      (update : Updates meaning first previous element.pattern old middle)
      (others : Applies meaning rest (before previous first) branch (position + first.length)
        occurrences middle new) :
      Applies meaning (first ++ rest) previous branch position
        (⟨index, position + first.length⟩ :: occurrences) old new

/-- What a text denotes: the value of its preferred reading. -/
inductive Denotes (grammar : Grammar Val) : Meaning Val
  /-- The value of the preferred reading. -/
  | reading {name : ι} {previous : Option UInt8} {text : List UInt8} {reading : Reading}
      {branch : Branch Val (Val name)} {value : Val name}
      (preferred : grammar.Preferred name previous text reading)
      (found : (grammar.rule name).branches[reading.branch]? = some branch)
      (applies : Applies (Denotes grammar) text previous branch 0 reading.occurrences
        (grammar.rule name).initial value) :
      Denotes grammar name previous text value

/-- A property of what texts denote holds when it follows for a text from the same property of
the texts of its nested rules. -/
theorem Denotes.induction {grammar : Grammar Val} {motive : Meaning Val}
    (step : ∀ {name previous text reading branch value},
      grammar.Preferred name previous text reading →
      (grammar.rule name).branches[reading.branch]? = some branch →
      Applies (fun rule previous text value => grammar.Denotes rule previous text value ∧
        motive rule previous text value) text previous branch 0 reading.occurrences
        (grammar.rule name).initial value →
      motive name previous text value)
    {name : ι} {previous : Option UInt8} {text : List UInt8} {value : Val name}
    (denotes : grammar.Denotes name previous text value) : motive name previous text value := by
  -- The two other motives rebuild the occurrences and their updates with the property added.
  refine @Denotes.rec ι Val grammar
    (fun name previous text value _ => motive name previous text value)
    (fun text previous _ branch position occurrences old new _ =>
      Applies (fun rule previous text value => grammar.Denotes rule previous text value ∧
        motive rule previous text value) text previous branch position occurrences old new)
    (fun text previous _ pattern old new _ =>
      Updates (fun rule previous text value => grammar.Denotes rule previous text value ∧
        motive rule previous text value) text previous pattern old new)
    ?_ ?_ ?_ ?_ ?_ ?_ name previous text value denotes
  · intro _ _ _ _ _ _ preferred found _ applies
    exact step preferred found applies
  · intros
    exact .nil
  · intro _ _ _ _ _ _ _ _ _ _ _ _ found _ _ update others
    exact .cons found update others
  · intros
    exact .character
  · intros
    exact .literal
  · intro _ _ _ _ _ _ _ _ _ blank solid inner holds
    exact .nested blank solid ⟨inner, holds⟩

/-- A text splits in one way into blanks and a rest that begins with another character. -/
theorem blanks_append_inj {blanks others rest tail : List UInt8} {first second : UInt8}
    (blank : ∀ character ∈ blanks, Character.isBlank character)
    (solid : Character.isBlank first = false)
    (otherBlank : ∀ character ∈ others, Character.isBlank character)
    (otherSolid : Character.isBlank second = false)
    (same : blanks ++ first :: rest = others ++ second :: tail) :
    blanks = others ∧ first = second ∧ rest = tail := by
  induction blanks generalizing others with
  | nil =>
    cases others with
    | nil => simpa using same
    | cons other others =>
      simp only [List.nil_append, List.cons_append, List.cons.injEq] at same
      have := otherBlank other (by simp)
      simp [← same.1, solid] at this
  | cons character blanks ih =>
    cases others with
    | nil =>
      simp only [List.nil_append, List.cons_append, List.cons.injEq] at same
      have := blank character (by simp)
      simp [same.1, otherSolid] at this
    | cons other others =>
      simp only [List.cons_append, List.cons.injEq] at same
      obtain ⟨rfl, same⟩ := same
      have tails := ih (fun character member => blank character (by simp [member]))
        (fun character member => otherBlank character (by simp [member])) same
      simpa using tails

/-- Where nested texts mean at most one value, an occurrence has at most one effect. -/
theorem Updates.unique {meaning other : Meaning Val} {Value : Type} {text : List UInt8}
    {previous : Option UInt8} {pattern : Pattern Val Value} {old new newer : Value}
    (functional : ∀ rule previous text value another, meaning rule previous text value →
      other rule previous text another → another = value)
    (update : Updates meaning text previous pattern old new)
    (again : Updates other text previous pattern old newer) : newer = new := by
  cases update with
  | @character _ _ _ character =>
    generalize whole : [character] = text at again
    cases again with
    | character =>
      cases whole
      rfl
  | literal => cases again with | literal => rfl
  | @nested _ rule update _ blanks rest first _ value blank solid inner =>
    generalize whole : blanks ++ first :: rest = text at again
    cases again with
    | nested otherBlank otherSolid otherInner =>
      obtain ⟨rfl, rfl, rfl⟩ := blanks_append_inj blank solid otherBlank otherSolid whole
      rw [functional _ _ _ _ _ inner otherInner]

/-- Where nested texts mean at most one value, occurrences lead to at most one value. -/
theorem Applies.unique {meaning other : Meaning Val} {Value : Type} {text : List UInt8}
    {previous : Option UInt8} {branch : Branch Val Value} {position : Nat}
    {occurrences : List Occurrence} {old new newer : Value}
    (functional : ∀ rule previous text value another, meaning rule previous text value →
      other rule previous text another → another = value)
    (applies : Applies meaning text previous branch position occurrences old new)
    (again : Applies other text previous branch position occurrences old newer) :
    newer = new := by
  induction applies with
  | nil =>
    generalize whole : ([] : List UInt8) = text at again
    cases again with
    | nil => rfl
  | @cons _ first rest previous branch element index position occurrences old middle new
      found update others ih =>
    generalize whole : first ++ rest = text at again
    generalize finish : position + first.length = place at again
    cases again with
    | @cons _ head tail _ _ element _ _ _ _ between _ otherFound otherUpdate otherOthers =>
      obtain ⟨rfl, rfl⟩ := List.append_inj whole (by omega)
      obtain rfl := Option.some.inj (found.symm.trans otherFound)
      obtain rfl := Updates.unique functional update otherUpdate
      exact ih otherOthers

/-- A text denotes at most one value. -/
theorem Denotes.unique {grammar : Grammar Val} {name : ι} {previous : Option UInt8}
    {text : List UInt8} {value other : Val name}
    (denotes : grammar.Denotes name previous text value)
    (again : grammar.Denotes name previous text other) : other = value := by
  refine Denotes.induction (motive := fun name previous text value =>
    ∀ other, grammar.Denotes name previous text other → other = value) ?_ denotes other again
  intro name previous text reading branch value preferred found applies other again
  cases again with
  | reading otherPreferred otherFound otherApplies =>
    obtain rfl := Foremost.unique Reading.Precedes.asymm preferred otherPreferred
    obtain rfl := Option.some.inj (found.symm.trans otherFound)
    exact Applies.unique (fun _ _ _ _ another meaning => meaning.2 another) applies otherApplies

/-- The value of a reading: its occurrences update the initial value of the rule in order. -/
def HasValue (grammar : Grammar Val) (name : ι) (previous : Option UInt8) (text : List UInt8)
    (reading : Reading) (value : Val name) : Prop :=
  ∃ branch, (grammar.rule name).branches[reading.branch]? = some branch ∧
    Applies grammar.Denotes text previous branch 0 reading.occurrences
      (grammar.rule name).initial value

end HyperCard.Grammar
