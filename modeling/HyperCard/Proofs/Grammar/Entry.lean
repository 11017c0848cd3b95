import HyperCard.Proofs.Grammar.Language

/-!
# Entering nested rules

A character that begins a nested rule may begin several rules one inside the other. Each of them
leads to the next, and where no rule leads to itself they are all different, so as many steps
inwards as there are rules suffice: with more, entering a rule does the same. Hence the first
character of a nested rule does to it what it does to a matcher that has just started.
-/
namespace HyperCard.Grammar

variable {ι : Type} {Val : ι → Type}

namespace Attempts

variable {i : ι}

/-- No attempts before others change nothing. -/
@[simp] theorem nil_append (right : Attempts Val i) : .nil ++ right = right := rfl

/-- The first of the attempts in front is the first of all. -/
@[simp] theorem cons_append (head : Attempt Val i) (tail right : Attempts Val i) :
    .cons head tail ++ right = .cons head (tail ++ right) := rfl

/-- No attempts behind others change nothing. -/
@[simp] theorem append_nil (left : Attempts Val i) : left ++ .nil = left := by
  match left with
  | .nil => rfl
  | .cons head tail => rw [cons_append, append_nil tail]

/-- In which order lists of attempts are put together does not matter. -/
theorem append_assoc (left middle right : Attempts Val i) :
    left ++ middle ++ right = left ++ (middle ++ right) := by
  match left with
  | .nil => rfl
  | .cons head tail => rw [cons_append, cons_append, cons_append, append_assoc tail]

end Attempts

namespace Matcher

variable {i : ι}

/-- A matcher without attempts and value adds nothing in front. -/
@[simp] theorem dead_merge (matcher : Matcher Val i) : dead.merge matcher = matcher := by
  obtain ⟨attempts, value⟩ := matcher
  cases value <;> rfl

/-- Nor does it add anything behind. -/
@[simp] theorem merge_dead (matcher : Matcher Val i) : matcher.merge dead = matcher := by
  obtain ⟨attempts, value⟩ := matcher
  cases value <;> simp [merge, dead]

/-- In which order matchers are put together does not matter, because the first value counts. -/
theorem merge_assoc (left middle right : Matcher Val i) :
    (left.merge middle).merge right = left.merge (middle.merge right) := by
  obtain ⟨leftAttempts, leftValue⟩ := left
  cases leftValue <;> simp [merge, Attempts.append_assoc]

end Matcher

section Step

variable {i : ι} (enter : (rule : ι) → Option UInt8 → UInt8 → Matcher Val rule)
  (character : UInt8)

/-- A step of no attempts leaves nothing. -/
@[simp] theorem step_nil : (Attempts.nil : Attempts Val i).step enter character = .dead := by
  rw [Attempts.step]

/-- A step of several attempts is that of the first one and that of the others, put together. -/
theorem step_cons (head : Attempt Val i) (tail : Attempts Val i) :
    (Attempts.cons head tail).step enter character =
      (head.step enter character).merge (tail.step enter character) := by
  rw [Attempts.step]

/-- Attempts next to each other do not meet. -/
theorem step_append (left right : Attempts Val i) :
    (left ++ right).step enter character =
      (left.step enter character).merge (right.step enter character) := by
  match left with
  | .nil => simp
  | .cons head tail =>
    rw [Attempts.cons_append, step_cons, step_cons, step_append tail, Matcher.merge_assoc]

end Step

section Fresh

variable {name : ι} {previous : Option UInt8} {motive : Attempts Val name → Prop}

/-- Fresh attempts at a branch are before the elements that it may begin with. -/
theorem seed_induction (none : motive .nil)
    (append : ∀ left right, motive left → motive right → motive (left ++ right))
    {value : Val name} {index position : Nat} {branch : Branch Val (Val name)}
    (fresh : ∀ place : Place Val (Val name), ∀ skipped following,
      branch = skipped ++ place.element :: following →
      (∀ passed ∈ skipped, passed.minimum = 0) → motive (.cons (place.attempt previous) .nil)) :
    motive (seed value index previous position branch) := by
  induction branch generalizing position with
  | nil => exact none
  | cons element following ih =>
    have here := fresh ⟨value, index, position, 0, element, following⟩ [] following rfl (by simp)
    by_cases absent : element.minimum = 0
    · have there := @ih (position + 1) fun place skipped after split passed =>
        fresh place (element :: skipped) after (by rw [split]; rfl) (by simpa [absent] using passed)
      simp only [seed, absent, beq_self_eq_true, ↓reduceIte]
      exact append (.cons _ .nil) _ here there
    · have needed : (element.minimum == 0) = false := by simpa using absent
      simpa only [seed, needed, Bool.false_eq_true, ↓reduceIte] using here

/-- Fresh attempts at a rule are before elements that a branch may begin with, so those before a
nested rule are before one that the rule leads to. -/
theorem start_induction {grammar : Grammar Val} (none : motive .nil)
    (append : ∀ left right, motive left → motive right → motive (left ++ right))
    (fresh : ∀ place : Place Val (Val name), (∀ rule update,
      place.element.pattern = .nested rule update → grammar.Leads name rule) →
        motive (.cons (place.attempt previous) .nil)) :
    motive (grammar.start name previous).attempts := by
  have branches : ∀ (branches : List (Branch Val (Val name))) (index : Nat),
      (∀ branch ∈ branches, branch ∈ (grammar.rule name).branches) →
      motive (seedBranches (grammar.rule name).initial previous index branches) := by
    intro branches
    induction branches with
    | nil => exact fun _ _ => none
    | cons branch later ih =>
      intro index members
      have here : motive (seed (grammar.rule name).initial index previous 0 branch) :=
        seed_induction none append fun place skipped following split passed =>
          fresh place fun rule update found => ⟨branch, members branch (by simp), skipped,
            place.element, following, split, passed, update, found⟩
      have there := ih (index + 1) (fun other member => members other (by simp [member]))
      exact append _ _ here there
  exact branches _ 0 (fun _ member => member)

/-- Fresh attempts at a rule enter no rules but those that it leads to. -/
theorem step_start_congr {grammar : Grammar Val} {character : UInt8}
    {enter other : (rule : ι) → Option UInt8 → UInt8 → Matcher Val rule}
    (agree : ∀ rule, grammar.Leads name rule → enter rule = other rule) :
    (grammar.start name previous).attempts.step enter character =
      (grammar.start name previous).attempts.step other character := by
  refine start_induction (motive := fun attempts =>
    attempts.step enter character = attempts.step other character) ?_ ?_ ?_
  · rw [step_nil, step_nil]
  · intro left right same also
    rw [step_append, step_append, same, also]
  · intro place leads
    rw [step_cons, step_cons, step_nil, step_nil]
    congr 1
    unfold Place.attempt
    split
    · rw [Attempt.step, Attempt.step]
    · rw [Attempt.step, Attempt.step]
    · rename_i rule update found
      rw [Attempt.step, Attempt.step, agree rule (leads rule update found)]

end Fresh

variable {grammar : Grammar Val}

/-- A finite family of rules none of which begins with itself, be it through other rules. -/
structure Grounded (grammar : Grammar Val) : Prop where
  /-- No rule begins with itself. -/
  acyclic : ∀ name, ¬ Relation.TransGen grammar.Leads name name
  /-- The size bounds the number of rules with branches. -/
  counted : ∃ names : List ι, names.length ≤ grammar.size ∧
    ∀ name, (grammar.rule name).branches ≠ [] → name ∈ names

/-- A proper family of rules is grounded. -/
theorem Proper.grounded (proper : grammar.Proper) : grammar.Grounded :=
  ⟨proper.acyclic, proper.counted⟩

/-- Rules can be ranked above those that they lead to, with ranks up to the size of the grammar
and not the lowest rank for a rule with branches. -/
theorem Grounded.exists_rank (grounded : grammar.Grounded) :
    ∃ rank : ι → Nat, (∀ name, rank name ≤ grammar.size) ∧
      (∀ name, (grammar.rule name).branches ≠ [] → 0 < rank name) ∧
      ∀ name rule, grammar.Leads name rule → rank rule < rank name := by
  classical
  obtain ⟨names, bound, listed⟩ := grounded.counted
  refine ⟨fun name => names.countP fun rule => Relation.ReflTransGen grammar.Leads name rule,
    ?_, ?_, ?_⟩
  · exact fun name => Nat.le_trans List.countP_le_length bound
  · intro name nonempty
    exact List.countP_pos_iff.mpr ⟨name, listed name nonempty, by simpa using .refl⟩
  · intro name rule leads
    have member : name ∈ names := by
      obtain ⟨branch, member, _⟩ := leads
      exact listed name (List.ne_nil_of_mem member)
    have outside : ¬ Relation.ReflTransGen grammar.Leads rule name :=
      fun back => grounded.acyclic name (.head' leads back)
    have apart := List.perm_cons_erase member
    change names.countP _ < names.countP _
    rw [apart.countP_eq, apart.countP_eq, List.countP_cons_of_neg (by simpa using outside),
      List.countP_cons_of_pos (by simpa using .refl)]
    refine Nat.lt_succ_of_le (List.countP_mono_left fun other _ reached => ?_)
    simp only [decide_eq_true_eq] at reached ⊢
    exact .head leads reached

/-- Entering a rule deeper than there are rules to enter makes no difference. -/
theorem enter_stable {rank : ι → Nat}
    (defined : ∀ name, (grammar.rule name).branches ≠ [] → 0 < rank name)
    (descends : ∀ name rule, grammar.Leads name rule → rank rule < rank name)
    {depth : Nat} {name : ι} (bound : rank name ≤ depth) :
    grammar.enter (depth + 1) name = grammar.enter depth name := by
  induction depth generalizing name with
  | zero =>
    have empty : (grammar.rule name).branches = [] :=
      Decidable.byContradiction fun nonempty => by
        have := defined name nonempty
        omega
    funext previous character
    simp [enter, start, empty, seedBranches]
  | succ depth ih =>
    funext previous character
    refine step_start_congr fun rule leads => ih ?_
    have := descends name rule leads
    omega

/-- The first character of a nested rule does to it what it does to a matcher of the rule that
has just started. -/
theorem enter_eq_feed (proper : grammar.Proper) (name : ι) (previous : Option UInt8)
    (character : UInt8) :
    grammar.enter grammar.size name previous character =
      grammar.feed (grammar.start name previous) character := by
  obtain ⟨rank, bound, defined, descends⟩ := proper.grounded.exists_rank
  rw [← enter_stable defined descends (bound name)]
  rfl

end HyperCard.Grammar
