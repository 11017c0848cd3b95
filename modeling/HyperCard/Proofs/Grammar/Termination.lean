import HyperCard.Proofs.Grammar.Denotation

/-!
# The end of matching

Feeding a matcher passes the character on to the nested matchers that are alive, and starts nested
matchers that are fed the same character at once. The definition bounds how many of them start one
inside the other. Here the recursion is written down with no bound, as a relation that holds where
the recursion ends. In a grammar where no rule begins with itself it always does, with the result
of the definition: the induction is on the attempts, whose nested matchers lie inside them, and for
matchers that are started on the rank of their rule. A rule that does begin with itself is not done
with the first character of any word.
-/
namespace HyperCard.Grammar

variable {ι : Type} {Val : ι → Type}

/-- Whether an attempt passes a character on to a nested matcher. -/
def Attempt.passesOn (character : UInt8) : {i : ι} → Attempt Val i → Bool
  | _, .literal _ _ _ => false
  | _, .character _ _ => false
  | _, .pending _ _ _ previous =>
    !Character.isBlank character && !Character.joinsWord previous character
  | _, .inside _ _ _ _ => true

/-- Feeding attempts a character ends: what becomes of them, and the rules of the nested matchers
that the character is passed to. -/
inductive Feeds (grammar : Grammar Val) (character : UInt8) :
    {i : ι} → Attempts Val i → Matcher Val i → List ι → Prop
  /-- No attempt is left. -/
  | nil {i : ι} : Feeds grammar character (.nil : Attempts Val i) .dead []
  /-- The attempt takes the character itself. -/
  | takes {i : ι} {attempt : Attempt Val i} {others : Attempts Val i} {next : Matcher Val i}
      {passed : List ι} (keeps : attempt.passesOn character = false)
      (rest : Feeds grammar character others next passed) :
      Feeds grammar character (.cons attempt others)
        ((attempt.step (fun _ _ _ => .dead) character).merge next) passed
  /-- A nested matcher is started and fed the character. -/
  | starts {i rule : ι} {place : Place Val (Val i)} {update : Val i → Val rule → Val i}
      {previous : Option UInt8} {others : Attempts Val i} {inner : Matcher Val rule}
      {next : Matcher Val i} {within passed : List ι}
      (solid : Character.isBlank character = false)
      (apart : Character.joinsWord previous character = false)
      (fed : Feeds grammar character (grammar.start rule previous).attempts inner within)
      (rest : Feeds grammar character others next passed) :
      Feeds grammar character (.cons (.pending place rule update previous) others)
        ((place.nest rule update inner character).merge next) (rule :: (within ++ passed))
  /-- A nested matcher that is alive is fed the character. -/
  | goesOn {i rule : ι} {place : Place Val (Val i)} {update : Val i → Val rule → Val i}
      {attempts : Attempts Val rule} {others : Attempts Val i} {inner : Matcher Val rule}
      {next : Matcher Val i} {within passed : List ι}
      (fed : Feeds grammar character attempts inner within)
      (rest : Feeds grammar character others next passed) :
      Feeds grammar character (.cons (.inside place rule update attempts) others)
        ((place.nest rule update inner character).merge next) (rule :: (within ++ passed))

/-- Feeding a matcher the characters of a text ends: the last matcher, and for each character the
rules of the nested matchers that it is passed to. -/
inductive Runs (grammar : Grammar Val) {i : ι} :
    Matcher Val i → List UInt8 → Matcher Val i → List (List ι) → Prop
  /-- No character is left. -/
  | nil {matcher : Matcher Val i} : Runs grammar matcher [] matcher []
  /-- A character is fed, then the others. -/
  | cons {matcher next last : Matcher Val i} {character : UInt8} {text : List UInt8}
      {within : List ι} {passed : List (List ι)}
      (fed : Feeds grammar character matcher.attempts next within)
      (rest : Runs grammar next text last passed) :
      Runs grammar matcher (character :: text) last (within :: passed)

section Unique

variable {grammar : Grammar Val} {i : ι} {character : UInt8}

/-- The recursion has one result. -/
theorem Feeds.unique {attempts : Attempts Val i} {next other : Matcher Val i}
    {passed those : List ι} (feeds : Feeds grammar character attempts next passed)
    (also : Feeds grammar character attempts other those) : next = other ∧ passed = those := by
  induction feeds generalizing those with
  | nil =>
    cases also
    exact ⟨rfl, rfl⟩
  | takes keeps _ ih =>
    cases also with
    | takes _ rest =>
      obtain ⟨rfl, rfl⟩ := ih rest
      exact ⟨rfl, rfl⟩
    | starts solid apart _ _ => simp [Attempt.passesOn, solid, apart] at keeps
    | goesOn _ _ => cases keeps
  | starts solid apart _ _ first second =>
    cases also with
    | takes keeps _ => simp [Attempt.passesOn, solid, apart] at keeps
    | starts _ _ fed rest =>
      obtain ⟨rfl, rfl⟩ := first fed
      obtain ⟨rfl, rfl⟩ := second rest
      exact ⟨rfl, rfl⟩
  | goesOn _ _ first second =>
    cases also with
    | takes keeps _ => cases keeps
    | goesOn fed rest =>
      obtain ⟨rfl, rfl⟩ := first fed
      obtain ⟨rfl, rfl⟩ := second rest
      exact ⟨rfl, rfl⟩

/-- So has the recursion over a text. -/
theorem Runs.unique {matcher last other : Matcher Val i} {text : List UInt8}
    {passed those : List (List ι)} (runs : Runs grammar matcher text last passed)
    (also : Runs grammar matcher text other those) : last = other ∧ passed = those := by
  induction runs generalizing other those with
  | nil =>
    cases also
    exact ⟨rfl, rfl⟩
  | cons fed _ ih =>
    cases also with
    | cons also rest =>
      obtain ⟨rfl, rfl⟩ := fed.unique also
      obtain ⟨rfl, rfl⟩ := ih rest
      exact ⟨rfl, rfl⟩

/-- Attempts next to each other are fed one after the other. -/
theorem Feeds.append {left right : Attempts Val i} {first second : Matcher Val i}
    {these those : List ι} (before : Feeds grammar character left first these)
    (behind : Feeds grammar character right second those) :
    Feeds grammar character (left ++ right) (first.merge second) (these ++ those) := by
  induction before with
  | nil => simpa using behind
  | takes keeps _ ih =>
    rw [Attempts.cons_append, Matcher.merge_assoc]
    exact .takes keeps (ih behind)
  | starts solid apart fed _ _ ih =>
    rw [Attempts.cons_append, Matcher.merge_assoc, List.cons_append, List.append_assoc]
    exact .starts solid apart fed (ih behind)
  | goesOn fed _ _ ih =>
    rw [Attempts.cons_append, Matcher.merge_assoc, List.cons_append, List.append_assoc]
    exact .goesOn fed (ih behind)

end Unique

section Ends

variable {grammar : Grammar Val} {i : ι} {character : UInt8}
  {enter : (rule : ι) → Option UInt8 → UInt8 → Matcher Val rule}

/-- Whether starting a nested matcher of a rule and feeding it a character ends, with the result
given for it. -/
def Enters (grammar : Grammar Val) (character : UInt8)
    (enter : (rule : ι) → Option UInt8 → UInt8 → Matcher Val rule) (rule : ι) : Prop :=
  ∀ previous, ∃ passed, Feeds grammar character (grammar.start rule previous).attempts
    (enter rule previous character) passed

/-- An attempt that takes a character itself starts no rule. -/
theorem step_eq_of_passesOn {attempt : Attempt Val i}
    (keeps : attempt.passesOn character = false) :
    attempt.step enter character = attempt.step (fun _ _ _ => .dead) character := by
  cases attempt with
  | literal place literal progress => rw [Attempt.step, Attempt.step]
  | character place set => rw [Attempt.step, Attempt.step]
  | pending place rule update previous =>
    rw [Attempt.step, Attempt.step]
    cases blank : Character.isBlank character with
    | true => rfl
    | false =>
      simp only [Attempt.passesOn, blank, Bool.not_false, Bool.true_and, Bool.not_eq_false']
        at keeps
      simp only [keeps, Bool.false_eq_true, ↓reduceIte]
  | inside place rule update attempts => cases keeps

/-- Behind an attempt that takes a character itself, the recursion ends if it does for the others.
-/
theorem exists_feeds_of_keeps {attempt : Attempt Val i} {others : Attempts Val i}
    (keeps : attempt.passesOn character = false)
    (rest : ∃ passed, Feeds grammar character others (others.step enter character) passed) :
    ∃ passed, Feeds grammar character (.cons attempt others)
      ((Attempts.cons attempt others).step enter character) passed := by
  obtain ⟨passed, rest⟩ := rest
  rw [step_cons, step_eq_of_passesOn keeps]
  exact ⟨passed, .takes keeps rest⟩

/-- Without attempts it ends at once. -/
theorem exists_feeds_nil : ∃ passed, Feeds grammar character (.nil : Attempts Val i)
    ((Attempts.nil : Attempts Val i).step enter character) passed := by
  rw [step_nil]
  exact ⟨[], .nil⟩

/-- An attempt before a nested rule needs only the rule. -/
theorem exists_feeds_pending {place : Place Val (Val i)} {rule : ι}
    {update : Val i → Val rule → Val i} {previous : Option UInt8} {others : Attempts Val i}
    (enters : Enters grammar character enter rule)
    (rest : ∃ passed, Feeds grammar character others (others.step enter character) passed) :
    ∃ passed, Feeds grammar character (.cons (.pending place rule update previous) others)
      ((Attempts.cons (.pending place rule update previous) others).step enter character)
      passed := by
  cases keeps : (Attempt.pending place rule update previous).passesOn character with
  | false => exact exists_feeds_of_keeps keeps rest
  | true =>
    obtain ⟨passed, rest⟩ := rest
    obtain ⟨within, fed⟩ := enters previous
    simp only [Attempt.passesOn, Bool.and_eq_true, Bool.not_eq_true'] at keeps
    obtain ⟨solid, apart⟩ := keeps
    rw [step_cons, Attempt.step, if_neg (by simp [solid]), if_neg (by simp [apart])]
    exact ⟨_, .starts solid apart fed rest⟩

/-- Feeding attempts ends if starting rules does. -/
theorem exists_feeds {i : ι} (enters : ∀ rule, Enters grammar character enter rule)
    (attempts : Attempts Val i) :
    ∃ passed, Feeds grammar character attempts (attempts.step enter character) passed := by
  match attempts with
  | .nil => exact exists_feeds_nil
  | .cons (.literal _ _ _) others => exact exists_feeds_of_keeps rfl (exists_feeds enters others)
  | .cons (.character _ _) others => exact exists_feeds_of_keeps rfl (exists_feeds enters others)
  | .cons (.pending _ rule _ _) others =>
    exact exists_feeds_pending (enters rule) (exists_feeds enters others)
  | .cons (.inside place rule update inner) others =>
    obtain ⟨within, fed⟩ := exists_feeds enters inner
    obtain ⟨passed, rest⟩ := exists_feeds enters others
    rw [step_cons, Attempt.step]
    exact ⟨_, .goesOn fed rest⟩

/-- Starting a rule and feeding it a character ends if starting the rules that it leads to does. -/
theorem exists_feeds_start {previous : Option UInt8}
    (enters : ∀ rule, grammar.Leads i rule → Enters grammar character enter rule) :
    ∃ passed, Feeds grammar character (grammar.start i previous).attempts
      ((grammar.start i previous).attempts.step enter character) passed := by
  refine start_induction (motive := fun attempts =>
    ∃ passed, Feeds grammar character attempts (attempts.step enter character) passed) ?_ ?_ ?_
  · exact exists_feeds_nil
  · rintro left right ⟨these, before⟩ ⟨those, behind⟩
    rw [step_append]
    exact ⟨_, before.append behind⟩
  · intro place leads
    unfold Place.attempt
    split
    · exact exists_feeds_of_keeps rfl exists_feeds_nil
    · exact exists_feeds_of_keeps rfl exists_feeds_nil
    · rename_i rule update found
      exact exists_feeds_pending (enters rule (leads rule update found)) exists_feeds_nil

/-- With as many steps inwards as its rank, starting a rule ends. -/
theorem enters_of_rank {rank : ι → Nat}
    (defined : ∀ name, (grammar.rule name).branches ≠ [] → 0 < rank name)
    (descends : ∀ name rule, grammar.Leads name rule → rank rule < rank name)
    {depth : Nat} {name : ι} (bound : rank name ≤ depth) :
    Enters grammar character (grammar.enter depth) name := by
  induction depth generalizing name with
  | zero =>
    have empty : (grammar.rule name).branches = [] :=
      Decidable.byContradiction fun nonempty => by
        have := defined name nonempty
        omega
    intro previous
    have none : (grammar.start name previous).attempts = .nil := by
      simp [start, empty, seedBranches]
    rw [none]
    exact ⟨[], .nil⟩
  | succ depth ih =>
    intro previous
    refine exists_feeds_start fun rule leads => ih ?_
    have := descends name rule leads
    omega

/-- Feeding a matcher of a grounded grammar ends, with the result of the definition. -/
theorem Grounded.exists_feeds (grounded : grammar.Grounded) (matcher : Matcher Val i)
    (character : UInt8) :
    ∃ passed, Feeds grammar character matcher.attempts (grammar.feed matcher character) passed := by
  obtain ⟨rank, bound, defined, descends⟩ := grounded.exists_rank
  exact Grammar.exists_feeds (fun rule => enters_of_rank defined descends (bound rule))
    matcher.attempts

/-- So does feeding it a text. -/
theorem Grounded.exists_runs (grounded : grammar.Grounded) (matcher : Matcher Val i)
    (text : List UInt8) :
    ∃ passed, Runs grammar matcher text (grammar.feedAll matcher text) passed := by
  induction text generalizing matcher with
  | nil => exact ⟨[], .nil⟩
  | cons character text ih =>
    obtain ⟨within, fed⟩ := grounded.exists_feeds matcher character
    obtain ⟨passed, rest⟩ := ih (grammar.feed matcher character)
    exact ⟨within :: passed, .cons fed rest⟩

end Ends

section Cyclic

variable {grammar : Grammar Val} {i rule : ι} {character : UInt8} {previous : Option UInt8}

/-- Attempts put together are a list of both. -/
theorem Attempts.toList_append (left right : Attempts Val i) :
    (left ++ right).toList = left.toList ++ right.toList := by
  match left with
  | .nil => rfl
  | .cons head tail =>
    rw [Attempts.cons_append, Attempts.toList, Attempts.toList, toList_append tail,
      List.cons_append]

/-- Before a nested rule that a branch may begin with, there is a fresh attempt. -/
theorem mem_seed {value : Val i} {update : Val i → Val rule → Val i} {index position : Nat}
    {skipped following : Branch Val (Val i)} {element : Element Val (Val i)}
    (absent : ∀ other ∈ skipped, other.minimum = 0)
    (found : element.pattern = .nested rule update) :
    ∃ place, .pending place rule update previous ∈
      (seed value index previous position (skipped ++ element :: following)).toList := by
  induction skipped generalizing position with
  | nil =>
    have fresh : Place.attempt ⟨value, index, position, 0, element, following⟩ previous =
        .pending ⟨value, index, position, 0, element, following⟩ rule update previous := by
      simp [Place.attempt, found]
    refine ⟨⟨value, index, position, 0, element, following⟩, ?_⟩
    rw [List.nil_append, seed, fresh]
    split <;> exact List.mem_cons_self
  | cons first skipped ih =>
    obtain ⟨place, member⟩ := @ih (position + 1) fun other inside =>
      absent other (List.mem_cons_of_mem _ inside)
    have none : first.minimum = 0 := absent first List.mem_cons_self
    refine ⟨place, ?_⟩
    simp only [List.cons_append, seed, none, beq_self_eq_true, ↓reduceIte, Attempts.toList]
    exact List.mem_cons_of_mem _ member

/-- A fresh matcher stands before each rule that its rule leads to. -/
theorem Leads.mem_start (leads : grammar.Leads i rule) (previous : Option UInt8) :
    ∃ place update, .pending place rule update previous ∈
      (grammar.start i previous).attempts.toList := by
  obtain ⟨branch, member, skipped, element, following, rfl, absent, update, found⟩ := leads
  have branches : ∀ (branches : List (Branch Val (Val i))) (index : Nat),
      skipped ++ element :: following ∈ branches → ∃ place, .pending place rule update previous ∈
        (seedBranches (grammar.rule i).initial previous index branches).toList := by
    intro branches
    induction branches with
    | nil => exact fun _ member => absurd member List.not_mem_nil
    | cons branch later ih =>
      intro index member
      rw [seedBranches, Attempts.toList_append]
      rcases List.mem_cons.mp member with rfl | member
      · obtain ⟨place, here⟩ := mem_seed absent found
        exact ⟨place, List.mem_append_left _ here⟩
      · obtain ⟨place, there⟩ := ih (index + 1) member
        exact ⟨place, List.mem_append_right _ there⟩
  obtain ⟨place, inside⟩ := branches _ 0 member
  exact ⟨place, update, inside⟩

/-- Feeding attempts does not end where one of them starts a rule that begins with itself. -/
theorem Feeds.not_cyclic {attempts : Attempts Val i} {next : Matcher Val i} {passed : List ι}
    (feeds : Feeds grammar character attempts next passed)
    (solid : Character.isBlank character = false)
    (apart : Character.joinsWord previous character = false) {place : Place Val (Val i)}
    {update : Val i → Val rule → Val i}
    (member : .pending place rule update previous ∈ attempts.toList) :
    ¬ Relation.TransGen grammar.Leads rule rule := by
  intro cyclic
  induction feeds generalizing rule with
  | nil => cases member
  | takes keeps _ ih =>
    rcases List.mem_cons.mp member with rfl | member
    · simp [Attempt.passesOn, solid, apart] at keeps
    · exact ih member cyclic
  | starts _ _ _ _ within ih =>
    rcases List.mem_cons.mp member with same | member
    · cases same
      -- The rule leads to one that also begins with itself, which is fed the same character.
      obtain ⟨led, leads, back⟩ := Relation.TransGen.head'_iff.mp cyclic
      obtain ⟨_, _, inside⟩ := leads.mem_start previous
      exact within inside (.tail' back leads)
    · exact ih member cyclic
  | goesOn _ _ _ ih =>
    rcases List.mem_cons.mp member with same | member
    · cases same
    · exact ih member cyclic

/-- A rule that begins with itself is not done with the first character of a word. -/
theorem not_feeds_of_cyclic {name : ι} (cyclic : Relation.TransGen grammar.Leads name name)
    (solid : Character.isBlank character = false)
    (apart : Character.joinsWord previous character = false) (next : Matcher Val name)
    (passed : List ι) :
    ¬ Feeds grammar character (grammar.start name previous).attempts next passed := by
  intro feeds
  obtain ⟨led, leads, back⟩ := Relation.TransGen.head'_iff.mp cyclic
  obtain ⟨_, _, inside⟩ := leads.mem_start previous
  exact feeds.not_cyclic solid apart inside (.tail' back leads)

end Cyclic

end HyperCard.Grammar
