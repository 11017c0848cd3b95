import HyperCard.Proofs.Grammar.Quoting
import HyperCard.Proofs.Grammar.Termination

/-!
# Where the attempts of a matcher stand

A live attempt stands at one occurrence of one element of one branch. With one more character there
come in its place the attempt itself, as long as its occurrence may go on, and fresh attempts at the
places behind the occurrence: the same element once more, and the elements after it up to the first
one that must occur. `Attempt.Becomes` is the list of these cases. They are all in the same branch,
so the attempts stay in the order of their branches, and all of them are places of the rule, so the
attempts never stand anywhere else. What a nested matcher does is such a step as well, or the step
that begins it, and therefore the same holds of the nested matchers at any depth.
-/
namespace HyperCard.Grammar

variable {ι : Type} {Val : ι → Type} {i j : ι}

/-- Where an attempt stands. -/
def Attempt.place : {i : ι} → Attempt Val i → Place Val (Val i)
  | _, .literal place _ _ => place
  | _, .character place _ => place
  | _, .pending place _ _ _ => place
  | _, .inside place _ _ _ => place

/-- What an attempt matches there. -/
def Attempt.pattern : {i : ι} → Attempt Val i → Pattern Val (Val i)
  | _, .literal _ expected _ => .literal expected
  | _, .character _ set => .character set
  | _, .pending _ rule update _ => .nested rule update
  | _, .inside _ rule update _ => .nested rule update

/-- Whether the occurrence that an attempt is in may go on: some of its text is left, its character
or its rule has not begun, or some interpretation by its rule is alive. -/
def Attempt.CanContinue : {i : ι} → Attempt Val i → Prop
  | _, .literal _ expected progress => progress.remaining expected.text.characters ≠ []
  | _, .character _ _ => True
  | _, .pending _ _ _ _ => True
  | _, .inside _ _ _ attempts => attempts.isEmpty = false

/-- A place of a rule: its branch is one of the rule, its element stands at its index in the branch
before the elements that follow, and so few occurrences are complete that another one is allowed. -/
structure Place.IsOf (grammar : Grammar Val) (place : Place Val (Val i)) : Prop where
  /-- Branch and element are there. -/
  exists_branch : ∃ branch, (grammar.rule i).branches[place.branch]? = some branch ∧
    branch[place.index]? = some place.element ∧ branch.drop (place.index + 1) = place.following
  /-- Another occurrence is allowed. -/
  occurrence_lt : ∀ most ∈ place.element.maximum, place.occurrence < most

/-- An attempt that is alive: it stands at a place of its rule, matches what the element there does,
and its occurrence may go on. -/
structure Attempt.IsAlive (grammar : Grammar Val) (attempt : Attempt Val i) : Prop where
  /-- It stands at a place of its rule. -/
  place : attempt.place.IsOf grammar
  /-- It matches what the element there does. -/
  pattern : attempt.pattern = attempt.place.element.pattern
  /-- Its occurrence may go on. -/
  canContinue : attempt.CanContinue

/-- Attempts that are alive, in the order of their branches. -/
structure Attempts.AreOrderly (grammar : Grammar Val) (attempts : Attempts Val i) : Prop where
  /-- Earlier branches come first. -/
  sorted : attempts.toList.Pairwise fun left right => left.place.branch ≤ right.place.branch
  /-- Each attempt is alive. -/
  alive : ∀ attempt ∈ attempts.toList, attempt.IsAlive grammar

/-- Attempts of a matcher or of a nested matcher that is alive in it, at any depth. -/
inductive Attempts.LiesIn (inner : Attempts Val j) : {i : ι} → Attempts Val i → Prop
  /-- The attempts of the matcher. -/
  | self : LiesIn inner inner
  /-- Attempts in those of a nested matcher. -/
  | deeper {i rule : ι} {outer : Attempts Val i} {place : Place Val (Val i)}
      {update : Val i → Val rule → Val i} {attempts : Attempts Val rule}
      (member : .inside place rule update attempts ∈ outer.toList)
      (lies : LiesIn inner attempts) : LiesIn inner outer

/-- Some branch of a rule has another rule in it. -/
def Embeds (grammar : Grammar Val) (name rule : ι) : Prop :=
  ∃ branch ∈ (grammar.rule name).branches, ∃ element ∈ branch, ∃ update,
    element.pattern = .nested rule update

/-- No text of a rule is empty, and none of the rules in it, at any depth. -/
def HasTexts (grammar : Grammar Val) (name : ι) : Prop :=
  ∀ rule, Relation.ReflTransGen grammar.Embeds name rule →
    ∀ branch ∈ (grammar.rule rule).branches, ∀ element ∈ branch,
      ∀ literal, element.pattern = .literal literal → literal.text.characters ≠ []

variable {grammar : Grammar Val}

/-- In a proper family of rules every rule has texts that are not empty. -/
theorem Proper.hasTexts (proper : grammar.Proper) (name : ι) : grammar.HasTexts name := by
  intro rule _ branch member element inside literal found empty
  obtain ⟨first, rest, text, _⟩ := proper.texts rule branch member element inside literal found
  rw [text] at empty
  exact List.cons_ne_nil _ _ empty

/-- So have the rules that are embedded in one that has them. -/
theorem HasTexts.embedded {name rule : ι} (texts : grammar.HasTexts name)
    (reached : Relation.ReflTransGen grammar.Embeds name rule) : grammar.HasTexts rule :=
  fun other further => texts other (reached.trans further)

section Fresh

variable {place : Place Val (Val i)} {previous : Option UInt8} {attempt : Attempt Val i}

/-- A fresh attempt stands at its place. -/
@[simp] theorem Place.place_attempt (place : Place Val (Val i)) (previous : Option UInt8) :
    (place.attempt previous).place = place := by
  unfold attempt
  split <;> rfl

/-- A fresh attempt is inside of no nested matcher. -/
theorem Place.attempt_ne_inside {other : Place Val (Val i)} {rule : ι}
    {update : Val i → Val rule → Val i} {attempts : Attempts Val rule} :
    place.attempt previous ≠ .inside other rule update attempts := by
  unfold attempt
  split <;> nofun

/-- The element of a place of a rule is in a branch of the rule. -/
theorem Place.IsOf.exists_mem (isOf : place.IsOf grammar) :
    ∃ branch ∈ (grammar.rule i).branches, place.element ∈ branch := by
  obtain ⟨branch, found, element, _⟩ := isOf.exists_branch
  exact ⟨branch, List.mem_of_getElem? found, List.mem_of_getElem? element⟩

/-- A fresh attempt at a place of a rule is alive if the texts of the rule are not empty. -/
theorem Place.IsOf.isAlive (texts : grammar.HasTexts i) (isOf : place.IsOf grammar)
    (previous : Option UInt8) : (place.attempt previous).IsAlive grammar := by
  refine ⟨by rwa [place_attempt], ?_, ?_⟩
  · rw [place_attempt]
    unfold attempt
    split <;> rename_i found <;> exact found.symm
  · unfold attempt
    split
    · rename_i literal found
      obtain ⟨branch, member, inside⟩ := isOf.exists_mem
      exact texts i .refl branch member _ inside literal found
    · trivial
    · trivial

/-- Fresh attempts at some elements are before the first occurrence of one of them. -/
theorem exists_of_mem_seed {value : Val i} {number position : Nat}
    {remaining : Branch Val (Val i)}
    (member : attempt ∈ (seed value number previous position remaining).toList) :
    ∃ skipped element following, remaining = skipped ++ element :: following ∧
      attempt = Place.attempt ⟨value, number, position + skipped.length, 0, element, following⟩
        previous := by
  induction remaining generalizing position with
  | nil => cases member
  | cons element following ih =>
    have here : ∀ other, other = Place.attempt ⟨value, number, position, 0, element, following⟩
        previous → ∃ skipped first rest, element :: following = skipped ++ first :: rest ∧
          other = Place.attempt ⟨value, number, position + skipped.length, 0, first, rest⟩
            previous :=
      fun other same => ⟨[], element, following, rfl, same⟩
    rw [seed] at member
    split at member
    · rcases List.mem_cons.mp member with same | later
      · exact here attempt same
      · obtain ⟨skipped, first, rest, rfl, rfl⟩ := ih later
        refine ⟨element :: skipped, first, rest, rfl, ?_⟩
        rw [List.length_cons, Nat.add_right_comm, Nat.add_assoc position]
    · exact here attempt (List.mem_singleton.mp member)

/-- Fresh attempts at branches are at elements of one of them. -/
theorem exists_of_mem_seedBranches {initial : Val i} {index : Nat}
    {branches : List (Branch Val (Val i))}
    (member : attempt ∈ (seedBranches initial previous index branches).toList) :
    ∃ number skipped element following,
      branches[number]? = some (skipped ++ element :: following) ∧
        attempt = Place.attempt ⟨initial, index + number, skipped.length, 0, element, following⟩
          previous := by
  induction branches generalizing index with
  | nil => cases member
  | cons branch later ih =>
    rw [seedBranches, Attempts.toList_append] at member
    rcases List.mem_append.mp member with here | there
    · obtain ⟨skipped, element, following, rfl, rfl⟩ := exists_of_mem_seed here
      exact ⟨0, skipped, element, following, rfl, by rw [Nat.zero_add]; rfl⟩
    · obtain ⟨number, skipped, element, following, found, rfl⟩ := ih there
      refine ⟨number + 1, skipped, element, following, found, ?_⟩
      rw [Nat.add_right_comm, Nat.add_assoc index]

/-- Attempts at one branch are in order. -/
theorem sorted_of_branch {attempts : Attempts Val i} {number : Nat}
    (same : ∀ attempt ∈ attempts.toList, attempt.place.branch = number) :
    attempts.toList.Pairwise fun left right => left.place.branch ≤ right.place.branch :=
  List.pairwise_of_forall_mem_list fun left first right second =>
    Nat.le_of_eq ((same left first).trans (same right second).symm)

/-- Fresh attempts at the branches of a rule are in the order of the branches. -/
theorem sorted_seedBranches (initial : Val i) (previous : Option UInt8) (index : Nat)
    (branches : List (Branch Val (Val i))) :
    (seedBranches initial previous index branches).toList.Pairwise fun left right =>
      left.place.branch ≤ right.place.branch := by
  have of_branch : ∀ branch, ∀ attempt ∈ (seed initial index previous 0 branch).toList,
      attempt.place.branch = index := by
    intro branch attempt member
    obtain ⟨_, _, _, _, rfl⟩ := exists_of_mem_seed member
    rw [Place.place_attempt]
  induction branches generalizing index with
  | nil => exact .nil
  | cons branch later ih =>
    rw [seedBranches, Attempts.toList_append, List.pairwise_append]
    refine ⟨sorted_of_branch (of_branch branch), ih (index + 1) ?_, ?_⟩
    · intro other attempt member
      obtain ⟨_, _, _, _, rfl⟩ := exists_of_mem_seed member
      rw [Place.place_attempt]
    · intro left first right second
      obtain ⟨number, _, _, _, _, rfl⟩ := exists_of_mem_seedBranches second
      rw [of_branch branch left first, Place.place_attempt]
      dsimp only
      omega

/-- Before the first character the attempts of a matcher are in order and alive. -/
theorem orderly_start (texts : grammar.HasTexts i) (previous : Option UInt8) :
    (grammar.start i previous).attempts.AreOrderly grammar := by
  refine ⟨sorted_seedBranches _ _ _ _, fun attempt member => ?_⟩
  obtain ⟨number, skipped, element, following, found, rfl⟩ := exists_of_mem_seedBranches member
  rw [← Nat.zero_add number] at found
  refine Place.IsOf.isAlive texts ⟨⟨_, found, ?_, ?_⟩, fun most bound => ?_⟩ previous
  · rw [List.getElem?_append_right (Nat.le_refl _), Nat.sub_self, List.getElem?_cons_zero]
  · rw [← List.tail_drop, List.drop_left, List.tail_cons]
  · have := element.bounded most bound
    dsimp only
    omega

end Fresh

section Steps

/-- The places behind an occurrence: the same element once more, if it allows that, and the elements
after it up to the first one that must occur. -/
inductive Place.Next (place : Place Val (Val i)) : Place Val (Val i) → Prop
  /-- The same element once more. -/
  | again {value : Val i} (allowed : place.element.allowsRepeat (place.occurrence + 1) = true) :
      Next place { place with value, occurrence := place.occurrence + 1 }
  /-- An element after it. -/
  | later {value : Val i} {skipped following : Branch Val (Val i)} {element : Element Val (Val i)}
      (split : place.following = skipped ++ element :: following) :
      Next place
        ⟨value, place.branch, place.index + 1 + skipped.length, 0, element, following⟩

/-- What an attempt becomes with one more character. -/
inductive Attempt.Becomes (enter : (rule : ι) → Option UInt8 → UInt8 → Matcher Val rule)
    (character : UInt8) : Attempt Val i → Attempt Val i → Prop
  /-- A text of which some is left goes on. -/
  | literal {place : Place Val (Val i)} {literal : Literal (Val i)}
      {progress later : LiteralProgress}
      (left : later.remaining literal.text.characters ≠ []) :
      Becomes enter character (.literal place literal progress) (.literal place literal later)
  /-- A nested rule is still before its first character. -/
  | waits {place : Place Val (Val i)} {rule : ι} {update : Val i → Val rule → Val i}
      {previous : Option UInt8} :
      Becomes enter character (.pending place rule update previous)
        (.pending place rule update (some character))
  /-- A nested rule begins and is alive. -/
  | begins {place : Place Val (Val i)} {rule : ι} {update : Val i → Val rule → Val i}
      {previous : Option UInt8}
      (alive : (enter rule previous character).attempts.isEmpty = false) :
      Becomes enter character (.pending place rule update previous)
        (.inside place rule update (enter rule previous character).attempts)
  /-- A nested rule goes on and is alive. -/
  | goesOn {place : Place Val (Val i)} {rule : ι} {update : Val i → Val rule → Val i}
      {attempts : Attempts Val rule}
      (alive : (attempts.step enter character).attempts.isEmpty = false) :
      Becomes enter character (.inside place rule update attempts)
        (.inside place rule update (attempts.step enter character).attempts)
  /-- An occurrence is complete, and a fresh attempt stands behind it. -/
  | completes {attempt : Attempt Val i} {next : Place Val (Val i)}
      (behind : attempt.place.Next next) :
      Becomes enter character attempt (next.attempt (some character))

variable {place next : Place Val (Val i)} {attempt other : Attempt Val i} {character : UInt8}
  {enter : (rule : ι) → Option UInt8 → UInt8 → Matcher Val rule}

/-- The next place is one of the same branch. -/
theorem Place.Next.branch_eq (behind : place.Next next) : next.branch = place.branch := by
  cases behind <;> rfl

/-- The places behind an occurrence are places of the same rule. -/
theorem Place.Next.isOf (behind : place.Next next) (isOf : place.IsOf grammar) :
    next.IsOf grammar := by
  obtain ⟨branch, found, element, following⟩ := isOf.exists_branch
  cases behind with
  | again allowed =>
    refine ⟨⟨branch, found, element, following⟩, fun most bound => ?_⟩
    rw [Element.allowsRepeat, Option.all_eq_true] at allowed
    exact of_decide_eq_true (allowed most bound)
  | @later value skipped rest element split =>
    -- The elements after the current one are what the branch has behind its index.
    have behind : branch.drop (place.index + 1 + skipped.length) = element :: rest := by
      rw [← List.drop_drop, following, split, List.drop_left]
    refine ⟨⟨branch, found, ?_, ?_⟩, fun most bound => ?_⟩
    · rw [← List.head?_drop, behind, List.head?_cons]
    · rw [← List.tail_drop, behind, List.tail_cons]
    · have := element.bounded most bound
      dsimp only
      omega

/-- A text that is still awaited is not empty. -/
theorem Literal.text_ne_nil_of_awaiting {Value : Type} {literal : Literal Value}
    {progress : LiteralProgress} {previous : Option UInt8}
    (advanced : literal.advance progress character = some (.awaiting previous)) :
    literal.text.characters ≠ [] := by
  intro empty
  unfold advance at advanced
  cases progress with
  | awaiting before =>
    rw [empty] at advanced
    cases advanced
  | inside afterBlank remaining matched =>
    cases remaining with
    | nil => cases advanced
    | cons expected rest =>
      dsimp only at advanced
      split at advanced
      · cases advanced
      · split at advanced <;> cases advanced

/-- What follows an occurrence that is complete are fresh attempts behind it. -/
theorem exists_of_mem_complete {value : Val i}
    (member : attempt ∈ (place.complete value character).attempts.toList) :
    ∃ next, place.Next next ∧ attempt = next.attempt (some character) := by
  have repetition : ∀ attempt ∈ (place.repetition value character).attempts.toList,
      ∃ next, place.Next next ∧ attempt = next.attempt (some character) := by
    intro attempt member
    unfold Place.repetition Matcher.live at member
    split at member
    · rename_i allowed
      exact ⟨_, .again allowed, List.mem_singleton.mp member⟩
    · cases member
  by_cases enough : place.element.minimum ≤ place.occurrence + 1
  · rw [Place.complete_of_enough enough, Matcher.merge, Attempts.toList_append] at member
    rcases List.mem_append.mp member with again | after
    · exact repetition attempt again
    · obtain ⟨skipped, element, following, split, rfl⟩ := exists_of_mem_seed after
      exact ⟨_, .later split, rfl⟩
  · rw [Place.complete_of_few enough] at member
    exact repetition attempt member

/-- What becomes of an attempt inside a nested rule is the attempt with what became of the rule, if
that is alive, or stands behind the occurrence. -/
theorem of_mem_nest {rule : ι} {update : Val i → Val rule → Val i} {inner : Matcher Val rule}
    (member : other ∈ (place.nest rule update inner character).attempts.toList) :
    inner.attempts.isEmpty = false ∧ other = .inside place rule update inner.attempts ∨
      ∃ next, place.Next next ∧ other = next.attempt (some character) := by
  rw [Place.nest_eq, Matcher.merge, Attempts.toList_append] at member
  rcases List.mem_append.mp member with going | completed
  · unfold Place.ongoing Matcher.live at going
    split at going
    · cases going
    · rename_i alive
      exact .inl ⟨Bool.eq_false_iff.mpr alive, List.mem_singleton.mp going⟩
  · cases found : inner.value with
    | none =>
      rw [found] at completed
      cases completed
    | some value =>
      rw [found] at completed
      exact .inr (exists_of_mem_complete completed)

/-- What a step makes of an attempt is one of the cases. -/
theorem becomes_of_mem_step (member : other ∈ (attempt.step enter character).attempts.toList) :
    attempt.Becomes enter character other := by
  cases attempt with
  | literal place literal progress =>
    rw [Attempt.step] at member
    cases advanced : literal.advance progress character with
    | none =>
      rw [advanced] at member
      cases member
    | some later =>
      rw [advanced] at member
      cases later with
      | awaiting previous =>
        obtain rfl := List.mem_singleton.mp member
        exact .literal (Literal.text_ne_nil_of_awaiting advanced)
      | inside afterBlank remaining matched =>
        cases remaining with
        | nil =>
          obtain ⟨next, behind, rfl⟩ := exists_of_mem_complete member
          exact .completes behind
        | cons expected rest =>
          obtain rfl := List.mem_singleton.mp member
          exact .literal (List.cons_ne_nil _ _)
  | character place set =>
    rw [Attempt.step] at member
    split at member
    · obtain ⟨next, behind, rfl⟩ := exists_of_mem_complete member
      exact .completes behind
    · cases member
  | pending place rule update previous =>
    rw [Attempt.step] at member
    split at member
    · obtain rfl := List.mem_singleton.mp member
      exact .waits
    · split at member
      · cases member
      · rcases of_mem_nest member with ⟨alive, rfl⟩ | ⟨next, behind, rfl⟩
        · exact .begins alive
        · exact .completes behind
  | inside place rule update attempts =>
    rw [Attempt.step] at member
    rcases of_mem_nest member with ⟨alive, rfl⟩ | ⟨next, behind, rfl⟩
    · exact .goesOn alive
    · exact .completes behind

/-- An attempt stays in its branch. -/
theorem Attempt.Becomes.branch_eq (becomes : attempt.Becomes enter character other) :
    other.place.branch = attempt.place.branch := by
  cases becomes with
  | completes behind =>
    rw [Place.place_attempt]
    exact behind.branch_eq
  | _ => rfl

/-- An attempt that is alive becomes attempts that are alive. -/
theorem Attempt.Becomes.isAlive (texts : grammar.HasTexts i)
    (becomes : attempt.Becomes enter character other) (alive : attempt.IsAlive grammar) :
    other.IsAlive grammar := by
  cases becomes with
  | literal left => exact ⟨alive.place, alive.pattern, left⟩
  | waits => exact ⟨alive.place, alive.pattern, trivial⟩
  | begins going => exact ⟨alive.place, alive.pattern, going⟩
  | goesOn going => exact ⟨alive.place, alive.pattern, going⟩
  | completes behind => exact (behind.isOf alive.place).isAlive texts _

/-- A nested matcher has gone on, or it has begun. -/
theorem Attempt.Becomes.of_inside {rule : ι} {update : Val i → Val rule → Val i}
    {inner : Attempts Val rule}
    (becomes : attempt.Becomes enter character (.inside place rule update inner)) :
    (∃ former, attempt = .inside place rule update former ∧
        inner = (former.step enter character).attempts) ∨
      ∃ previous, attempt = .pending place rule update previous ∧
        inner = (enter rule previous character).attempts := by
  generalize same : Attempt.inside place rule update inner = other at becomes
  cases becomes with
  | literal => cases same
  | waits => cases same
  | begins =>
    cases same
    exact .inr ⟨_, rfl, rfl⟩
  | goesOn =>
    cases same
    exact .inl ⟨_, rfl, rfl⟩
  | completes => exact absurd same.symm Place.attempt_ne_inside

/-- A step puts in place of each attempt what becomes of it. -/
theorem toList_step (attempts : Attempts Val i) :
    (attempts.step enter character).attempts.toList =
      attempts.toList.flatMap fun attempt => (attempt.step enter character).attempts.toList := by
  match attempts with
  | .nil =>
    rw [step_nil]
    rfl
  | .cons head tail =>
    rw [step_cons, Attempts.toList, List.flatMap_cons, ← toList_step tail]
    exact Attempts.toList_append _ _

/-- A step keeps attempts in order and alive. -/
theorem Attempts.AreOrderly.step (texts : grammar.HasTexts i) {attempts : Attempts Val i}
    (orderly : attempts.AreOrderly grammar) :
    (attempts.step enter character).attempts.AreOrderly grammar := by
  constructor
  · -- What comes of one attempt is at one branch, and two attempts keep theirs.
    rw [toList_step, List.pairwise_flatMap]
    refine ⟨fun attempt _ => sorted_of_branch fun other member =>
      (becomes_of_mem_step member).branch_eq, ?_⟩
    refine orderly.sorted.imp fun {left right} before first one second two => ?_
    rw [(becomes_of_mem_step one).branch_eq, (becomes_of_mem_step two).branch_eq]
    exact before
  · intro other member
    rw [toList_step, List.mem_flatMap] at member
    obtain ⟨attempt, inside, member⟩ := member
    exact (becomes_of_mem_step member).isAlive texts (orderly.alive attempt inside)

/-- The nested matchers after a step have made the step themselves, or lie in one that has begun
with it. -/
theorem Attempts.LiesIn.of_step {attempts : Attempts Val i} {inner : Attempts Val j}
    (lies : inner.LiesIn (attempts.step enter character).attempts) :
    (∃ former : Attempts Val j, former.LiesIn attempts ∧
        inner = (former.step enter character).attempts) ∨
      ∃ (holder rule : ι) (outer : Attempts Val holder) (place : Place Val (Val holder))
        (update : Val holder → Val rule → Val holder) (previous : Option UInt8),
        outer.LiesIn attempts ∧ .pending place rule update previous ∈ outer.toList ∧
          inner.LiesIn (enter rule previous character).attempts := by
  generalize stepped : (attempts.step enter character).attempts = outer at lies
  -- From the outside inwards: a nested matcher that was there before has made the same step, and
  -- one that was not has been entered with everything in it.
  induction lies with
  | self => exact .inl ⟨attempts, .self, stepped.symm⟩
  | @deeper _ rule _ place update within member lies ih =>
    subst stepped
    rw [toList_step, List.mem_flatMap] at member
    obtain ⟨attempt, inside, member⟩ := member
    rcases (becomes_of_mem_step member).of_inside with
      ⟨former, rfl, rfl⟩ | ⟨previous, rfl, rfl⟩
    · rcases ih rfl with ⟨last, deep, same⟩ |
        ⟨holder, other, outer, there, change, previous, deep, waiting, begun⟩
      · exact .inl ⟨last, .deeper inside deep, same⟩
      · exact .inr ⟨holder, other, outer, there, change, previous, .deeper inside deep, waiting,
          begun⟩
    · exact .inr ⟨_, rule, attempts, place, update, previous, .self, inside, lies⟩

end Steps

section Nested

variable {attempts : Attempts Val i} {inner : Attempts Val j} {character : UInt8}
  {enter : (rule : ι) → Option UInt8 → UInt8 → Matcher Val rule}

/-- Attempts that are in order and alive, and so are those of all nested matchers. -/
def Attempts.AreOrderlyThroughout (grammar : Grammar Val) (attempts : Attempts Val i) : Prop :=
  ∀ (j : ι) (inner : Attempts Val j), inner.LiesIn attempts → inner.AreOrderly grammar

/-- The rule of an attempt before or inside a nested rule has that rule in it. -/
theorem Attempt.IsAlive.embeds {attempt : Attempt Val i} {rule : ι}
    {update : Val i → Val rule → Val i} (alive : attempt.IsAlive grammar)
    (nested : attempt.pattern = .nested rule update) : grammar.Embeds i rule := by
  obtain ⟨branch, member, inside⟩ := alive.place.exists_mem
  exact ⟨branch, member, _, inside, update, alive.pattern.symm.trans nested⟩

/-- The rules of nested matchers are in the rule of the matcher, at some depth. -/
theorem Attempts.LiesIn.embedded (lies : inner.LiesIn attempts)
    (orderly : attempts.AreOrderlyThroughout grammar) :
    Relation.ReflTransGen grammar.Embeds i j := by
  induction lies with
  | self => exact .refl
  | deeper member lies ih =>
    have embeds := ((orderly _ _ .self).alive _ member).embeds rfl
    exact .head embeds (ih fun _ other deep => orderly _ other (.deeper member deep))

/-- A step keeps the attempts of all nested matchers in order and alive if those that begin with it
are so. -/
theorem Attempts.AreOrderlyThroughout.step (texts : grammar.HasTexts i)
    (orderly : attempts.AreOrderlyThroughout grammar)
    (entered : ∀ rule, grammar.HasTexts rule → ∀ previous,
      (enter rule previous character).attempts.AreOrderlyThroughout grammar) :
    (attempts.step enter character).attempts.AreOrderlyThroughout grammar := by
  intro rule inner lies
  rcases lies.of_step with ⟨former, deep, rfl⟩ |
    ⟨holder, begun, outer, place, update, previous, deep, waiting, within⟩
  · exact (orderly _ former deep).step (texts.embedded (deep.embedded orderly))
  · have embeds := ((orderly _ outer deep).alive _ waiting).embeds rfl
    exact entered begun (texts.embedded ((deep.embedded orderly).tail embeds)) previous _ inner
      within

/-- No attempts are in order. -/
theorem orderlyThroughout_nil : (.nil : Attempts Val i).AreOrderlyThroughout grammar := by
  intro rule inner lies
  cases lies with
  | self => exact ⟨.nil, nofun⟩
  | deeper member _ => cases member

/-- Before the first character there is no nested matcher. -/
theorem orderlyThroughout_start (texts : grammar.HasTexts i) (previous : Option UInt8) :
    (grammar.start i previous).attempts.AreOrderlyThroughout grammar := by
  intro rule inner lies
  generalize fresh : (grammar.start i previous).attempts = attempts at lies
  cases lies with
  | self =>
    rw [← fresh]
    exact orderly_start texts previous
  | deeper member _ =>
    rw [← fresh] at member
    obtain ⟨_, _, _, _, _, same⟩ := exists_of_mem_seedBranches member
    exact absurd same.symm Place.attempt_ne_inside

/-- Nested matchers begin in order and alive. -/
theorem orderlyThroughout_enter (depth : Nat) (texts : grammar.HasTexts i)
    (previous : Option UInt8) (character : UInt8) :
    (grammar.enter depth i previous character).attempts.AreOrderlyThroughout grammar := by
  -- Rules that begin with the same character are entered one step less deep.
  induction depth generalizing i previous with
  | zero => exact orderlyThroughout_nil
  | succ depth ih =>
    exact (orderlyThroughout_start texts previous).step texts fun rule texts previous =>
      ih texts previous

/-- A matcher that is fed a text stays in order and alive. -/
theorem orderlyThroughout_feedAll {matcher : Matcher Val i} (texts : grammar.HasTexts i)
    (orderly : matcher.attempts.AreOrderlyThroughout grammar) (text : List UInt8) :
    (grammar.feedAll matcher text).attempts.AreOrderlyThroughout grammar := by
  induction text generalizing matcher with
  | nil => exact orderly
  | cons character text ih =>
    exact ih (orderly.step texts fun rule texts previous =>
      orderlyThroughout_enter grammar.size texts previous character)

end Nested

section Values

variable {place : Place Val (Val i)} {character : UInt8}

/-- Whether a branch may end with one more occurrence of the current element. -/
def Place.MayEnd (place : Place Val (Val i)) : Prop :=
  place.element.minimum ≤ place.occurrence + 1 ∧ canEnd place.following = true

/-- Whether an attempt completes its occurrence with a character: its text has its last character,
its set accepts the character, or its rule has a value then. -/
def Attempt.Completes (grammar : Grammar Val) (character : UInt8) :
    {i : ι} → Attempt Val i → Prop
  | _, .literal _ expected progress =>
    ∃ later, expected.advance progress character = some later ∧ Literal.IsComplete later
  | _, .character _ set => set.accepts character = true
  | _, .pending _ rule _ previous =>
    Character.isBlank character = false ∧ Character.joinsWord previous character = false ∧
      (grammar.enter grammar.size rule previous character).value.isSome = true
  | _, .inside _ _ _ attempts =>
    (attempts.step (grammar.enter grammar.size) character).value.isSome = true

/-- A complete occurrence leads to a value where the branch may end with it. -/
theorem isSome_value_complete (value : Val i) :
    (place.complete value character).value.isSome = true ↔ place.MayEnd := by
  unfold Place.MayEnd
  by_cases enough : place.element.minimum ≤ place.occurrence + 1
  · rw [Place.complete_of_enough enough, Matcher.merge, Place.repetition, Matcher.live, remainder]
    cases ends : canEnd place.following <;> simp [enough]
  · rw [Place.complete_of_few enough, Place.repetition, Matcher.live]
    simp [enough]

/-- A nested matcher leads to a value if it has one itself, where the branch may end with it. -/
theorem isSome_value_nest {rule : ι} {update : Val i → Val rule → Val i}
    (inner : Matcher Val rule) :
    (place.nest rule update inner character).value.isSome = true ↔
      inner.value.isSome = true ∧ place.MayEnd := by
  rw [Place.nest_eq, Matcher.merge, Place.ongoing, Matcher.live]
  cases inner.value with
  | none => simp [Matcher.dead]
  | some value => simpa using isSome_value_complete (update place.value value)

/-- An attempt leads to a value if it completes its occurrence where its branch may end. -/
theorem isSome_value_attempt (attempt : Attempt Val i) :
    (attempt.step (grammar.enter grammar.size) character).value.isSome = true ↔
      attempt.Completes grammar character ∧ attempt.place.MayEnd := by
  cases attempt with
  | literal place literal progress =>
    rw [Attempt.step, Attempt.Completes, Attempt.place]
    cases advanced : literal.advance progress character with
    | none => simp [Matcher.dead]
    | some later =>
      cases later with
      | awaiting previous => simp [Literal.IsComplete]
      | inside afterBlank remaining matched =>
        cases remaining with
        | nil => simpa [Literal.IsComplete] using isSome_value_complete _
        | cons expected rest => simp [Literal.IsComplete]
  | character place set =>
    rw [Attempt.step, Attempt.Completes, Attempt.place]
    by_cases accepted : set.accepts character = true
    · rw [if_pos accepted, isSome_value_complete]
      simp [accepted]
    · rw [if_neg accepted]
      simp [Matcher.dead, accepted]
  | pending place rule update previous =>
    rw [Attempt.step, Attempt.Completes, Attempt.place]
    by_cases blank : Character.isBlank character = true
    · rw [if_pos blank]
      simp [blank]
    · rw [if_neg blank]
      by_cases joined : Character.joinsWord previous character = true
      · rw [if_pos joined]
        simp [Matcher.dead, joined]
      · rw [if_neg joined, isSome_value_nest]
        simp [blank, joined]
  | inside place rule update attempts =>
    rw [Attempt.step, Attempt.Completes, Attempt.place, isSome_value_nest]

/-- A step leads to a value if it does so from some attempt. -/
theorem isSome_value_step {enter : (rule : ι) → Option UInt8 → UInt8 → Matcher Val rule}
    (attempts : Attempts Val i) :
    (attempts.step enter character).value.isSome = true ↔
      ∃ attempt ∈ attempts.toList, (attempt.step enter character).value.isSome = true := by
  match attempts with
  | .nil => simp [Matcher.dead, Attempts.toList]
  | .cons head tail =>
    rw [step_cons, Attempts.toList]
    simp only [List.mem_cons, exists_eq_or_imp, ← isSome_value_step tail, Matcher.merge]
    cases (head.step enter character).value <;> simp

/-- A matcher has a value after a character if some attempt completes its occurrence with it where
its branch may end. -/
theorem isSome_value_feed (matcher : Matcher Val i) :
    (grammar.feed matcher character).value.isSome = true ↔
      ∃ attempt ∈ matcher.attempts.toList,
        attempt.Completes grammar character ∧ attempt.place.MayEnd := by
  rw [feed, isSome_value_step]
  simp only [isSome_value_attempt]

end Values

/-- **The attempts of a matcher stand in order at places of its rule.** Where no text is empty, the
attempts after any characters are sorted by their branches, and each of them stands at an element of
a branch of its rule, is below the greatest number of occurrences of the element and may go on; and
so it is in every nested matcher. A character with which none of them completes its occurrence
leaves no value, and once there is no attempt there will be none, and no value either. -/
theorem attempts_orderly {name : ι} (texts : grammar.HasTexts name) (previous : Option UInt8)
    (text : List UInt8) :
    let matcher := grammar.feedAll (grammar.start name previous) text
    (∀ (j : ι) (inner : Attempts Val j), inner.LiesIn matcher.attempts →
        inner.AreOrderly grammar) ∧
      (∀ character,
        (∀ attempt ∈ matcher.attempts.toList, ¬ attempt.Completes grammar character) →
          (grammar.feed matcher character).value = none) ∧
      (matcher.attempts = .nil → ∀ character rest,
        (grammar.feedAll matcher (character :: rest)).attempts = .nil ∧
          (grammar.feedAll matcher (character :: rest)).value = none) := by
  intro matcher
  refine ⟨orderlyThroughout_feedAll texts (orderlyThroughout_start texts previous) text, ?_, ?_⟩
  · intro character incomplete
    rw [← Option.not_isSome_iff_eq_none, isSome_value_feed]
    rintro ⟨attempt, member, completes, _⟩
    exact incomplete attempt member completes
  · intro empty character rest
    rw [feedAll_cons, feed_eq_dead grammar empty, feedAll_dead]
    exact ⟨rfl, rfl⟩

/-- Inside two opening brackets the attempts are in order, and a closing one leaves no value; behind
the letter there is no attempt, and no further letter leads to a value. -/
theorem attempts_orderly_brackets :
    brackets.HasTexts () ∧
      (brackets.feedAll (brackets.start () none) [0x28, 0x28]).attempts.AreOrderly brackets ∧
      (brackets.feed (brackets.feedAll (brackets.start () none) [0x28]) 0x29).value = none ∧
      (brackets.feedAll (brackets.start () none) [0x78]).attempts = .nil ∧
      (brackets.feedAll (brackets.feedAll (brackets.start () none) [0x78]) [0x78]).value =
        none := by
  have texts := brackets_proper.hasTexts ()
  refine ⟨texts, ?_, ?_, rfl, ?_⟩
  · exact (attempts_orderly texts none [0x28, 0x28]).1 () _ .self
  · refine (attempts_orderly texts none [0x28]).2.1 0x29 fun attempt member => ?_
    obtain rfl := List.mem_singleton.mp member
    rintro ⟨_, _, complete⟩
    exact absurd complete (by decide)
  · exact ((attempts_orderly texts none [0x78]).2.2 rfl 0x78 []).2

end HyperCard.Grammar
