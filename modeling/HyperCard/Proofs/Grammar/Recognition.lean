import HyperCard.Proofs.Grammar.Attempt
import HyperCard.Proofs.Grammar.Proper

/-!
# The matcher finds the preferred reading

Completing an occurrence leads to attempts at its repetition, then at the elements after it, in
the order in which readings are preferred; so do the branches of a rule at its start. The main
statement is `settles`: after any text, the matcher of a rule holds the value of the preferred
reading of the text, or no value if there is none.

The induction is on the length of the text, because completing an occurrence takes some of it,
and for one length on the rules that a rule leads to, because a nested rule may take all of it.
-/
namespace HyperCard.Grammar

variable {ι : Type} {Val : ι → Type} {name : ι} {grammar : Grammar Val}
  {branch : Branch Val (Val name)} {text : List UInt8} {previous : Option UInt8} {position : Nat}

/-- An attempt at an element leads to the foremost occurrences that begin with it. -/
theorem follows_attempt (place : Place Val (Val name)) (proper : grammar.Proper)
    (within : place.Within branch)
    (texts : ∀ literal, place.element.pattern = .literal literal → literal.Proper)
    (settles : ∀ rule update, place.element.pattern = .nested rule update →
      ∀ previous more, more.length ≤ text.length → grammar.Settles rule previous more)
    (completes : place.Completes grammar branch text previous position) :
    grammar.Follows branch
      (Begins grammar.Matches text previous place.element place.following place.index
        place.occurrence position)
      text previous position place.value (.live (.cons (place.attempt previous) .nil)) := by
  unfold Place.attempt
  split
  · rename_i literal pattern
    exact follows_literal (texts literal pattern) within pattern completes
  · rename_i set pattern
    exact follows_character within pattern completes
  · rename_i rule update pattern
    exact follows_nested proper within pattern (settles rule update pattern) completes

/-- Attempts at the elements that remain of a branch, and the value if none of them has to occur. -/
def remainder (value : Val name) (number : Nat) (previous : Option UInt8) (index : Nat)
    (remaining : Branch Val (Val name)) : Matcher Val name :=
  ⟨seed value number previous index remaining, if canEnd remaining then some value else none⟩

/-- An element that may be absent is attempted before those after it. -/
theorem remainder_of_absent {value : Val name} {number index : Nat}
    {element : Element Val (Val name)} {following : Branch Val (Val name)}
    (absent : element.minimum = 0) :
    remainder value number previous index (element :: following) =
      (Matcher.live (.cons (Place.attempt ⟨value, number, index, 0, element, following⟩ previous)
        .nil)).merge (remainder value number previous (index + 1) following) := by
  simp [remainder, seed, absent, canEnd, Matcher.merge, Matcher.live]

/-- Nothing after an element that has to occur is attempted before it. -/
theorem remainder_of_needed {value : Val name} {number index : Nat}
    {element : Element Val (Val name)} {following : Branch Val (Val name)}
    (needed : element.minimum ≠ 0) :
    remainder value number previous index (element :: following) =
      .live (.cons (Place.attempt ⟨value, number, index, 0, element, following⟩ previous)
        .nil) := by
  simp [remainder, seed, needed, canEnd, Matcher.live]

/-- Attempts at the elements that may come next lead to the foremost occurrences of all elements
that remain. -/
theorem follows_remainder {remaining : Branch Val (Val name)} {value : Val name}
    {number index : Nat} (proper : grammar.Proper) (rest : branch.drop index = remaining)
    (texts : ∀ element ∈ branch, ∀ literal, element.pattern = .literal literal → literal.Proper)
    (settles : ∀ skipped element following rule update,
      remaining = skipped ++ element :: following → (∀ other ∈ skipped, other.minimum = 0) →
      element.pattern = .nested rule update →
      ∀ previous more, more.length ≤ text.length → grammar.Settles rule previous more)
    (completes : ∀ place : Place Val (Val name), place.Within branch → place.occurrence = 0 →
      place.Completes grammar branch text previous position) :
    grammar.Follows branch (Reads grammar.Matches text previous remaining index position)
      text previous position value (remainder value number previous index remaining) := by
  unfold Follows
  induction remaining generalizing index with
  | nil =>
    cases text with
    | nil =>
      refine ⟨[], ⟨.nil, fun other reads => .inl (reads_nil_iff.mp reads).1⟩, .nil⟩
    | cons character text =>
      rw [remainder, valueAfter_cons, feed, seed, step_nil, valueAfter_dead]
      intro occurrences reads
      generalize same : character :: text = whole at reads
      cases reads
      cases same
  | cons element following ih =>
    let place : Place Val (Val name) := ⟨value, number, index, 0, element, following⟩
    have member : element ∈ branch := List.mem_of_mem_drop (rest ▸ List.mem_cons_self)
    have here := follows_attempt place proper rest (texts element member)
      (fun rule update => settles [] element following rule update rfl (by simp))
      (completes place rest rfl)
    unfold Follows at here
    by_cases absent : element.minimum = 0
    · have after : branch.drop (index + 1) = following := by
        rw [← List.tail_drop, rest, List.tail_cons]
      have there := ih after fun skipped next after rule update split passed =>
        settles (element :: skipped) next after rule update (by rw [split]; rfl)
          (by simpa [absent] using passed)
      rw [remainder_of_absent absent, valueAfter_merge]
      refine (here.orElse there fun _ _ => Begins.precedes).congr fun occurrences => ?_
      rw [reads_cons_iff, continues_iff]
      simp [place, absent, or_comm]
    · rw [remainder_of_needed absent]
      refine here.congr fun occurrences => ?_
      rw [reads_cons_iff, continues_iff]
      simp [place, absent]

/-- The repetition of an element where it may occur once more. -/
def Place.repetition (place : Place Val (Val name)) (value : Val name) (character : UInt8) :
    Matcher Val name :=
  .live (if place.element.allowsRepeat (place.occurrence + 1) then
    .cons (Place.attempt { place with value, occurrence := place.occurrence + 1 }
      (some character)) .nil
  else .nil)

/-- When enough occurrences are complete, the elements after them may follow. -/
theorem Place.complete_of_enough {place : Place Val (Val name)} {value : Val name}
    {character : UInt8} (enough : place.element.minimum ≤ place.occurrence + 1) :
    place.complete value character = (place.repetition value character).merge
      (remainder value place.branch (some character) (place.index + 1) place.following) := by
  rw [complete, if_pos enough]
  rfl

/-- Before enough occurrences are complete, only another one may follow. -/
theorem Place.complete_of_few {place : Place Val (Val name)} {value : Val name}
    {character : UInt8} (few : ¬ place.element.minimum ≤ place.occurrence + 1) :
    place.complete value character = place.repetition value character := by
  rw [complete, if_neg few]
  rfl

/-- An element that may be repeated leads to the foremost occurrences that begin with it once
more. -/
theorem follows_repetition {place : Place Val (Val name)} {value : Val name} {character : UInt8}
    (proper : grammar.Proper) (within : place.Within branch)
    (texts : ∀ element ∈ branch, ∀ literal, element.pattern = .literal literal → literal.Proper)
    (settles : ∀ rule previous more, more.length ≤ text.length →
      grammar.Settles rule previous more)
    (completes : ∀ other : Place Val (Val name), other.Within branch →
      (∀ most ∈ other.element.maximum, other.occurrence + 1 ≤ most) →
      other.Completes grammar branch text (some character) position) :
    grammar.Follows branch
      (Begins grammar.Matches text (some character) place.element place.following place.index
        (place.occurrence + 1) position)
      text (some character) position value (place.repetition value character) := by
  let repeated : Place Val (Val name) := { place with value, occurrence := place.occurrence + 1 }
  have member : place.element ∈ branch := List.mem_of_getElem? within.getElem?
  rw [Place.repetition]
  by_cases repeats : place.element.allowsRepeat (place.occurrence + 1)
  · rw [if_pos repeats]
    refine follows_attempt repeated proper within (texts _ member)
      (fun rule _ _ => settles rule) (completes repeated within fun most found => ?_)
    simp only [Element.allowsRepeat, Option.all_eq_true, decide_eq_true_eq] at repeats
    exact repeats most found
  · rw [if_neg repeats]
    unfold Follows
    rw [valueAfter_live_nil]
    intro occurrences begins
    obtain ⟨_, _, _, _, _, _, _, _, _, _, _, _, _, _, _, bounded, _⟩ := begins
    refine repeats ?_
    simp only [Element.allowsRepeat, Option.all_eq_true, decide_eq_true_eq]
    intro most found
    have := bounded most found
    omega

/-- Completing an occurrence leads to the foremost occurrences that may come after it. -/
theorem completes {place : Place Val (Val name)} (proper : grammar.Proper)
    (within : place.Within branch)
    (texts : ∀ element ∈ branch, ∀ literal, element.pattern = .literal literal → literal.Proper)
    (allowed : ∀ most ∈ place.element.maximum, place.occurrence + 1 ≤ most)
    (settles : ∀ rule previous more, more.length < text.length →
      grammar.Settles rule previous more) :
    place.Completes grammar branch text previous position := by
  induction size : text.length using Nat.strongRecOn generalizing text place previous position with
  | ind size ih =>
    intro first rest character value whole nonempty last
    have shorter : rest.length < text.length := by
      have := List.length_pos_iff.mpr nonempty
      rw [whole, List.length_append]
      omega
    have less : ∀ rule previous more, more.length ≤ rest.length →
        grammar.Settles rule previous more :=
      fun rule previous more atMost => settles rule previous more (by omega)
    have next : ∀ other : Place Val (Val name), other.Within branch →
        (∀ most ∈ other.element.maximum, other.occurrence + 1 ≤ most) →
        other.Completes grammar branch rest (some character) (position + first.length) :=
      fun other within allowed => ih rest.length (size ▸ shorter) within allowed
        (fun rule previous more less => settles rule previous more (by omega)) rfl
    have after : branch.drop (place.index + 1) = place.following := by
      rw [← List.tail_drop, within, List.tail_cons]
    have elements : grammar.Follows branch
        (Reads grammar.Matches rest (some character) place.following (place.index + 1)
          (position + first.length))
        rest (some character) (position + first.length) value
        (remainder value place.branch (some character) (place.index + 1) place.following) :=
      follows_remainder proper after texts (fun _ _ _ rule _ _ _ _ => less rule)
        fun other within none => next other within fun most found => by
          have := other.element.bounded most found
          omega
    have repetition : grammar.Follows branch
        (Begins grammar.Matches rest (some character) place.element place.following place.index
          (place.occurrence + 1) (position + first.length))
        rest (some character) (position + first.length) value
        (place.repetition value character) :=
      follows_repetition proper within texts less next
    unfold Follows at elements repetition ⊢
    by_cases enough : place.element.minimum ≤ place.occurrence + 1
    · rw [Place.complete_of_enough enough, valueAfter_merge]
      refine (repetition.orElse elements fun _ _ => Begins.precedes).congr fun occurrences => ?_
      rw [continues_iff]
      simp only [enough, true_and, iff_true_intro allowed, or_comm]
    · rw [Place.complete_of_few enough]
      refine repetition.congr fun occurrences => ?_
      rw [continues_iff]
      simp [enough]

/-- Attempts at branches from the given one on, and the initial value if one of them may be
empty. -/
def startFrom (initial : Val name) (previous : Option UInt8) (index : Nat)
    (branches : List (Branch Val (Val name))) : Matcher Val name :=
  ⟨seedBranches initial previous index branches,
    if branches.any canEnd then some initial else none⟩

/-- A branch is attempted before those after it. -/
theorem startFrom_cons {initial : Val name} {index : Nat} {later : List (Branch Val (Val name))} :
    startFrom initial previous index (branch :: later) =
      (remainder initial index previous 0 branch).merge
        (startFrom initial previous (index + 1) later) := by
  cases ends : canEnd branch <;> simp [startFrom, remainder, seedBranches, Matcher.merge, ends]

/-- A reading by a branch from the given one on is a reading by this branch or by a later one. -/
theorem isReading_from_iff {index : Nat} {reading : Reading}
    (found : (grammar.rule name).branches[index]? = some branch) :
    index ≤ reading.branch ∧ grammar.IsReading name previous text reading ↔
      (∃ occurrences, reading = ⟨index, occurrences⟩ ∧
        Reads grammar.Matches text previous branch 0 0 occurrences) ∨
      index + 1 ≤ reading.branch ∧ grammar.IsReading name previous text reading := by
  constructor
  · rintro ⟨late, isReading⟩
    by_cases same : reading.branch = index
    · obtain ⟨other, otherFound, reads⟩ := isReading
      obtain ⟨number, occurrences⟩ := reading
      obtain rfl := same
      obtain rfl := Option.some.inj (found.symm.trans otherFound)
      exact .inl ⟨occurrences, rfl, reads⟩
    · exact .inr ⟨by omega, isReading⟩
  · rintro (⟨occurrences, rfl, reads⟩ | ⟨late, isReading⟩)
    · exact ⟨Nat.le_refl _, branch, found, reads⟩
    · exact ⟨by omega, isReading⟩

/-- Attempts at the branches of a rule from some branch on lead to the foremost reading by these
branches. -/
theorem best_branches {branches : List (Branch Val (Val name))} {index : Nat}
    (rest : (grammar.rule name).branches.drop index = branches)
    (follows : ∀ branch ∈ (grammar.rule name).branches, ∀ number,
      grammar.Follows branch (Reads grammar.Matches text previous branch 0 0) text previous 0
        (grammar.rule name).initial
        (remainder (grammar.rule name).initial number previous 0 branch)) :
    Best Reading.Precedes
      (fun reading => index ≤ reading.branch ∧ grammar.IsReading name previous text reading)
      (grammar.HasValue name previous text)
      (grammar.valueAfter (startFrom (grammar.rule name).initial previous index branches) text)
    := by
  induction branches generalizing index with
  | nil =>
    have outside := List.drop_eq_nil_iff.mp rest
    have none : grammar.valueAfter (startFrom (grammar.rule name).initial previous index []) text =
        none := valueAfter_dead grammar text
    rw [none]
    rintro reading ⟨late, branch, found, _⟩
    have inside := (List.getElem?_eq_some_iff.mp found).1
    omega
  | cons branch later ih =>
    have found : (grammar.rule name).branches[index]? = some branch := by
      have head := List.head?_drop (l := (grammar.rule name).branches) (i := index)
      rw [rest] at head
      exact head.symm
    have here : Best Reading.Precedes
        (fun reading => ∃ occurrences, reading = ⟨index, occurrences⟩ ∧
          Reads grammar.Matches text previous branch 0 0 occurrences)
        (grammar.HasValue name previous text)
        (grammar.valueAfter (remainder (grammar.rule name).initial index previous 0 branch) text) :=
      (follows branch (List.mem_of_getElem? found) index).map
        (fun _ _ before => .inr ⟨rfl, before⟩) (fun _ _ applies => ⟨branch, found, applies⟩)
    have there := @ih (index + 1) (by rw [← List.tail_drop, rest, List.tail_cons])
    rw [startFrom_cons, valueAfter_merge]
    refine (here.orElse there ?_).congr fun reading => (isReading_from_iff found).symm
    rintro _ reading ⟨occurrences, rfl, _⟩ ⟨late, _⟩
    exact .inl late

/-- A matcher settles on the preferred reading if those of all shorter texts do, and for texts of
the same length those of the rules that its rule leads to. -/
theorem settles_step (proper : grammar.Proper)
    (shorter : ∀ rule previous more, more.length < text.length →
      grammar.Settles rule previous more)
    (led : ∀ rule, grammar.Leads name rule → ∀ previous more, more.length ≤ text.length →
      grammar.Settles rule previous more) :
    grammar.Settles name previous text := by
  have follows : ∀ branch ∈ (grammar.rule name).branches, ∀ number,
      grammar.Follows branch (Reads grammar.Matches text previous branch 0 0) text previous 0
        (grammar.rule name).initial
        (remainder (grammar.rule name).initial number previous 0 branch) := by
    intro branch member number
    refine follows_remainder proper List.drop_zero (proper.texts name branch member) ?_ ?_
    · intro skipped element following rule update split passed pattern
      exact led rule ⟨branch, member, skipped, element, following, split, passed, update, pattern⟩
    · intro place within first
      refine completes proper within (proper.texts name branch member) (fun most found => ?_)
        shorter
      have := place.element.bounded most found
      omega
  exact (best_branches List.drop_zero follows).congr fun reading => by simp

/-- After any text the matcher of a rule has settled on the preferred reading. -/
theorem settles (proper : grammar.Proper) (name : ι) (previous : Option UInt8)
    (text : List UInt8) : grammar.Settles name previous text := by
  obtain ⟨rank, _, _, descends⟩ := proper.grounded.exists_rank
  induction size : text.length using Nat.strongRecOn generalizing name previous text with
  | ind size shorter =>
    induction height : rank name using Nat.strongRecOn generalizing name previous text with
    | ind height lower =>
      refine settles_step proper
        (fun rule previous more less => shorter more.length (size ▸ less) rule previous more rfl)
        fun rule leads previous more atMost => ?_
      by_cases same : more.length = text.length
      · exact lower (rank rule) (height ▸ descends name rule leads) rule previous more
          (same.trans size) rfl
      · exact shorter more.length (by omega) rule previous more rfl

/-- A matcher of one branch leads to its foremost occurrences. -/
theorem follows_branch (proper : grammar.Proper) {branch : Branch Val (Val name)}
    (member : branch ∈ (grammar.rule name).branches) (previous : Option UInt8)
    (text : List UInt8) (number : Nat) :
    grammar.Follows branch (Reads grammar.Matches text previous branch 0 0) text previous 0
      (grammar.rule name).initial
      (remainder (grammar.rule name).initial number previous 0 branch) := by
  refine follows_remainder proper List.drop_zero (proper.texts name branch member)
    (fun _ _ _ rule _ _ _ _ previous more _ => settles proper rule previous more) ?_
  intro place within first
  refine completes proper within (proper.texts name branch member) (fun most found => ?_)
    fun rule previous more _ => settles proper rule previous more
  have := place.element.bounded most found
  omega

/-- A matcher has a value exactly after the texts that its rule matches. -/
theorem isSome_value_iff_matches (proper : grammar.Proper) (name : ι) (previous : Option UInt8)
    (text : List UInt8) :
    (grammar.feedAll (grammar.start name previous) text).value.isSome ↔
      grammar.Matches name previous text := by
  have settled := settles proper name previous text
  cases found : grammar.valueAfter (grammar.start name previous) text with
  | none =>
    have absent := settled.not_matches found
    unfold valueAfter at found
    simp [found, absent]
  | some value =>
    have matched := settled.matches found
    unfold valueAfter at found
    simp [found, matched]

/-- Two pairs of brackets around the letter match, and not without the last bracket. -/
theorem matches_brackets : brackets.Proper ∧
    brackets.Matches () none [0x28, 0x28, 0x78, 0x29, 0x29] ∧
    ¬ brackets.Matches () none [0x28, 0x28, 0x78, 0x29] := by
  refine ⟨brackets_proper, ?_, ?_⟩
  · exact (isSome_value_iff_matches brackets_proper () none _).mp (by decide)
  · intro matched
    have found := (isSome_value_iff_matches brackets_proper () none _).mpr matched
    exact absurd found (by decide)

/-- After a text that its rule matches, a matcher holds the value of the preferred reading, which
is the only value that this reading has. -/
theorem value_of_preferred (proper : grammar.Proper) {previous : Option UInt8}
    {text : List UInt8} (matched : grammar.Matches name previous text) :
    ∃ reading value, grammar.Preferred name previous text reading ∧
      grammar.HasValue name previous text reading value ∧
      (∀ other, grammar.HasValue name previous text reading other → other = value) ∧
      (grammar.feedAll (grammar.start name previous) text).value = some value := by
  have settled := settles proper name previous text
  cases found : grammar.valueAfter (grammar.start name previous) text with
  | none => exact absurd matched (settled.not_matches found)
  | some value =>
    rw [Settles, found] at settled
    obtain ⟨reading, preferred, has⟩ := settled
    refine ⟨reading, value, preferred, has, fun other again => ?_, found⟩
    obtain ⟨branch, branchFound, applies⟩ := has
    obtain ⟨otherBranch, otherFound, otherApplies⟩ := again
    obtain rfl := Option.some.inj (branchFound.symm.trans otherFound)
    have functional : ∀ rule previous text value another,
        grammar.Denotes rule previous text value →
        grammar.Denotes rule previous text another → another = value :=
      fun _ _ _ _ _ denotes again => denotes.unique again
    exact Applies.unique functional applies otherApplies

/-- The preferred reading of two pairs of brackets has the value two. -/
theorem value_of_preferred_brackets : brackets.Proper ∧
    brackets.Matches () none [0x28, 0x28, 0x78, 0x29, 0x29] ∧
    ∃ reading, brackets.Preferred () none [0x28, 0x28, 0x78, 0x29, 0x29] reading ∧
      brackets.HasValue () none [0x28, 0x28, 0x78, 0x29, 0x29] reading 2 := by
  have found : brackets.valueAfter (brackets.start () none) [0x28, 0x28, 0x78, 0x29, 0x29] =
      some 2 := by decide
  have matched := (settles brackets_proper () none _).matches found
  obtain ⟨reading, value, preferred, has, _, same⟩ := value_of_preferred brackets_proper matched
  obtain rfl := Option.some.inj (found.symm.trans same)
  exact ⟨brackets_proper, matched, reading, preferred, has⟩

end HyperCard.Grammar
