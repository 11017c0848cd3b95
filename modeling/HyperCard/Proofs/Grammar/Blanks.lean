import HyperCard.Proofs.Grammar.Quoting

/-!
# How wide blanks are does not matter

Outside of quotes every attempt does the same with one blank as with several: it skips them before
a text or before a nested rule, and between two words of a text, or it fails at the first one. What
is left are the last blank, which begins no word, and the blanks that a text has noted, which its
value does not depend on. An attempt inside a nested rule follows the attempts of the rule, so it is
the values after any further text that are compared, not the attempts.
-/
namespace HyperCard

namespace RomanString

variable {left right gap : List UInt8}

/-- Where all of the first text is blanks, those of the second one are dropped, too. -/
theorem dropBlanks_append (left right : List UInt8) : dropBlanks (left ++ right) =
    if (dropBlanks left).isEmpty then dropBlanks right else dropBlanks left ++ right :=
  List.dropWhile_append

/-- Where all of the second text is blanks, those at the end of the first one are dropped, too. -/
theorem dropFinalBlanks_append (left right : List UInt8) : dropFinalBlanks (left ++ right) =
    if (dropFinalBlanks right).isEmpty then dropFinalBlanks left
    else left ++ dropFinalBlanks right := by
  unfold dropFinalBlanks
  rw [List.reverse_append, dropBlanks_append, List.isEmpty_reverse, apply_ite List.reverse,
    List.reverse_append, List.reverse_reverse]

/-- Of blanks alone nothing is left. -/
theorem dropBlanks_eq_nil (blank : ∀ character ∈ gap, Character.isBlank character = true) :
    dropBlanks gap = [] := by
  have dropped : dropBlanks (gap ++ []) = dropBlanks [] := List.dropWhile_append_of_pos blank
  rw [List.append_nil] at dropped
  exact dropped

/-- From behind, nothing is left of them either. -/
theorem dropFinalBlanks_eq_nil (blank : ∀ character ∈ gap, Character.isBlank character = true) :
    dropFinalBlanks gap = [] := by
  have reversed : ∀ character ∈ gap.reverse, Character.isBlank character = true :=
    fun character member => blank character (List.mem_reverse.mp member)
  rw [dropFinalBlanks, dropBlanks_eq_nil reversed, List.reverse_nil]

/-- Blanks are no quotes, so as many quotes are left without them. -/
theorem count_dropBlanks (text : List UInt8) :
    (dropBlanks text).count Character.quote = text.count Character.quote := by
  induction text with
  | nil => rfl
  | cons character text ih =>
    unfold dropBlanks at ih ⊢
    by_cases blank : Character.isBlank character = true
    · rw [List.dropWhile_cons_of_pos blank, ih, List.count_cons, Grammar.not_quote_of_isBlank blank]
      rfl
    · rw [List.dropWhile_cons_of_neg blank]

end RomanString

namespace Grammar

variable {ι : Type} {Val : ι → Type} {Value : Type} {name : ι}

/-- Whether a text is made of blanks, of one at least. -/
structure IsGap (text : List UInt8) : Prop where
  /-- There is a blank. -/
  nonempty : text ≠ []
  /-- There is nothing else. -/
  blank : ∀ character ∈ text, Character.isBlank character = true

/-- Whether a matcher does the same after any blanks, which is what some attempts do. -/
def IgnoresWidth (grammar : Grammar Val) (matcher : Matcher Val name) : Prop :=
  ∃ settled : Attempts Val name, ∀ {gap}, IsGap gap → ∀ text,
    grammar.valueAfter matcher (gap ++ text) = grammar.valueAfter (.live settled) text

section Gaps

variable {gap : List UInt8} {previous other : Option UInt8} {character : UInt8}

/-- Blanks begin with one, and others may follow. -/
theorem IsGap.exists_cons (isGap : IsGap gap) : ∃ blank rest, gap = blank :: rest ∧
    Character.isBlank blank = true ∧ ∀ character ∈ rest, Character.isBlank character = true := by
  obtain ⟨blank, rest, rfl⟩ := List.exists_cons_of_ne_nil isGap.nonempty
  exact ⟨blank, rest, rfl, isGap.blank blank List.mem_cons_self, fun character member =>
    isGap.blank character (List.mem_cons_of_mem _ member)⟩

/-- Blanks behind a blank make a gap. -/
theorem isGap_cons {rest : List UInt8} (blank : Character.isBlank character = true)
    (others : ∀ character ∈ rest, Character.isBlank character = true) :
    IsGap (character :: rest) := by
  refine ⟨List.cons_ne_nil _ _, fun other member => ?_⟩
  rcases List.mem_cons.mp member with rfl | inside
  · exact blank
  · exact others other inside

/-- One blank is a gap. -/
theorem isGap_singleton (blank : Character.isBlank character = true) : IsGap [character] :=
  isGap_cons blank fun _ member => nomatch member

/-- After a blank a word may begin. -/
theorem IsGap.joinsWord_eq (isGap : IsGap gap) (previous : Option UInt8) (character : UInt8) :
    Character.joinsWord (before previous gap) character = false := by
  have apart : ∀ character, Character.isBlank character = true →
      Character.isAlphanumeric character = false := forall_byte (by decide)
  rcases gap.eq_nil_or_concat with empty | ⟨others, last, rfl⟩
  · exact absurd empty isGap.nonempty
  · have blank := isGap.blank last (by simp)
    simp [Character.joinsWord, apart last blank]

end Gaps

section Fresh

variable {enter : (rule : ι) → Option UInt8 → UInt8 → Matcher Val rule} {character : UInt8}
  {previous other : Option UInt8}

/-- What the first character does to a fresh attempt depends on the one before in that both may
belong to one word. -/
theorem step_attempt_before (place : Place Val (Val name))
    (same : Character.joinsWord previous character = Character.joinsWord other character)
    (agree : Character.isBlank character = false → ∀ rule,
      enter rule previous character = enter rule other character) :
    (place.attempt previous).step enter character =
      (place.attempt other).step enter character := by
  unfold Place.attempt
  split
  · rename_i literal _
    have advanced : literal.advance (.awaiting previous) character =
        literal.advance (.awaiting other) character := by
      simp only [Literal.advance, same]
    rw [Attempt.step, Attempt.step, advanced]
  · rfl
  · rw [Attempt.step, Attempt.step, same]
    by_cases blank : Character.isBlank character = true
    · rw [if_pos blank, if_pos blank]
    · rw [agree (eq_false_of_ne_true blank)]

/-- So does what it does to the fresh attempts at the start of what remains of a branch. -/
theorem step_seed_before (value : Val name) (number position : Nat)
    (branch : Branch Val (Val name))
    (same : Character.joinsWord previous character = Character.joinsWord other character)
    (agree : Character.isBlank character = false → ∀ rule,
      enter rule previous character = enter rule other character) :
    (seed value number previous position branch).step enter character =
      (seed value number other position branch).step enter character := by
  induction branch generalizing position with
  | nil => rfl
  | cons element following ih =>
    have here := step_attempt_before ⟨value, number, position, 0, element, following⟩ same agree
    unfold seed
    by_cases absent : (element.minimum == 0) = true
    · simp only [absent, ↓reduceIte, step_cons, here, ih]
    · simp only [absent, Bool.false_eq_true, ↓reduceIte, step_cons, here]

/-- So does what it does to the fresh attempts of all branches. -/
theorem step_seedBranches_before (initial : Val name) (index : Nat)
    (branches : List (Branch Val (Val name)))
    (same : Character.joinsWord previous character = Character.joinsWord other character)
    (agree : Character.isBlank character = false → ∀ rule,
      enter rule previous character = enter rule other character) :
    (seedBranches initial previous index branches).step enter character =
      (seedBranches initial other index branches).step enter character := by
  induction branches generalizing index with
  | nil => rfl
  | cons branch later ih =>
    rw [seedBranches, seedBranches, step_append, step_append, ih,
      step_seed_before initial index 0 branch same agree]

/-- The same holds of a rule that is entered. -/
theorem enter_before (grammar : Grammar Val) (depth : Nat) (name : ι)
    (same : Character.joinsWord previous character = Character.joinsWord other character) :
    grammar.enter depth name previous character = grammar.enter depth name other character := by
  induction depth generalizing name with
  | zero => rfl
  | succ depth ih =>
    exact step_seedBranches_before _ 0 (grammar.rule name).branches same fun _ => ih

end Fresh

section Attempts

variable {grammar : Grammar Val} {place : Place Val (Val name)} {gap text : List UInt8}
  {previous : Option UInt8}

/-- Only the attempts of a matcher decide on its values after more text. -/
theorem valueAfter_live_attempts (matcher : Matcher Val name) {text : List UInt8}
    (nonempty : text ≠ []) :
    grammar.valueAfter (.live matcher.attempts) text = grammar.valueAfter matcher text := by
  cases text with
  | nil => exact absurd rfl nonempty
  | cons character rest => rfl

/-- Right after blanks there is no value. -/
theorem IgnoresWidth.valueAfter_gap {matcher : Matcher Val name}
    (ignores : grammar.IgnoresWidth matcher) (isGap : IsGap gap) :
    grammar.valueAfter matcher gap = none := by
  obtain ⟨settled, after⟩ := ignores
  rw [← List.append_nil gap, after isGap]
  rfl

/-- What fails at every blank does the same after any blanks: nothing. -/
theorem ignoresWidth_of_fails {attempt : Attempt Val name}
    (fails : ∀ {character}, Character.isBlank character = true →
      attempt.step (grammar.enter grammar.size) character = .dead) :
    grammar.IgnoresWidth (.live (.cons attempt .nil)) := by
  refine ⟨.nil, fun {gap} isGap text => ?_⟩
  obtain ⟨blank, rest, rfl, isBlank, _⟩ := isGap.exists_cons
  rw [List.cons_append, valueAfter_live_cons, fails isBlank, valueAfter_dead, valueAfter_live_nil]

/-- A fresh attempt that skips blanks is then before whatever comes, after a blank. -/
theorem ignoresWidth_of_skips
    (skips : ∀ {character previous}, Character.isBlank character = true →
      (place.attempt previous).step (grammar.enter grammar.size) character =
        .live (.cons (place.attempt (some character)) .nil)) (previous : Option UInt8) :
    grammar.IgnoresWidth (.live (.cons (place.attempt previous) .nil)) := by
  have skipped : ∀ (gap text : List UInt8) (previous : Option UInt8),
      (∀ character ∈ gap, Character.isBlank character = true) →
      grammar.valueAfter (.live (.cons (place.attempt previous) .nil)) (gap ++ text) =
        grammar.valueAfter (.live (.cons (place.attempt (before previous gap)) .nil)) text := by
    intro gap text
    induction gap with
    | nil =>
      intro _ _
      rfl
    | cons character gap ih =>
      intro previous blank
      rw [List.cons_append, valueAfter_live_cons, skips (blank character List.mem_cons_self)]
      exact ih (some character) fun other member => blank other (List.mem_cons_of_mem _ member)
  -- Which blank was the last one does not matter: none belongs to a word.
  refine ⟨.cons (place.attempt (some Character.space)) .nil, fun {gap} isGap text => ?_⟩
  rw [skipped gap text previous isGap.blank]
  cases text with
  | nil => rfl
  | cons character rest =>
    have space : IsGap [Character.space] := isGap_singleton rfl
    have same : Character.joinsWord (before previous gap) character =
        Character.joinsWord (some Character.space) character :=
      (isGap.joinsWord_eq previous character).trans (space.joinsWord_eq none character).symm
    rw [valueAfter_live_cons, valueAfter_live_cons, step_attempt_before place same fun _ rule =>
      enter_before grammar grammar.size rule same]

section Texts

variable {literal : Literal (Val name)}

/-- What was written for a text so far does not matter. -/
theorem valueAfter_matched (plain : literal.IsPlain) (afterBlank : Bool)
    (remaining matched other text : List UInt8) :
    grammar.valueAfter
        (.live (.cons (.literal place literal (.inside afterBlank remaining matched)) .nil)) text =
      grammar.valueAfter
        (.live (.cons (.literal place literal (.inside afterBlank remaining other)) .nil))
        text := by
  induction text generalizing afterBlank remaining matched other with
  | nil => rfl
  | cons character text ih =>
    rw [valueAfter_live_cons, valueAfter_live_cons, Attempt.step, Attempt.step]
    cases remaining with
    | nil => rfl
    | cons expected rest =>
      by_cases extra : (Character.isBlank character && afterBlank &&
        !Character.isBlank expected) = true
      · simp only [Literal.advance, extra, ↓reduceIte]
        exact ih afterBlank (expected :: rest) _ _
      · by_cases admitted : literal.admits expected character = true
        · simp only [Literal.advance, extra, admitted, Bool.false_eq_true, ↓reduceIte]
          cases rest with
          | nil =>
            exact congrArg
              (fun value => grammar.valueAfter (place.complete value character) text)
              (plain.silent _ _ _)
          | cons next rest => exact ih _ (next :: rest) _ _
        · simp only [Literal.advance, extra, admitted, Bool.false_eq_true, ↓reduceIte]

/-- After a blank of a text, more blanks are skipped before its next character. -/
theorem valueAfter_between (plain : literal.IsPlain) {expected : UInt8} {rest : List UInt8}
    (solid : Character.isBlank expected = false)
    (blank : ∀ character ∈ gap, Character.isBlank character = true) (matched text : List UInt8) :
    grammar.valueAfter
        (.live (.cons (.literal place literal (.inside true (expected :: rest) matched)) .nil))
        (gap ++ text) =
      grammar.valueAfter
        (.live (.cons (.literal place literal (.inside true (expected :: rest) matched)) .nil))
        text := by
  induction gap with
  | nil => rfl
  | cons character gap ih =>
    have first := blank character List.mem_cons_self
    rw [List.cons_append, valueAfter_live_cons, Attempt.step]
    simp only [Literal.advance, first, solid, Bool.and_self, Bool.not_false, ↓reduceIte]
    refine (valueAfter_matched plain true (expected :: rest) _ matched _).trans ?_
    exact ih fun other member => blank other (List.mem_cons_of_mem _ member)

/-- The end of a text with single blanks has single blanks. -/
theorem isGapped_of_suffix {text remaining : List UInt8} (gapped : isGapped text = true)
    (suffix : remaining <:+ text) : isGapped remaining = true := by
  obtain ⟨front, rfl⟩ := suffix
  induction front with
  | nil => exact gapped
  | cons character front ih =>
    rw [List.cons_append, isGapped, Bool.and_eq_true] at gapped
    exact ih gapped.2

/-- A part of a text ignores how wide blanks are. -/
theorem ignoresWidth_inside (plain : literal.IsPlain) {afterBlank : Bool}
    {remaining matched : List UInt8} (suffix : remaining <:+ literal.text.characters) :
    grammar.IgnoresWidth
      (.live (.cons (.literal place literal (.inside afterBlank remaining matched)) .nil)) := by
  have gapped := isGapped_of_suffix plain.gapped suffix
  cases remaining with
  | nil =>
    apply ignoresWidth_of_fails
    intro character _
    rw [Attempt.step]
    rfl
  | cons expected rest =>
    by_cases solid : Character.isBlank expected = false
    · cases afterBlank with
      | true =>
        refine ⟨.cons (.literal place literal (.inside true (expected :: rest) matched)) .nil,
          fun {gap} isGap text => ?_⟩
        exact valueAfter_between plain solid isGap.blank matched text
      | false =>
        apply ignoresWidth_of_fails
        intro character blank
        have refused : ¬ literal.admits expected character = true := by
          intro admitted
          rw [literal.isBlank_of_admits admitted, solid] at blank
          cases blank
        rw [Attempt.step]
        simp only [Literal.advance, refused, Bool.and_false, Bool.false_and, Bool.false_eq_true,
          ↓reduceIte]
    · rw [Bool.not_eq_false] at solid
      rw [isGapped, solid, Bool.and_eq_true] at gapped
      cases rest with
      | nil => cases gapped.1
      | cons next others =>
        have nextSolid : Character.isBlank next = false := by
          simpa using gapped.1
        refine ⟨.cons (.literal place literal (.inside true (next :: others) [])) .nil,
          fun {gap} isGap text => ?_⟩
        obtain ⟨blank, more, rfl, isBlank, blanks⟩ := isGap.exists_cons
        have admitted : literal.admits expected blank = true := by
          rw [literal.admits_blank solid, isBlank]
        rw [List.cons_append, valueAfter_live_cons, Attempt.step]
        simp only [Literal.advance, admitted, solid, Bool.not_true, Bool.and_false,
          Bool.false_eq_true, ↓reduceIte]
        refine (valueAfter_matched plain true (next :: others) _ [] _).trans ?_
        exact valueAfter_between plain nextSolid blanks [] text

end Texts

section Nested

variable {rule : ι} {update : Val name → Val rule → Val name}

/-- An attempt inside a nested rule does what the attempts of the rule do, as far as their values
show. -/
theorem valueAfter_inside_congr {left right : Attempts Val rule}
    (alike : ∀ text, grammar.valueAfter (.live left) text = grammar.valueAfter (.live right) text)
    (text : List UInt8) :
    grammar.valueAfter (.live (.cons (.inside place rule update left) .nil)) text =
      grammar.valueAfter (.live (.cons (.inside place rule update right) .nil)) text := by
  -- After each character both rules have the same value, and what is left of them is alike again.
  induction text generalizing left right with
  | nil => rfl
  | cons character text ih =>
    have values : (left.step (grammar.enter grammar.size) character).value =
        (right.step (grammar.enter grammar.size) character).value := alike [character]
    have attempts : ∀ text,
        grammar.valueAfter
            (.live (left.step (grammar.enter grammar.size) character).attempts) text =
          grammar.valueAfter
            (.live (right.step (grammar.enter grammar.size) character).attempts) text := by
      intro text
      cases text with
      | nil => rfl
      | cons next rest => exact alike (character :: next :: rest)
    rw [valueAfter_live_cons, valueAfter_live_cons, Attempt.step, Attempt.step, valueAfter_nest,
      valueAfter_nest, values, ih attempts]

/-- While a nested rule has no value, an attempt inside of it goes on with the rule. -/
theorem valueAfter_inside_blanks {attempts : Attempts Val rule}
    (silent : ∀ {gap}, IsGap gap → grammar.valueAfter (.live attempts) gap = none)
    (blank : ∀ character ∈ gap, Character.isBlank character = true) (text : List UInt8) :
    grammar.valueAfter (.live (.cons (.inside place rule update attempts) .nil)) (gap ++ text) =
      grammar.valueAfter (.live (.cons (.inside place rule update
        (grammar.feedAll (.live attempts) gap).attempts) .nil)) text := by
  induction gap generalizing attempts with
  | nil => rfl
  | cons character gap ih =>
    have first := blank character List.mem_cons_self
    have others : ∀ other ∈ gap, Character.isBlank other = true := fun other member =>
      blank other (List.mem_cons_of_mem _ member)
    have noValue : (attempts.step (grammar.enter grammar.size) character).value = none :=
      silent (isGap_singleton first)
    have later : ∀ {gap}, IsGap gap → grammar.valueAfter
        (.live (attempts.step (grammar.enter grammar.size) character).attempts) gap = none := by
      intro gap isGap
      rw [valueAfter_live_attempts _ isGap.nonempty]
      exact silent (isGap_cons first isGap.blank)
    have dropped : ∀ value : Option (Val name), (value <|> none) = value := by
      intro value
      cases value <;> rfl
    rw [List.cons_append, valueAfter_live_cons, Attempt.step, valueAfter_nest, noValue]
    refine (dropped _).trans ((ih later others).trans ?_)
    cases gap <;> rfl

/-- An attempt inside a nested rule ignores how wide blanks are, if the rule does. -/
theorem IgnoresWidth.inside {attempts : Attempts Val rule}
    (ignores : grammar.IgnoresWidth (.live attempts)) :
    grammar.IgnoresWidth (.live (.cons (.inside place rule update attempts) .nil)) := by
  obtain ⟨settled, after⟩ := ignores
  refine ⟨.cons (.inside place rule update settled) .nil, fun {gap} isGap text => ?_⟩
  rw [valueAfter_inside_blanks (IgnoresWidth.valueAfter_gap ⟨settled, after⟩) isGap.blank]
  apply valueAfter_inside_congr
  intro text
  cases text with
  | nil => rfl
  | cons character rest =>
    rw [valueAfter_live_attempts _ (List.cons_ne_nil _ _), ← after isGap, valueAfter, valueAfter,
      feedAll_append]

end Nested

/-- Attempts ignore how wide blanks are if each of them does. -/
theorem IgnoresWidth.cons {head : Attempt Val name} {tail : Attempts Val name}
    (first : grammar.IgnoresWidth (.live (.cons head .nil)))
    (others : grammar.IgnoresWidth (.live tail)) :
    grammar.IgnoresWidth (.live (.cons head tail)) := by
  obtain ⟨settledFirst, afterFirst⟩ := first
  obtain ⟨settledOthers, afterOthers⟩ := others
  refine ⟨settledFirst ++ settledOthers, fun {gap} isGap text => ?_⟩
  have split := valueAfter_merge grammar (.live (.cons head .nil)) (.live tail) (gap ++ text)
  rw [afterFirst isGap, afterOthers isGap, ← valueAfter_merge] at split
  exact split

end Attempts

section Runs

variable {grammar : Grammar Val}

mutual

/-- Outside of quotes an attempt ignores how wide blanks are. -/
theorem Attempt.ignoresWidth : {i : ι} → (attempt : Attempt Val i) → attempt.Tracks false →
    grammar.IgnoresWidth (.live (.cons attempt .nil))
  | _, .literal place literal progress, tracks => by
    unfold Attempt.Tracks at tracks
    obtain ⟨pattern, quotes, within⟩ := tracks
    obtain ⟨_, plain, _⟩ := quotes.of_literal pattern
    cases progress with
    | awaiting previous =>
      cases characters : literal.text.characters with
      | nil =>
        apply ignoresWidth_of_fails
        intro character _
        rw [Attempt.step]
        simp only [Literal.advance, characters]
      | cons expected rest =>
        have fresh : ∀ previous, place.attempt previous =
            .literal place literal (.awaiting previous) := by
          intro previous
          unfold Place.attempt
          rw [pattern]
        rw [← fresh]
        apply ignoresWidth_of_skips
        intro character previous blank
        rw [fresh, fresh, Attempt.step]
        simp only [Literal.advance, characters, blank, ↓reduceIte]
        rfl
    | inside afterBlank remaining matched => exact ignoresWidth_inside plain within
  | _, .character place set, tracks => by
    unfold Attempt.Tracks at tracks
    obtain ⟨pattern, quotes⟩ := tracks
    apply ignoresWidth_of_fails
    intro character blank
    have refused : ¬ set.accepts character = true := by
      intro accepted
      rw [quotes.isBlank_eq pattern accepted] at blank
      cases blank
    rw [Attempt.step, if_neg refused]
  | _, .pending place rule update previous, tracks => by
    unfold Attempt.Tracks at tracks
    obtain ⟨pattern, _⟩ := tracks
    have fresh : ∀ previous, place.attempt previous = .pending place rule update previous := by
      intro previous
      unfold Place.attempt
      rw [pattern]
    rw [← fresh]
    apply ignoresWidth_of_skips
    intro character previous blank
    rw [fresh, fresh, Attempt.step, if_pos blank]
    rfl
  | _, .inside place rule update attempts, tracks => by
    unfold Attempt.Tracks at tracks
    obtain ⟨_, _, inner⟩ := tracks
    exact (Attempts.ignoresWidth attempts inner).inside

/-- Outside of quotes attempts ignore how wide blanks are. -/
theorem Attempts.ignoresWidth : {i : ι} → (attempts : Attempts Val i) → attempts.Tracks false →
    grammar.IgnoresWidth (.live attempts)
  | _, .nil, _ => ⟨.nil, fun {gap} _ text => by rw [valueAfter_live_nil, valueAfter_live_nil]⟩
  | _, .cons head tail, tracks => by
    unfold Attempts.Tracks at tracks
    exact (Attempt.ignoresWidth head tracks.1).cons (Attempts.ignoresWidth tail tracks.2)

end

variable {name : ι} {front gap other rest : List UInt8}

/-- Where no quote is open, the value after a text does not depend on how wide blanks are. -/
theorem valueAfter_gap_eq (closes : grammar.ClosesQuotes) {matcher : Matcher Val name}
    (tracks : matcher.Tracks false) (even : front.count Character.quote % 2 = 0)
    (isGap : IsGap gap) (isOther : IsGap other) :
    grammar.valueAfter matcher (front ++ (gap ++ rest)) =
      grammar.valueAfter matcher (front ++ (other ++ rest)) := by
  have reached := closes.tracks_feedAll tracks front
  rw [even] at reached
  have after : ∀ {gap}, IsGap gap → grammar.valueAfter matcher (front ++ (gap ++ rest)) =
      grammar.valueAfter (.live (grammar.feedAll matcher front).attempts) (gap ++ rest) := by
    intro gap isGap
    rw [valueAfter_live_attempts _ (List.append_ne_nil_of_left_ne_nil isGap.nonempty rest),
      valueAfter, valueAfter, feedAll_append]
  obtain ⟨settled, same⟩ := Attempts.ignoresWidth _ reached.attempts
  rw [after isGap, after isOther, same isGap, same isOther]

/-- What a line stands for does not depend on how wide blanks are where no quote is open. -/
theorem parse_gap_eq (closes : grammar.ClosesQuotes) (name : ι)
    (even : front.count Character.quote % 2 = 0) (isGap : IsGap gap) (isOther : IsGap other) :
    grammar.parse name ⟨front ++ (gap ++ rest)⟩ =
      grammar.parse name ⟨front ++ (other ++ rest)⟩ := by
  unfold parse RomanString.trimmed
  rw [parse_go_eq, parse_go_eq]
  simp only [RomanString.dropBlanks_append front, RomanString.dropBlanks_append gap,
    RomanString.dropBlanks_append other, RomanString.dropBlanks_eq_nil isGap.blank,
    RomanString.dropBlanks_eq_nil isOther.blank, List.isEmpty_nil, ↓reduceIte]
  by_cases leading : (RomanString.dropBlanks front).isEmpty = true
  · rw [if_pos leading, if_pos leading]
  · rw [if_neg leading, if_neg leading, RomanString.dropFinalBlanks_append _ (gap ++ rest),
      RomanString.dropFinalBlanks_append _ (other ++ rest), RomanString.dropFinalBlanks_append gap,
      RomanString.dropFinalBlanks_append other, RomanString.dropFinalBlanks_eq_nil isGap.blank,
      RomanString.dropFinalBlanks_eq_nil isOther.blank]
    by_cases trailing : (RomanString.dropFinalBlanks rest).isEmpty = true
    · rw [if_pos trailing, if_pos trailing]
    · have tracks : (grammar.start name none).Tracks false := ⟨closes.tracks_start name none, nofun⟩
      have between : ∀ {gap : List UInt8}, IsGap gap →
          (gap ++ RomanString.dropFinalBlanks rest).isEmpty = false := by
        intro gap isGap
        exact List.isEmpty_eq_false_iff.mpr (List.append_ne_nil_of_left_ne_nil isGap.nonempty _)
      rw [if_neg trailing, if_neg trailing, between isGap, between isOther]
      rw [← RomanString.count_dropBlanks] at even
      exact valueAfter_gap_eq closes tracks even isGap isOther

end Runs
end Grammar
end HyperCard
