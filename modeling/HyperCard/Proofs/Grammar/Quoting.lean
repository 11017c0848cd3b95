import HyperCard.Proofs.Grammar.Folding

/-!
# Where a matcher knows that it is inside quotes

In a grammar of which only one kind of branch has quotes, an opening one, text without quotes and a
closing one, the quotes that were fed tell where every live attempt stands: after an even number of
them no attempt is between quotes, after an odd number all are. Outside of quotes no set of
characters has blanks, and the texts have single blanks between other characters only.

One step keeps this with the character that it takes, so all characters of a text do.
-/
namespace HyperCard.Grammar

variable {ι : Type} {Val : ι → Type} {Value : Type}

/-- Whether every blank of a text has another character right after it. -/
def isGapped : List UInt8 → Bool
  | [] => true
  | character :: rest =>
    (!Character.isBlank character || rest.head?.any fun next => !Character.isBlank next) &&
      isGapped rest

/-- Whether a text has no quotes and only single blanks inside, and its writing does not matter. -/
structure Literal.IsPlain (literal : Literal Value) : Prop where
  /-- Blanks stand alone between other characters. -/
  gapped : isGapped literal.text.characters = true
  /-- There are no quotes. -/
  unquoted : Character.quote ∉ literal.text.characters
  /-- The value does not depend on what is written for the text. -/
  silent : ∀ old left right, literal.update old left = literal.update old right

/-- Whether a pattern matches no blank and no quote by itself. -/
def Pattern.IsPlain : Pattern Val Value → Prop
  | .literal expected => expected.IsPlain
  | .character set => ∀ character, set.accepts character = true →
    Character.isBlank character = false ∧ character ≠ Character.quote
  | .nested _ _ => True

/-- Whether an element is exactly one quote. -/
def Element.IsMark (element : Element Val Value) : Prop :=
  (∃ set, element.pattern = .character set ∧
    ∀ character, set.accepts character = true → character = Character.quote) ∧
      element.minimum = 1 ∧ element.maximum = some 1

/-- Whether an element is made of characters that are no quotes. -/
def Element.IsContent (element : Element Val Value) : Prop :=
  ∃ set, element.pattern = .character set ∧ set.accepts Character.quote = false

/-- Whether what is left of a branch, inside quotes or outside of them, closes its quotes and has
nothing but plain patterns outside. -/
inductive Quotes : Bool → Branch Val Value → Prop
  /-- Nothing is left, and no quote is open. -/
  | nil : Quotes false []
  /-- A pattern outside of quotes. -/
  | plain {element : Element Val Value} {following : Branch Val Value}
      (plain : element.pattern.IsPlain) (others : Quotes false following) :
      Quotes false (element :: following)
  /-- Text inside quotes. -/
  | content {element : Element Val Value} {following : Branch Val Value}
      (content : element.IsContent) (others : Quotes true following) :
      Quotes true (element :: following)
  /-- A quote. -/
  | mark {quoted : Bool} {element : Element Val Value} {following : Branch Val Value}
      (mark : element.IsMark) (others : Quotes (!quoted) following) :
      Quotes quoted (element :: following)

section Branches

variable {quoted : Bool} {element : Element Val Value} {following : Branch Val Value}

/-- Inside quotes a branch has not come to its end. -/
theorem Quotes.canEnd_eq {branch : Branch Val Value} (quotes : Quotes true branch) :
    canEnd branch = false := by
  generalize inside : true = quoted at quotes
  induction quotes with
  | nil => cases inside
  | plain => cases inside
  | content _ _ ih =>
    unfold canEnd at ih ⊢
    rw [List.all_cons, ih inside, Bool.and_false]
  | mark mark _ _ => simp [canEnd, mark.2.1]

/-- What follows an element that may be absent stands on the same side of the quotes. -/
theorem Quotes.of_absent (quotes : Quotes quoted (element :: following))
    (absent : element.minimum = 0) : Quotes quoted following := by
  cases quotes with
  | plain _ others => exact others
  | content _ others => exact others
  | mark mark _ =>
    have once := mark.2.1
    omega

/-- What is no set of characters is plain and stands outside of quotes, as does what follows it. -/
theorem Quotes.of_other (quotes : Quotes quoted (element :: following))
    (other : ∀ set, element.pattern ≠ .character set) :
    quoted = false ∧ element.pattern.IsPlain ∧ Quotes false following := by
  cases quotes with
  | plain plain others => exact ⟨rfl, plain, others⟩
  | content content _ =>
    obtain ⟨set, same, _⟩ := content
    exact absurd same (other set)
  | mark mark _ =>
    obtain ⟨⟨set, same, _⟩, _⟩ := mark
    exact absurd same (other set)

/-- A text stands outside of quotes and is plain. -/
theorem Quotes.of_literal {literal : Literal Value} (quotes : Quotes quoted (element :: following))
    (pattern : element.pattern = .literal literal) :
    quoted = false ∧ literal.IsPlain ∧ Quotes false following := by
  obtain ⟨outside, plain, others⟩ := quotes.of_other fun set same => nomatch pattern.symm.trans same
  rw [pattern] at plain
  exact ⟨outside, plain, others⟩

/-- A nested rule stands outside of quotes, too. -/
theorem Quotes.of_nested {rule : ι} {update : Value → Val rule → Value}
    (quotes : Quotes quoted (element :: following))
    (pattern : element.pattern = .nested rule update) :
    quoted = false ∧ Quotes false following := by
  obtain ⟨outside, _, others⟩ := quotes.of_other fun set same => nomatch pattern.symm.trans same
  exact ⟨outside, others⟩

/-- Outside of quotes no blank is accepted as a character of its own. -/
theorem Quotes.isBlank_eq {set : CharacterSet Value} {character : UInt8}
    (quotes : Quotes false (element :: following)) (pattern : element.pattern = .character set)
    (accepted : set.accepts character = true) : Character.isBlank character = false := by
  cases quotes with
  | plain plain _ =>
    rw [pattern] at plain
    exact (plain character accepted).1
  | mark mark _ =>
    obtain ⟨⟨other, same, only⟩, _⟩ := mark
    rw [pattern] at same
    cases same
    rw [only character accepted]
    rfl

/-- A character that a set accepts leads to the other side of the quotes if it is one, and then the
set does not accept another one. -/
theorem Quotes.of_accepts {set : CharacterSet Value} {character : UInt8}
    (quotes : Quotes quoted (element :: following)) (pattern : element.pattern = .character set)
    (accepted : set.accepts character = true) (count : Nat) :
    Quotes (quoted ^^ character == Character.quote) following ∧
      (element.allowsRepeat (count + 1) = true →
        Quotes (quoted ^^ character == Character.quote) (element :: following)) := by
  cases quotes with
  | plain plain others =>
    have other := plain
    rw [pattern] at other
    have unquoted : (character == Character.quote) = false :=
      beq_eq_false_iff_ne.mpr (other character accepted).2
    rw [unquoted]
    exact ⟨others, fun _ => .plain plain others⟩
  | content content others =>
    have other := content
    obtain ⟨set', same, refused⟩ := other
    rw [pattern] at same
    cases same
    have unquoted : (character == Character.quote) = false := by
      apply beq_eq_false_iff_ne.mpr
      rintro rfl
      rw [refused] at accepted
      cases accepted
    rw [unquoted]
    exact ⟨others, fun _ => .content content others⟩
  | mark mark others =>
    obtain ⟨⟨set', same, only⟩, _, most⟩ := mark
    rw [pattern] at same
    cases same
    obtain rfl := only character accepted
    rw [beq_self_eq_true, Bool.xor_true]
    -- An opening quote is not taken again as one, or the closing one would be lost.
    refine ⟨others, fun again => ?_⟩
    rw [Element.allowsRepeat, most, Option.all_some, decide_eq_true_eq] at again
    omega

end Branches

/-- Whether the value of a branch does not depend on what is written for the text of an element. -/
def Element.IsSilent (element : Element Val Value) : Prop :=
  ∀ literal, element.pattern = .literal literal →
    ∀ old left right, literal.update old left = literal.update old right

/-- Whether an element has no quotes and no blanks by itself but single ones inside of a text. -/
def Element.isUnquoted (element : Element Val Value) : Bool :=
  match element.pattern with
  | .literal expected =>
    isGapped expected.text.characters && !expected.text.characters.contains Character.quote
  | .character set =>
    !set.accepts Character.space && !set.accepts Character.tabulation &&
      !set.accepts Character.quote
  | .nested _ _ => true

section Checks

variable {element : Element Val Value}

/-- How often an element occurs does not make it silent or not. -/
@[simp] theorem Element.isSilent_counts {minimum : Nat} {maximum : Option Nat} :
    (element.counts minimum maximum).IsSilent ↔ element.IsSilent := Iff.rfl

/-- So an element that may be absent is silent if it is when it is needed. -/
@[simp] theorem Element.isSilent_optional : element.optional.IsSilent ↔ element.IsSilent :=
  Element.isSilent_counts

/-- So is one that may occur any number of times. -/
@[simp] theorem Element.isSilent_many : element.many.IsSilent ↔ element.IsSilent :=
  Element.isSilent_counts

/-- So is one that may occur any number of times, but once at least. -/
@[simp] theorem Element.isSilent_oneOrMore : element.oneOrMore.IsSilent ↔ element.IsSilent :=
  Element.isSilent_counts

/-- A keyword is silent if its update does not look at what is written for it. -/
@[simp] theorem Element.isSilent_keywordWith {text : String}
    {update : Value → RomanString → Value} :
    (Element.keywordWith text update : Element Val Value).IsSilent ↔
      ∀ old left right, update old left = update old right := by
  constructor
  · intro silent
    exact silent _ rfl
  · rintro same _ ⟨⟩
    exact same

/-- A keyword that leaves the value as it is is silent. -/
@[simp] theorem Element.isSilent_keyword {text : String} :
    (Element.keyword text : Element Val Value).IsSilent :=
  Element.isSilent_keywordWith.mpr fun _ _ _ => rfl

/-- So is a text that leaves the value as it is. -/
@[simp] theorem Element.isSilent_literal {text : String} :
    (Element.literal text : Element Val Value).IsSilent := by
  rintro _ ⟨⟩ _ _ _
  rfl

/-- A set of characters has no text, so it is silent. -/
@[simp] theorem Element.isSilent_character {accepts : UInt8 → Bool}
    {update : Value → UInt8 → Value} :
    (Element.character accepts update : Element Val Value).IsSilent := nofun

/-- So is a nested rule. -/
@[simp] theorem Element.isSilent_nested {rule : ι} {update : Value → Val rule → Value} :
    (Element.nested rule update : Element Val Value).IsSilent := nofun

/-- What is silent and unquoted is plain. -/
theorem Element.IsSilent.isPlain (silent : element.IsSilent)
    (unquoted : element.isUnquoted = true) : element.pattern.IsPlain := by
  unfold Element.isUnquoted at unquoted
  cases pattern : element.pattern with
  | literal expected =>
    simp only [pattern, Bool.and_eq_true, Bool.not_eq_true', List.contains_eq_mem,
      decide_eq_false_iff_not] at unquoted
    exact ⟨unquoted.1, unquoted.2, silent expected pattern⟩
  | character set =>
    simp only [pattern, Bool.and_eq_true, Bool.not_eq_true'] at unquoted
    obtain ⟨⟨space, tabulation⟩, quote⟩ := unquoted
    intro character accepted
    constructor
    · cases blank : Character.isBlank character with
      | false => rfl
      | true =>
        rw [Character.isBlank, Bool.or_eq_true, beq_iff_eq, beq_iff_eq] at blank
        rcases blank with rfl | rfl
        · rw [space] at accepted
          cases accepted
        · rw [tabulation] at accepted
          cases accepted
    · rintro rfl
      rw [quote] at accepted
      cases accepted
  | nested rule update => trivial

/-- A branch of plain patterns stands outside of quotes. -/
theorem quotes_of_plain {branch : Branch Val Value}
    (plain : ∀ element ∈ branch, element.pattern.IsPlain) : Quotes false branch := by
  induction branch with
  | nil => exact .nil
  | cons element following ih =>
    exact .plain (plain element List.mem_cons_self)
      (ih fun other member => plain other (List.mem_cons_of_mem _ member))

end Checks

/-- What is left of a text. -/
def LiteralProgress.remaining (text : List UInt8) : LiteralProgress → List UInt8
  | .awaiting _ => text
  | .inside _ remaining _ => remaining

mutual

/-- Whether an attempt stands inside quotes, or outside of them. -/
def Attempt.Tracks (quoted : Bool) : {i : ι} → Attempt Val i → Prop
  | _, .literal place literal progress =>
    place.element.pattern = .literal literal ∧ Quotes quoted (place.element :: place.following) ∧
      progress.remaining literal.text.characters <:+ literal.text.characters
  | _, .character place set =>
    place.element.pattern = .character set ∧ Quotes quoted (place.element :: place.following)
  | _, .pending place rule update _ =>
    place.element.pattern = .nested rule update ∧
      Quotes quoted (place.element :: place.following)
  | _, .inside place rule update attempts =>
    place.element.pattern = .nested rule update ∧
      Quotes false (place.element :: place.following) ∧ attempts.Tracks quoted

/-- Whether all attempts stand inside quotes, or all outside of them. -/
def Attempts.Tracks (quoted : Bool) : {i : ι} → Attempts Val i → Prop
  | _, .nil => True
  | _, .cons head tail => head.Tracks quoted ∧ tail.Tracks quoted

end

/-- Whether all attempts of a matcher stand inside quotes, where there is no value, or all outside
of them. -/
structure Matcher.Tracks {i : ι} (quoted : Bool) (matcher : Matcher Val i) : Prop where
  /-- All attempts do. -/
  attempts : matcher.attempts.Tracks quoted
  /-- Inside quotes there is no value. -/
  no_value : quoted = true → matcher.value = none

section Steps

variable {i : ι} {quoted : Bool} {place : Place Val (Val i)}

/-- Attempts put together stand on one side of the quotes if both lists do. -/
theorem tracks_append {left right : Attempts Val i} (first : left.Tracks quoted)
    (second : right.Tracks quoted) : (left ++ right).Tracks quoted := by
  match left with
  | .nil => exact second
  | .cons head tail =>
    unfold Attempts.Tracks at first
    rw [Attempts.cons_append, Attempts.Tracks]
    exact ⟨first.1, tracks_append first.2 second⟩

/-- No attempts stand on either side. -/
theorem Matcher.tracks_dead : (dead : Matcher Val i).Tracks quoted := by
  constructor
  · rw [dead, Attempts.Tracks]
    trivial
  · intro _
    rfl

/-- Matchers put together stand on one side of the quotes if both do. -/
theorem Matcher.Tracks.merge {left right : Matcher Val i} (first : left.Tracks quoted)
    (second : right.Tracks quoted) : (left.merge right).Tracks quoted where
  attempts := tracks_append first.attempts second.attempts
  no_value inside := by
    rw [Matcher.merge, first.no_value inside, second.no_value inside]
    rfl

/-- An attempt at an occurrence stands where its element does. -/
theorem tracks_attempt (place : Place Val (Val i))
    (quotes : Quotes quoted (place.element :: place.following)) (previous : Option UInt8) :
    (place.attempt previous).Tracks quoted := by
  unfold Place.attempt
  split <;> rename_i pattern <;> unfold Attempt.Tracks
  · exact ⟨pattern, quotes, List.suffix_rfl⟩
  · exact ⟨pattern, quotes⟩
  · exact ⟨pattern, quotes⟩

/-- Attempts at the first occurrence of some elements stand where the elements do. -/
theorem tracks_seed {branch : Branch Val (Val i)} (quotes : Quotes quoted branch) (value : Val i)
    (number : Nat) (previous : Option UInt8) (position : Nat) :
    (seed value number previous position branch).Tracks quoted := by
  induction branch generalizing position with
  | nil =>
    unfold seed Attempts.Tracks
    trivial
  | cons element following ih =>
    have first := tracks_attempt ⟨value, number, position, 0, element, following⟩ quotes previous
    unfold seed
    by_cases absent : element.minimum = 0
    · simp only [absent, beq_self_eq_true, ↓reduceIte, Attempts.Tracks]
      exact ⟨first, ih (quotes.of_absent absent) (position + 1)⟩
    · have needed : (element.minimum == 0) = false := beq_eq_false_iff_ne.mpr absent
      simp only [needed, Bool.false_eq_true, ↓reduceIte, Attempts.Tracks, and_true]
      exact first

/-- Attempts at the branches of a rule stand where the branches do. -/
theorem tracks_seedBranches {branches : List (Branch Val (Val i))}
    (quotes : ∀ branch ∈ branches, Quotes quoted branch) (initial : Val i)
    (previous : Option UInt8) (index : Nat) :
    (seedBranches initial previous index branches).Tracks quoted := by
  induction branches generalizing index with
  | nil =>
    unfold seedBranches Attempts.Tracks
    trivial
  | cons branch later ih =>
    exact tracks_append (tracks_seed (quotes branch List.mem_cons_self) _ _ _ _)
      (ih (fun other member => quotes other (List.mem_cons_of_mem _ member)) (index + 1))

/-- What follows an occurrence stands where the elements do that may come next. -/
theorem tracks_complete (following : Quotes quoted place.following)
    (again : place.element.allowsRepeat (place.occurrence + 1) = true →
      Quotes quoted (place.element :: place.following)) (value : Val i) (character : UInt8) :
    (place.complete value character).Tracks quoted := by
  have repetition : (place.repetition value character).Tracks quoted := by
    refine ⟨?_, fun _ => rfl⟩
    rw [Place.repetition, Matcher.live]
    by_cases allowed : place.element.allowsRepeat (place.occurrence + 1) = true
    · rw [if_pos allowed, Attempts.Tracks, Attempts.Tracks]
      exact ⟨tracks_attempt { place with value, occurrence := place.occurrence + 1 }
        (again allowed) _, trivial⟩
    · rw [if_neg allowed, Attempts.Tracks]
      trivial
  by_cases enough : place.element.minimum ≤ place.occurrence + 1
  · rw [Place.complete_of_enough enough]
    refine repetition.merge ⟨tracks_seed following _ _ _ _, fun inside => ?_⟩
    subst inside
    simp only [remainder, following.canEnd_eq, Bool.false_eq_true, ↓reduceIte]
  · rw [Place.complete_of_few enough]
    exact repetition

/-- What becomes of an attempt inside a nested rule stands where the rule does. -/
theorem tracks_nest {rule : ι} {update : Val i → Val rule → Val i} {inner : Matcher Val rule}
    (pattern : place.element.pattern = .nested rule update)
    (quotes : Quotes false (place.element :: place.following)) (tracks : inner.Tracks quoted)
    (character : UInt8) : (place.nest rule update inner character).Tracks quoted := by
  rw [Place.nest_eq]
  refine Matcher.Tracks.merge ⟨?_, fun _ => rfl⟩ ?_
  · rw [Place.ongoing, Matcher.live]
    by_cases empty : inner.attempts.isEmpty = true
    · rw [if_pos empty, Attempts.Tracks]
      trivial
    · rw [if_neg empty, Attempts.Tracks, Attempt.Tracks, Attempts.Tracks]
      exact ⟨⟨pattern, quotes, tracks.attempts⟩, trivial⟩
  · cases found : inner.value with
    | none => exact Matcher.tracks_dead
    | some value =>
      cases quoted with
      | false => exact tracks_complete (quotes.of_nested pattern).2 (fun _ => quotes) _ character
      | true =>
        rw [tracks.no_value rfl] at found
        cases found

end Steps

/-- With one more character a text skips a blank, or takes the character for its next one. -/
theorem Literal.remaining_of_advance {literal : Literal Value} {progress later : LiteralProgress}
    {character : UInt8} (advanced : literal.advance progress character = some later) :
    Character.isBlank character = true ∧
        later.remaining literal.text.characters = progress.remaining literal.text.characters ∨
      ∃ expected, progress.remaining literal.text.characters =
          expected :: later.remaining literal.text.characters ∧
        literal.admits expected character = true := by
  unfold advance at advanced
  cases progress with
  | awaiting previous =>
    cases characters : literal.text.characters with
    | nil => simp [characters] at advanced
    | cons expected rest =>
      simp only [characters] at advanced
      by_cases blank : Character.isBlank character = true
      · rw [if_pos blank] at advanced
        cases advanced
        exact .inl ⟨blank, rfl⟩
      · rw [if_neg blank] at advanced
        by_cases begins : (literal.admits expected character &&
          !Character.joinsWord previous character) = true
        · rw [if_pos begins] at advanced
          cases advanced
          rw [Bool.and_eq_true] at begins
          exact .inr ⟨expected, rfl, begins.1⟩
        · rw [if_neg begins] at advanced
          cases advanced
  | inside afterBlank remaining matched =>
    cases remaining with
    | nil => cases advanced
    | cons expected rest =>
      by_cases extra : (Character.isBlank character && afterBlank &&
        !Character.isBlank expected) = true
      · simp only [extra, ↓reduceIte] at advanced
        cases advanced
        rw [Bool.and_eq_true, Bool.and_eq_true] at extra
        exact .inl ⟨extra.1.1, rfl⟩
      · simp only [extra, Bool.false_eq_true, ↓reduceIte] at advanced
        by_cases admitted : literal.admits expected character = true
        · simp only [admitted, ↓reduceIte] at advanced
          cases advanced
          exact .inr ⟨expected, rfl, admitted⟩
        · simp only [admitted, Bool.false_eq_true, ↓reduceIte] at advanced
          cases advanced

/-- A blank is no quote. -/
theorem not_quote_of_isBlank {character : UInt8} (blank : Character.isBlank character = true) :
    (character == Character.quote) = false := by
  apply beq_eq_false_iff_ne.mpr
  rintro rfl
  cases blank

/-- A quote stands for itself only. -/
theorem Literal.eq_of_admits_quote {literal : Literal Value} {expected : UInt8}
    (admitted : literal.admits expected Character.quote = true) : expected = Character.quote := by
  have solid : Character.isBlank expected = false := (literal.isBlank_of_admits admitted).symm
  rw [literal.admits_iff, solid, if_neg Bool.false_ne_true] at admitted
  unfold Same at admitted
  by_cases ignores : literal.ignoresCase = true
  · rw [if_pos ignores] at admitted
    exact (Character.toLower_eq_iff (by decide) expected).mp admitted
  · rw [if_neg ignores] at admitted
    exact admitted

/-- A plain text takes no quote, and less of it is left. -/
theorem Literal.IsPlain.of_advance {literal : Literal Value} {progress later : LiteralProgress}
    {character : UInt8} (plain : literal.IsPlain)
    (within : progress.remaining literal.text.characters <:+ literal.text.characters)
    (advanced : literal.advance progress character = some later) :
    (character == Character.quote) = false ∧
      later.remaining literal.text.characters <:+ literal.text.characters := by
  rcases remaining_of_advance advanced with ⟨blank, same⟩ | ⟨expected, taken, admitted⟩
  · rw [same]
    exact ⟨not_quote_of_isBlank blank, within⟩
  · rw [taken] at within
    refine ⟨beq_eq_false_iff_ne.mpr ?_, (List.suffix_cons expected _).trans within⟩
    rintro rfl
    rw [eq_of_admits_quote admitted] at within
    exact plain.unquoted (within.subset List.mem_cons_self)

section Feeding

variable {enter : (rule : ι) → Option UInt8 → UInt8 → Matcher Val rule} {character : UInt8}
  {quoted : Bool}

mutual

/-- A character takes an attempt to the other side of the quotes if it is a quote. -/
theorem Attempt.tracks_step
    (entered : ∀ rule previous,
      (enter rule previous character).Tracks (character == Character.quote)) :
    {i : ι} → (attempt : Attempt Val i) → attempt.Tracks quoted →
      (attempt.step enter character).Tracks (quoted ^^ character == Character.quote)
  | _, .literal place literal progress, tracks => by
    unfold Attempt.Tracks at tracks
    obtain ⟨pattern, quotes, within⟩ := tracks
    obtain ⟨rfl, plain, following⟩ := quotes.of_literal pattern
    rw [Attempt.step]
    cases advanced : literal.advance progress character with
    | none => exact Matcher.tracks_dead
    | some later =>
      obtain ⟨unquoted, within⟩ := plain.of_advance within advanced
      rw [unquoted]
      have stays : (⟨.cons (.literal place literal later) .nil, none⟩ : Matcher Val _).Tracks
          false := by
        refine ⟨?_, fun _ => rfl⟩
        rw [Attempts.Tracks, Attempts.Tracks, Attempt.Tracks]
        exact ⟨⟨pattern, quotes, within⟩, trivial⟩
      cases later with
      | awaiting previous => exact stays
      | inside afterBlank remaining matched =>
        cases remaining with
        | nil => exact tracks_complete following (fun _ => quotes) _ character
        | cons expected rest => exact stays
  | _, .character place set, tracks => by
    unfold Attempt.Tracks at tracks
    obtain ⟨pattern, quotes⟩ := tracks
    rw [Attempt.step]
    by_cases accepted : set.accepts character = true
    · obtain ⟨following, again⟩ := quotes.of_accepts pattern accepted place.occurrence
      rw [if_pos accepted]
      exact tracks_complete following again _ character
    · rw [if_neg accepted]
      exact Matcher.tracks_dead
  | _, .pending place rule update previous, tracks => by
    unfold Attempt.Tracks at tracks
    obtain ⟨pattern, quotes⟩ := tracks
    obtain ⟨rfl, following⟩ := quotes.of_nested pattern
    rw [Attempt.step]
    by_cases blank : Character.isBlank character = true
    · rw [if_pos blank, not_quote_of_isBlank blank]
      refine ⟨?_, fun _ => rfl⟩
      rw [Attempts.Tracks, Attempts.Tracks, Attempt.Tracks]
      exact ⟨⟨pattern, quotes⟩, trivial⟩
    · rw [if_neg blank]
      by_cases joined : Character.joinsWord previous character = true
      · rw [if_pos joined]
        exact Matcher.tracks_dead
      · rw [if_neg joined, Bool.false_xor]
        exact tracks_nest pattern quotes (entered rule previous) character
  | _, .inside place rule update attempts, tracks => by
    unfold Attempt.Tracks at tracks
    obtain ⟨pattern, quotes, inner⟩ := tracks
    rw [Attempt.step]
    exact tracks_nest pattern quotes (Attempts.tracks_step entered attempts inner) character

/-- A character takes all attempts to the other side of the quotes if it is a quote. -/
theorem Attempts.tracks_step
    (entered : ∀ rule previous,
      (enter rule previous character).Tracks (character == Character.quote)) :
    {i : ι} → (attempts : Attempts Val i) → attempts.Tracks quoted →
      (attempts.step enter character).Tracks (quoted ^^ character == Character.quote)
  | _, .nil, _ => by
    rw [Attempts.step]
    exact Matcher.tracks_dead
  | _, .cons head tail, tracks => by
    unfold Attempts.Tracks at tracks
    rw [Attempts.step]
    exact (Attempt.tracks_step entered head tracks.1).merge
      (Attempts.tracks_step entered tail tracks.2)

end

end Feeding

section Grammar

variable {grammar : Grammar Val} {name : ι} {quoted : Bool}

/-- Whether the quotes of all branches of a grammar are closed. -/
def ClosesQuotes (grammar : Grammar Val) : Prop :=
  ∀ name, ∀ branch ∈ (grammar.rule name).branches, Quotes false branch

/-- Before its first character a rule stands outside of quotes. -/
theorem ClosesQuotes.tracks_start (closes : grammar.ClosesQuotes) (name : ι)
    (previous : Option UInt8) : (grammar.start name previous).attempts.Tracks false :=
  tracks_seedBranches (closes name) _ _ _

/-- A rule that begins with a quote is inside quotes then. -/
theorem ClosesQuotes.tracks_enter (closes : grammar.ClosesQuotes) (depth : Nat) (name : ι)
    (previous : Option UInt8) (character : UInt8) :
    (grammar.enter depth name previous character).Tracks (character == Character.quote) := by
  induction depth generalizing name previous with
  | zero => exact Matcher.tracks_dead
  | succ depth ih =>
    have stepped := Attempts.tracks_step (fun rule previous => ih rule previous)
      (grammar.start name previous).attempts (closes.tracks_start name previous)
    rw [Bool.false_xor] at stepped
    exact stepped

/-- After a text, a matcher stands inside quotes if the number of quotes in the text is odd. -/
theorem ClosesQuotes.tracks_feedAll (closes : grammar.ClosesQuotes) {matcher : Matcher Val name}
    (tracks : matcher.Tracks quoted) (text : List UInt8) :
    (grammar.feedAll matcher text).Tracks
      (quoted ^^ (text.count Character.quote % 2 == 1)) := by
  induction text generalizing matcher quoted with
  | nil =>
    show matcher.Tracks (quoted ^^ false)
    rw [Bool.xor_false]
    exact tracks
  | cons character text ih =>
    have stepped := ih (Attempts.tracks_step (closes.tracks_enter grammar.size · · character)
      matcher.attempts tracks.attempts)
    have parity : ((quoted ^^ character == Character.quote) ^^
        (text.count Character.quote % 2 == 1)) =
        (quoted ^^ ((character :: text).count Character.quote % 2 == 1)) := by
      rw [Bool.xor_assoc, List.count_cons]
      congr 1
      by_cases isQuote : (character == Character.quote) = true
      · simp only [isQuote, ↓reduceIte, Bool.true_xor]
        rw [Bool.eq_iff_iff, Bool.not_eq_true', beq_iff_eq, beq_eq_false_iff_ne]
        omega
      · simp only [isQuote, Bool.false_eq_true, ↓reduceIte, Bool.false_xor, Nat.add_zero]
    rw [parity] at stepped
    exact stepped

end Grammar
end HyperCard.Grammar
