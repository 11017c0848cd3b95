import HyperCard.Proofs.Grammar.Continuation
import HyperCard.Proofs.Grammar.Entry
import HyperCard.Proofs.Grammar.Spelling

/-!
# The matcher finds the preferred reading

The live attempts of a matcher stand in order of preference, and a matcher of two lists of
attempts does what each of them does, the first value counting. So the value after a text is
found from what a single attempt makes of it: an attempt is complete where a segment ends, and
goes on with the attempts that follow. A nested rule is complete at several ends, the last of
which is preferred. The induction is on the length of the text and, for texts of one length, on
the rules that a rule leads to, because a nested rule may take the whole text.

The main statement is `settles`: after any text, the matcher of a rule holds the value of the
preferred reading of the text, or no value if there is none.
-/
namespace HyperCard.Grammar

variable {ι : Type} {Val : ι → Type} {name : ι} (grammar : Grammar Val)

/-- The value after more characters. -/
def valueAfter (matcher : Matcher Val name) (text : List UInt8) : Option (Val name) :=
  (grammar.feedAll matcher text).value

/-- A matcher with attempts and no value. -/
def Matcher.live (attempts : Attempts Val name) : Matcher Val name := ⟨attempts, none⟩

/-- After no more characters the value is that of the matcher. -/
@[simp] theorem valueAfter_nil (matcher : Matcher Val name) :
    grammar.valueAfter matcher [] = matcher.value := rfl

/-- The value after more characters is what the matcher has after the first one and then the others.
-/
theorem valueAfter_cons (matcher : Matcher Val name) (character : UInt8) (rest : List UInt8) :
    grammar.valueAfter matcher (character :: rest) =
      grammar.valueAfter (grammar.feed matcher character) rest := rfl

/-- More characters are fed one text after another. -/
theorem feedAll_append (matcher : Matcher Val name) (left right : List UInt8) :
    grammar.feedAll matcher (left ++ right) =
      grammar.feedAll (grammar.feedAll matcher left) right :=
  List.foldl_append

/-- Characters are fed one after the other, from the first on. -/
theorem feedAll_cons (matcher : Matcher Val name) (character : UInt8) (rest : List UInt8) :
    grammar.feedAll matcher (character :: rest) =
      grammar.feedAll (grammar.feed matcher character) rest := rfl

/-- One attempt becomes what its step makes of it. -/
theorem feed_live_cons (attempt : Attempt Val name) (character : UInt8) :
    grammar.feed (.live (.cons attempt .nil)) character =
      attempt.step (grammar.enter grammar.size) character := by
  simp [feed, Matcher.live, step_cons]

/-- The first value of two matchers counts after any text. -/
theorem valueAfter_merge (left right : Matcher Val name) (text : List UInt8) :
    grammar.valueAfter (left.merge right) text =
      (grammar.valueAfter left text <|> grammar.valueAfter right text) := by
  induction text generalizing left right with
  | nil => rfl
  | cons character rest ih =>
    rw [valueAfter_cons, valueAfter_cons, valueAfter_cons, ← ih]
    simp only [feed, Matcher.merge, step_append]

/-- Nothing comes of no attempts. -/
theorem feed_eq_dead {matcher : Matcher Val name} (empty : matcher.attempts = .nil)
    (character : UInt8) : grammar.feed matcher character = .dead := by
  rw [feed, empty, step_nil]

/-- No text wakes a matcher without attempts and value. -/
theorem feedAll_dead (text : List UInt8) :
    grammar.feedAll (.dead : Matcher Val name) text = .dead := by
  induction text with
  | nil => rfl
  | cons character rest ih => rw [feedAll_cons, feed_eq_dead grammar rfl, ih]

/-- Without attempts there is no value after any text. -/
@[simp] theorem valueAfter_dead (text : List UInt8) :
    grammar.valueAfter (.dead : Matcher Val name) text = none := by
  rw [valueAfter, feedAll_dead]
  rfl

/-- Nor is there one without attempts that never had a value. -/
@[simp] theorem valueAfter_live_nil (text : List UInt8) :
    grammar.valueAfter (.live .nil : Matcher Val name) text = none :=
  valueAfter_dead grammar text

/-- One attempt does what its step makes of it. -/
theorem valueAfter_live_cons (attempt : Attempt Val name) (character : UInt8)
    (rest : List UInt8) :
    grammar.valueAfter (.live (.cons attempt .nil)) (character :: rest) =
      grammar.valueAfter (attempt.step (grammar.enter grammar.size) character) rest := by
  rw [valueAfter_cons, feed_live_cons]

/-- A matcher whose value is, after a text at a position, that of the foremost occurrences of
some kind, when they start from a value. -/
def Follows (branch : Branch Val (Val name)) (reads : List Occurrence → Prop)
    (text : List UInt8) (previous : Option UInt8) (position : Nat) (value : Val name)
    (matcher : Matcher Val name) : Prop :=
  Best Precedes reads
    (fun occurrences new =>
      Applies grammar.Denotes text previous branch position occurrences value new)
    (grammar.valueAfter matcher text)

/-- After a text, a matcher of a rule holds the value of the preferred reading, if there is a
reading. -/
def Settles (name : ι) (previous : Option UInt8) (text : List UInt8) : Prop :=
  Best Reading.Precedes (grammar.IsReading name previous text)
    (grammar.HasValue name previous text) (grammar.valueAfter (grammar.start name previous) text)

variable {grammar}

/-- The value that a matcher settles on is what the text denotes. -/
theorem Settles.denotes {previous : Option UInt8} {text : List UInt8} {value : Val name}
    (settles : grammar.Settles name previous text)
    (found : grammar.valueAfter (grammar.start name previous) text = some value) :
    grammar.Denotes name previous text value := by
  rw [Settles, found] at settles
  obtain ⟨reading, preferred, branch, found, applies⟩ := settles
  exact .reading preferred found applies

/-- A matcher settles on no value only for texts that its rule does not match. -/
theorem Settles.not_matches {previous : Option UInt8} {text : List UInt8}
    (settles : grammar.Settles name previous text)
    (found : grammar.valueAfter (grammar.start name previous) text = none) :
    ¬ grammar.Matches name previous text := by
  rw [Settles, found] at settles
  rw [matches_iff_exists_reading]
  rintro ⟨reading, reads⟩
  exact settles reading reads

section Place

variable {branch : Branch Val (Val name)} {place : Place Val (Val name)}

/-- The current element and those after it are the end of the branch. -/
def Place.Within (place : Place Val (Val name)) (branch : Branch Val (Val name)) : Prop :=
  branch.drop place.index = place.element :: place.following

/-- The current element stands at its index. -/
theorem Place.Within.getElem? (within : place.Within branch) :
    branch[place.index]? = some place.element := by
  have head := List.head?_drop (l := branch) (i := place.index)
  rw [within] at head
  exact head.symm

/-- What is known of a place after each segment of its element: completing the element there
leads to the foremost occurrences that may come. -/
def Place.Completes (grammar : Grammar Val) (place : Place Val (Val name))
    (branch : Branch Val (Val name)) (text : List UInt8) (previous : Option UInt8)
    (position : Nat) : Prop :=
  ∀ first rest character value, text = first ++ rest → first ≠ [] →
    before previous first = some character →
    grammar.Follows branch
      (Continues grammar.Matches rest (some character) place.element place.following place.index
        (place.occurrence + 1) (position + first.length))
      rest (some character) (position + first.length) value (place.complete value character)

/-- A text that is not empty has a last character. -/
theorem exists_before {text : List UInt8} (nonempty : text ≠ []) (previous : Option UInt8) :
    ∃ character, before previous text = some character := by
  induction text generalizing previous with
  | nil => exact absurd rfl nonempty
  | cons character rest ih =>
    cases rest with
    | nil => exact ⟨character, rfl⟩
    | cons _ _ => exact ih (by simp) (some character)

/-- A segment and the foremost occurrences after it are the foremost that begin with the
segment. -/
theorem Place.Completes.follows {text first rest : List UInt8} {previous : Option UInt8}
    {position : Nat} {value : Val name} {character : UInt8}
    (completes : place.Completes grammar branch text previous position)
    (within : place.Within branch) (whole : text = first ++ rest) (nonempty : first ≠ [])
    (last : before previous first = some character)
    (update : Updates grammar.Denotes first previous place.element.pattern place.value value) :
    Best Precedes
      (fun occurrences => ∃ others,
        occurrences = ⟨place.index, position + first.length⟩ :: others ∧
        Continues grammar.Matches rest (before previous first) place.element place.following
          place.index (place.occurrence + 1) (position + first.length) others)
      (fun occurrences new =>
        Applies grammar.Denotes text previous branch position occurrences place.value new)
      (grammar.valueAfter (place.complete value character) rest) := by
  have follows := completes first rest character value whole nonempty last
  rw [← last] at follows
  refine follows.map (fun _ _ => .later) fun occurrences new applies => ?_
  rw [whole]
  exact .cons within.getElem? update applies

/-- An attempt at a single character takes the first one if the set accepts it. -/
theorem follows_character {set : CharacterSet (Val name)} {text : List UInt8}
    {previous : Option UInt8} {position : Nat} (within : place.Within branch)
    (pattern : place.element.pattern = .character set)
    (completes : place.Completes grammar branch text previous position) :
    grammar.Follows branch
      (Begins grammar.Matches text previous place.element place.following place.index
        place.occurrence position)
      text previous position place.value (.live (.cons (.character place set) .nil)) := by
  unfold Follows
  cases text with
  | nil => exact fun _ => not_begins_nil
  | cons character rest =>
    have only : ∀ occurrences, Begins grammar.Matches (character :: rest) previous place.element
        place.following place.index place.occurrence position occurrences ↔
        set.accepts character = true ∧ ∃ others,
          occurrences = ⟨place.index, position + [character].length⟩ :: others ∧
          Continues grammar.Matches rest (before previous [character]) place.element
            place.following place.index (place.occurrence + 1) (position + [character].length)
            others := by
      intro occurrences
      constructor
      · rintro ⟨first, tail, others, whole, rfl, segment, continues⟩
        rw [pattern] at segment
        cases segment with
        | character accepted =>
          obtain ⟨rfl, rfl⟩ := List.cons.inj whole
          exact ⟨accepted, others, rfl, continues⟩
      · rintro ⟨accepted, others, rfl, continues⟩
        exact ⟨[character], rest, others, rfl, rfl, by rw [pattern]; exact .character accepted,
          continues⟩
    rw [valueAfter_live_cons, Attempt.step]
    by_cases accepted : set.accepts character
    · have update : Updates grammar.Denotes [character] previous place.element.pattern
          place.value (set.update place.value character) := by
        rw [pattern]
        exact .character
      have whole : character :: rest = [character] ++ rest := rfl
      have follows := completes.follows within whole (by simp) rfl update
      simp only [accepted, ↓reduceIte]
      exact follows.congr fun occurrences => by simp [only, accepted]
    · simp only [accepted, Bool.false_eq_true, ↓reduceIte, valueAfter_dead]
      intro occurrences begins
      exact accepted ((only occurrences).mp begins).1

/-- An attempt at a text ends where the text is complete: what follows is all that is alive then. -/
theorem feedAll_literal_complete {literal : Literal (Val name)} {progress : LiteralProgress}
    {final : Bool} {text matched : List UInt8} {previous : Option UInt8} {character : UInt8}
    (last : before previous text = some character) (nonempty : text ≠ [])
    (reached : literal.advanceAll progress text = some (.inside final [] matched)) :
    grammar.feedAll (.live (.cons (.literal place literal progress) .nil)) text =
      place.complete (literal.update place.value ⟨matched.reverse⟩) character := by
  induction text generalizing progress previous with
  | nil => exact absurd rfl nonempty
  | cons next text ih =>
    rw [feedAll_cons, feed_live_cons, Attempt.step]
    simp only [Literal.advanceAll] at reached
    cases advanced : literal.advance progress next with
    | none => simp [advanced] at reached
    | some later =>
      simp only [advanced] at reached
      cases text with
      | nil =>
        obtain rfl := Option.some.inj reached
        obtain rfl := Option.some.inj last
        rfl
      | cons other text =>
        have going := @ih later (some next) last (by simp) reached
        cases later with
        | awaiting _ => exact going
        | inside _ remaining _ =>
          cases remaining with
          | nil => simp [Literal.advanceAll, Literal.advance] at reached
          | cons _ _ => exact going

/-- An attempt at a text is complete where the text is. -/
theorem valueAfter_literal_complete {literal : Literal (Val name)} {progress : LiteralProgress}
    {final : Bool} {first rest matched : List UInt8} {previous : Option UInt8} {character : UInt8}
    (last : before previous first = some character) (nonempty : first ≠ [])
    (reached : literal.advanceAll progress first = some (.inside final [] matched)) :
    grammar.valueAfter (.live (.cons (.literal place literal progress) .nil)) (first ++ rest) =
      grammar.valueAfter
        (place.complete (literal.update place.value ⟨matched.reverse⟩) character) rest := by
  rw [valueAfter, feedAll_append, feedAll_literal_complete last nonempty reached, valueAfter]

/-- An attempt at a text that is not completed anywhere comes to nothing. -/
theorem valueAfter_literal_none {literal : Literal (Val name)} {progress : LiteralProgress}
    {text : List UInt8}
    (never : ∀ first rest later, text = first ++ rest → first ≠ [] →
      literal.advanceAll progress first = some later → ¬ Literal.IsComplete later) :
    grammar.valueAfter (.live (.cons (.literal place literal progress) .nil)) text = none := by
  induction text generalizing progress with
  | nil => rfl
  | cons next text ih =>
    rw [valueAfter_live_cons, Attempt.step]
    cases advanced : literal.advance progress next with
    | none => exact valueAfter_dead grammar text
    | some later =>
      have going := @ih later fun first rest later whole nonempty reached =>
        never (next :: first) rest later (by rw [whole]; rfl) (by simp)
          (by simpa only [Literal.advanceAll, advanced] using reached)
      cases later with
      | awaiting _ => exact going
      | inside afterBlank remaining matched =>
        cases remaining with
        | nil =>
          have complete : Literal.IsComplete (.inside afterBlank [] matched) := trivial
          exact absurd complete (never [next] text _ rfl (by simp)
            (by simp only [Literal.advanceAll, advanced]))
        | cons _ _ => exact going

/-- An attempt at a text takes the first writing of it. -/
theorem follows_literal {literal : Literal (Val name)} {text : List UInt8}
    {previous : Option UInt8} {position : Nat} (proper : literal.Proper)
    (within : place.Within branch) (pattern : place.element.pattern = .literal literal)
    (completes : place.Completes grammar branch text previous position) :
    grammar.Follows branch
      (Begins grammar.Matches text previous place.element place.following place.index
        place.occurrence position)
      text previous position place.value
      (.live (.cons (.literal place literal (.awaiting previous)) .nil)) := by
  unfold Follows
  by_cases written : ∃ first rest, text = first ++ rest ∧
      Segment grammar.Matches first previous place.element.pattern
  · obtain ⟨first, rest, rfl, segment⟩ := written
    obtain ⟨character, last⟩ := exists_before segment.ne_nil previous
    rw [pattern] at segment
    obtain ⟨later, reached, complete⟩ := (segment_literal_iff proper).mp segment
    obtain ⟨final, rfl⟩ := Literal.matched_eq proper reached complete
    rw [valueAfter_literal_complete last segment.ne_nil reached, List.reverse_reverse]
    have follows := completes.follows within rfl segment.ne_nil last
      (by rw [pattern]; exact .literal)
    refine follows.congr fun occurrences => ?_
    constructor
    · rintro ⟨others, rfl, continues⟩
      exact ⟨first, rest, others, rfl, rfl, by rw [pattern]; exact segment, continues⟩
    · rintro ⟨other, tail, others, whole, rfl, otherSegment, continues⟩
      rw [pattern] at otherSegment
      obtain ⟨_, otherReached, otherComplete⟩ := (segment_literal_iff proper).mp otherSegment
      obtain ⟨rfl, rfl⟩ := Literal.first_unique reached complete otherReached otherComplete whole
      exact ⟨others, rfl, continues⟩
  · rw [valueAfter_literal_none]
    · rintro _ ⟨first, rest, _, whole, _, segment, _⟩
      exact written ⟨first, rest, whole, segment⟩
    · intro first rest later whole _ reached complete
      exact written ⟨first, rest, whole, by
        rw [pattern]
        exact (segment_literal_iff proper).mpr ⟨later, reached, complete⟩⟩

/-- An attempt inside a nested rule, as long as the rule is alive. -/
def Place.ongoing (place : Place Val (Val name)) (rule : ι)
    (update : Val name → Val rule → Val name) (attempts : Attempts Val rule) :
    Matcher Val name :=
  .live (if attempts.isEmpty then .nil else .cons (.inside place rule update attempts) .nil)

/-- An attempt inside a nested rule becomes itself, as long as the rule is alive, and what follows
the occurrence where the rule has a value. -/
theorem Place.nest_eq {rule : ι} {update : Val name → Val rule → Val name}
    (inner : Matcher Val rule) (character : UInt8) :
    place.nest rule update inner character =
      (place.ongoing rule update inner.attempts).merge
        (inner.value.elim .dead fun value =>
          place.complete (update place.value value) character) := by
  have going : ∀ completed : Matcher Val name,
      (if inner.attempts.isEmpty then completed
        else ⟨.cons (.inside place rule update inner.attempts) completed.attempts,
          completed.value⟩) =
        (place.ongoing rule update inner.attempts).merge completed := by
    intro completed
    rw [ongoing]
    cases inner.attempts <;> rfl
  rw [nest]
  cases inner.value <;> exact going _

/-- What comes of an attempt inside a nested rule is what comes of going on with the rule, or
else of completing it with its value. -/
theorem valueAfter_nest {rule : ι} {update : Val name → Val rule → Val name}
    (inner : Matcher Val rule) (character : UInt8) (text : List UInt8) :
    grammar.valueAfter (place.nest rule update inner character) text =
      (grammar.valueAfter (.live (.cons (.inside place rule update inner.attempts) .nil)) text <|>
        match inner.value with
        | some value =>
          grammar.valueAfter (place.complete (update place.value value) character) text
        | none => none) := by
  have going : ∀ attempts : Attempts Val rule,
      grammar.valueAfter (place.ongoing rule update attempts) text =
        grammar.valueAfter (.live (.cons (.inside place rule update attempts) .nil)) text := by
    intro attempts
    cases attempts with
    | cons head tail => rfl
    | nil =>
      cases text with
      | nil => rfl
      | cons next text =>
        rw [valueAfter_live_cons, Attempt.step, step_nil]
        exact (valueAfter_dead grammar _).trans (valueAfter_dead grammar text).symm
  rw [Place.nest_eq, valueAfter_merge, going]
  cases inner.value with
  | none => rw [Option.elim_none, valueAfter_dead]
  | some value => rfl

/-- The value of a rule is what its text denotes, so its text matches. -/
theorem Settles.matches {rule : ι} {previous : Option UInt8} {text : List UInt8}
    {value : Val rule} (settles : grammar.Settles rule previous text)
    (found : grammar.valueAfter (grammar.start rule previous) text = some value) :
    grammar.Matches rule previous text := by
  rw [Settles, found] at settles
  obtain ⟨reading, preferred, _⟩ := settles
  exact (matches_iff_exists_reading grammar rule previous text).mpr ⟨reading, preferred.1⟩

/-- Occurrences that begin with a nested rule after blanks, which takes exactly the inner text. -/
def BeginsNested (language : Language ι) (rule : ι) (blanks inner rest : List UInt8)
    (previous : Option UInt8) (element : Element Val (Val name))
    (following : Branch Val (Val name)) (index count position : Nat)
    (occurrences : List Occurrence) : Prop :=
  ∃ others, occurrences = ⟨index, position + (blanks ++ inner).length⟩ :: others ∧
    language rule (before previous blanks) inner ∧
    Continues language rest (before previous (blanks ++ inner)) element following index
      (count + 1) (position + (blanks ++ inner).length) others

/-- An inner text with more characters makes the first occurrence longer. -/
theorem BeginsNested.precedes {language : Language ι} {rule : ι}
    {blanks inner more rest other : List UInt8} {previous : Option UInt8}
    {element : Element Val (Val name)} {following : Branch Val (Val name)}
    {index count position : Nat} {long short : List Occurrence} (some : more ≠ [])
    (longer : BeginsNested language rule blanks (inner ++ more) rest previous element following
      index count position long)
    (shorter : BeginsNested language rule blanks inner other previous element following index
      count position short) :
    Precedes long short := by
  obtain ⟨_, rfl, _⟩ := longer
  obtain ⟨_, rfl, _⟩ := shorter
  have length := List.length_pos_iff.mpr some
  refine .longer rfl ?_
  simp only [List.length_append]
  omega

/-- Completing a nested rule where it has a value leads to the foremost occurrences that begin
with exactly the text taken since the blanks in front. -/
theorem best_completed {rule : ι} {update : Val name → Val rule → Val name}
    {blanks used text : List UInt8} {first : UInt8} {previous : Option UInt8} {position : Nat}
    {character : UInt8} (within : place.Within branch)
    (pattern : place.element.pattern = .nested rule update)
    (blank : ∀ character ∈ blanks, Character.isBlank character)
    (solid : Character.isBlank first = false)
    (last : before previous (blanks ++ first :: used) = some character)
    (settles : grammar.Settles rule (before previous blanks) (first :: used))
    (completes : place.Completes grammar branch (blanks ++ first :: used ++ text) previous
      position) :
    Best Precedes
      (BeginsNested grammar.Matches rule blanks (first :: used) text previous place.element
        place.following place.index place.occurrence position)
      (fun occurrences new => Applies grammar.Denotes (blanks ++ first :: used ++ text) previous
        branch position occurrences place.value new)
      (match grammar.valueAfter (grammar.start rule (before previous blanks)) (first :: used) with
        | some value =>
          grammar.valueAfter (place.complete (update place.value value) character) text
        | none => none) := by
  cases found : grammar.valueAfter (grammar.start rule (before previous blanks)) (first :: used)
    with
  | none =>
    rintro _ ⟨others, _, matched, _⟩
    exact settles.not_matches found matched
  | some value =>
    have update : Updates grammar.Denotes (blanks ++ first :: used) previous
        place.element.pattern place.value (update place.value value) := by
      rw [pattern]
      exact .nested blank solid (settles.denotes found)
    refine (completes.follows within rfl (by simp) last update).congr fun occurrences => ?_
    simp only [BeginsNested, settles.matches found, true_and]

/-- The empty text is cut in one way. -/
theorem exists_cut_nil_iff {holds : List UInt8 → List UInt8 → Prop} :
    (∃ left right, [] = left ++ right ∧ holds left right) ↔ holds [] [] := by
  constructor
  · rintro ⟨left, right, whole, cut⟩
    obtain ⟨rfl, rfl⟩ := List.append_eq_nil_iff.mp whole.symm
    exact cut
  · exact fun cut => ⟨[], [], rfl, cut⟩

/-- A text is cut behind its first character or before it. -/
theorem exists_cut_cons_iff {holds : List UInt8 → List UInt8 → Prop} {first : UInt8}
    {text : List UInt8} :
    (∃ left right, first :: text = left ++ right ∧ holds left right) ↔
      (∃ left right, text = left ++ right ∧ holds (first :: left) right) ∨
        holds [] (first :: text) := by
  constructor
  · rintro ⟨left, right, whole, cut⟩
    cases left with
    | nil =>
      obtain rfl := whole
      exact .inr cut
    | cons other left =>
      obtain ⟨rfl, rfl⟩ := List.cons.inj whole
      exact .inl ⟨left, right, rfl, cut⟩
  · rintro (⟨left, right, rfl, cut⟩ | cut)
    · exact ⟨first :: left, right, rfl, cut⟩
    · exact ⟨[], first :: text, rfl, cut⟩

/-- A nested rule that has taken some text since the blanks in front leads to the foremost
occurrences that begin with at least this text. -/
theorem follows_nest {rule : ι} {update : Val name → Val rule → Val name} {blanks : List UInt8}
    (used text : List UInt8) {first : UInt8} {previous : Option UInt8} {position : Nat}
    {character : UInt8} (within : place.Within branch)
    (pattern : place.element.pattern = .nested rule update)
    (blank : ∀ character ∈ blanks, Character.isBlank character)
    (solid : Character.isBlank first = false)
    (last : before previous (blanks ++ first :: used) = some character)
    (settles : ∀ more rest, text = more ++ rest →
      grammar.Settles rule (before previous blanks) (first :: (used ++ more)))
    (completes : place.Completes grammar branch (blanks ++ first :: used ++ text) previous
      position) :
    Best Precedes
      (fun occurrences => ∃ more rest, text = more ++ rest ∧
        BeginsNested grammar.Matches rule blanks (first :: used ++ more) rest previous
          place.element place.following place.index place.occurrence position occurrences)
      (fun occurrences new => Applies grammar.Denotes (blanks ++ first :: used ++ text) previous
        branch position occurrences place.value new)
      (grammar.valueAfter
        (place.nest rule update
          (grammar.feedAll (grammar.start rule (before previous blanks)) (first :: used))
          character)
        text) := by
  induction text generalizing used character with
  | nil =>
    have here := best_completed within pattern blank solid last
      (by simpa using settles [] [] rfl) completes
    rw [valueAfter_nest]
    refine here.congr fun occurrences => ?_
    rw [exists_cut_nil_iff, List.append_nil]
  | cons next text ih =>
    have here := best_completed within pattern blank solid last
      (by simpa using settles [] (next :: text) rfl) completes
    have grown : before previous (blanks ++ first :: (used ++ [next])) = some next := by simp
    have there := ih (used ++ [next]) grown
      (fun more rest whole => by
        simpa using settles (next :: more) rest (by rw [whole]; rfl))
      (by simpa using completes)
    rw [valueAfter_nest, valueAfter_live_cons, Attempt.step]
    have going : (grammar.feedAll (grammar.start rule (before previous blanks))
        (first :: used)).attempts.step (grammar.enter grammar.size) next =
        grammar.feedAll (grammar.start rule (before previous blanks))
          (first :: (used ++ [next])) := by
      rw [← List.cons_append, feedAll_append]
      rfl
    rw [going]
    have same : blanks ++ first :: (used ++ [next]) ++ text =
        blanks ++ first :: used ++ next :: text := by simp
    rw [same] at there
    have grows : ∀ more, first :: (used ++ [next]) ++ more = first :: used ++ next :: more := by
      simp
    simp only [grows] at there
    -- The rule has taken the next character as well, or it ends here.
    refine (there.orElse here ?_).congr fun occurrences => ?_
    · rintro _ _ ⟨more, rest, _, longer⟩ shorter
      exact longer.precedes (List.cons_ne_nil _ _) shorter
    · rw [exists_cut_cons_iff, List.append_nil]

/-- An attempt before a nested rule skips blanks. -/
theorem valueAfter_pending_blanks {rule : ι} {update : Val name → Val rule → Val name}
    {blanks rest : List UInt8} (blank : ∀ character ∈ blanks, Character.isBlank character)
    (previous : Option UInt8) :
    grammar.valueAfter (.live (.cons (.pending place rule update previous) .nil))
        (blanks ++ rest) =
      grammar.valueAfter
        (.live (.cons (.pending place rule update (before previous blanks)) .nil)) rest := by
  induction blanks generalizing previous with
  | nil => rfl
  | cons character blanks ih =>
    have first := blank character (by simp)
    rw [List.cons_append, valueAfter_live_cons, Attempt.step]
    simp only [first, ↓reduceIte]
    exact ih (fun other member => blank other (by simp [member])) (some character)

/-- The first occurrence of a nested rule takes the blanks in front and some more text. -/
theorem begins_nested_iff {language : Language ι} {rule : ι}
    {update : Val name → Val rule → Val name} {blanks rest : List UInt8} {first : UInt8}
    {previous : Option UInt8} {element : Element Val (Val name)}
    {following : Branch Val (Val name)} {index count position : Nat}
    {occurrences : List Occurrence} (pattern : element.pattern = .nested rule update)
    (blank : ∀ character ∈ blanks, Character.isBlank character)
    (solid : Character.isBlank first = false) :
    Begins language (blanks ++ first :: rest) previous element following index count position
        occurrences ↔
      Character.joinsWord (before previous blanks) first = false ∧
        ∃ more tail, rest = more ++ tail ∧
          BeginsNested language rule blanks (first :: more) tail previous element following index
            count position occurrences := by
  constructor
  · intro begins
    obtain ⟨segmentText, tail, others, whole, rfl, segment, continues⟩ := begins
    rw [pattern] at segment
    cases segment with
    | nested otherBlank otherSolid apart inner =>
      rw [List.append_assoc, List.cons_append] at whole
      obtain ⟨rfl, rfl, rfl⟩ := blanks_append_inj blank solid otherBlank otherSolid whole
      exact ⟨apart, _, tail, rfl, others, rfl, inner, continues⟩
  · intro split
    obtain ⟨apart, more, tail, rfl, others, rfl, inner, continues⟩ := split
    refine ⟨blanks ++ first :: more, tail, others, by simp, rfl, ?_, continues⟩
    rw [pattern]
    exact .nested blank solid apart inner

/-- An attempt at a nested rule takes the longest text first. -/
theorem follows_nested {rule : ι} {update : Val name → Val rule → Val name} {text : List UInt8}
    {previous : Option UInt8} {position : Nat} (proper : grammar.Proper)
    (within : place.Within branch) (pattern : place.element.pattern = .nested rule update)
    (settles : ∀ previous more, more.length ≤ text.length → grammar.Settles rule previous more)
    (completes : place.Completes grammar branch text previous position) :
    grammar.Follows branch
      (Begins grammar.Matches text previous place.element place.following place.index
        place.occurrence position)
      text previous position place.value
      (.live (.cons (.pending place rule update previous) .nil)) := by
  unfold Follows
  rcases exists_blanks text with blank | ⟨blanks, first, rest, rfl, blank, solid⟩
  · have skipped : grammar.valueAfter
        (.live (.cons (.pending place rule update previous) .nil)) (text ++ []) = none := by
      rw [valueAfter_pending_blanks blank]
      rfl
    rw [List.append_nil] at skipped
    rw [skipped]
    intro occurrences begins
    obtain ⟨_, _, _, rfl, _, segment, _⟩ := begins
    rw [pattern] at segment
    cases segment with
    | @nested _ _ _ _ _ _ first _ solid _ _ =>
      have := blank first (by simp)
      simp [solid] at this
  · rw [valueAfter_pending_blanks blank, valueAfter_live_cons, Attempt.step]
    simp only [solid, Bool.false_eq_true, ↓reduceIte]
    by_cases joined : Character.joinsWord (before previous blanks) first
    · simp only [joined, ↓reduceIte, valueAfter_dead]
      intro occurrences begins
      rw [begins_nested_iff pattern blank solid, joined] at begins
      exact absurd begins.1 (by simp)
    · simp only [joined, Bool.false_eq_true, ↓reduceIte, enter_eq_feed proper]
      have last : before previous (blanks ++ [first]) = some first := by simp
      have taken := follows_nest [] rest within pattern blank solid last
        (fun more tail whole => settles _ _ (by
          rw [whole]
          simp only [List.nil_append, List.length_append, List.length_cons]
          omega))
        (by simpa using completes)
      rw [List.append_assoc] at taken
      refine taken.congr fun occurrences => ?_
      rw [begins_nested_iff pattern blank solid]
      simp only [joined, true_and]
      exact Iff.rfl

end Place

end HyperCard.Grammar
