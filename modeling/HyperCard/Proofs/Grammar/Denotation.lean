import HyperCard.Proofs.Grammar.Recognition

/-!
# What a text denotes, element by element

To show that a text denotes a value, its preferred reading has to be named and every other reading
put behind it. Both are done one occurrence at a time: an occurrence is the preferred one if no
longer text can be read in its place, and what it does to the value is known at once.

In the other direction, what a rule matches is taken apart by the same steps, so that a property
of all texts of a rule follows from the same property of the texts of its nested rules.
-/
namespace HyperCard.Grammar

variable {ι : Type} {Val : ι → Type} {name : ι} {Value : Type} {grammar : Grammar Val}

/-- A property of the texts that rules match holds when it follows for a text from the same
property of the texts of its nested rules. -/
theorem Matches.induction {motive : Language ι}
    (step : ∀ {name previous text branch occurrences},
      branch ∈ (grammar.rule name).branches →
      Reads (fun rule previous text => grammar.Matches rule previous text ∧
        motive rule previous text) text previous branch 0 0 occurrences →
      motive name previous text)
    {name : ι} {previous : Option UInt8} {text : List UInt8}
    (matched : grammar.Matches name previous text) : motive name previous text := by
  -- The other motives rebuild the reading with the property added.
  refine @Matches.rec ι Val grammar
    (fun name previous text _ => motive name previous text)
    (fun text previous _ branch index position occurrences _ =>
      Reads (fun rule previous text => grammar.Matches rule previous text ∧
        motive rule previous text) text previous branch index position occurrences)
    (fun text previous _ pattern index count position occurrences _ =>
      Repeats (fun rule previous text => grammar.Matches rule previous text ∧
        motive rule previous text) text previous pattern index count position occurrences)
    (fun text previous _ pattern _ =>
      Segment (fun rule previous text => grammar.Matches rule previous text ∧
        motive rule previous text) text previous pattern)
    ?_ ?_ ?_ ?_ ?_ ?_ ?_ ?_ name previous text matched
  · intro _ _ _ _ _ member _ reads
    exact step member reads
  · intros
    exact .nil
  · intro _ _ _ _ _ _ _ _ _ _ _ _ enough allowed _ repeats others
    exact .cons repeats enough allowed others
  · intros
    exact .none
  · intro _ _ _ _ _ _ _ _ _ _ _ segment others
    exact .more segment others
  · intro _ _ _ _ accepted
    exact .character accepted
  · intro _ _ _ _ _ _ blank apart spells
    exact .literal blank apart spells
  · intro _ _ _ _ _ _ _ blank solid apart inner holds
    exact .nested blank solid apart ⟨inner, holds⟩

/-- A text that denotes something is matched. -/
theorem Denotes.matches {previous : Option UInt8} {text : List UInt8} {value : Val name}
    (denotes : grammar.Denotes name previous text value) :
    grammar.Matches name previous text := by
  cases denotes with
  | reading preferred _ _ =>
    exact (matches_iff_exists_reading grammar name previous text).mpr ⟨_, preferred.1⟩

/-- A preferred reading reads the text by its branch. -/
theorem Preferred.reads {previous : Option UInt8} {text : List UInt8} {reading : Reading}
    {branch : Branch Val (Val name)} (preferred : grammar.Preferred name previous text reading)
    (found : (grammar.rule name).branches[reading.branch]? = some branch) :
    Reads grammar.Matches text previous branch 0 0 reading.occurrences := by
  obtain ⟨other, same, reads⟩ := preferred.1
  obtain rfl := Option.some.inj (found.symm.trans same)
  exact reads

/-- No branch before the one of a preferred reading reads the text. -/
theorem Preferred.not_reads {previous : Option UInt8} {text : List UInt8} {reading : Reading}
    {number : Nat} {branch : Branch Val (Val name)} {occurrences : List Occurrence}
    (preferred : grammar.Preferred name previous text reading)
    (earlier : number < reading.branch)
    (found : (grammar.rule name).branches[number]? = some branch) :
    ¬ Reads grammar.Matches text previous branch 0 0 occurrences := by
  intro reads
  rcases preferred.2 ⟨number, occurrences⟩ ⟨branch, found, reads⟩ with same | less | ⟨same, _⟩
  · rw [← same] at earlier
    exact Nat.lt_irrefl _ earlier
  · exact Nat.lt_asymm earlier less
  · exact Nat.ne_of_gt earlier same

/-- What a text denotes is the value of some branch that reads it. -/
theorem Denotes.exists_reading {previous : Option UInt8} {text : List UInt8} {value : Val name}
    (denotes : grammar.Denotes name previous text value) :
    ∃ reading branch, grammar.Preferred name previous text reading ∧
      (grammar.rule name).branches[reading.branch]? = some branch ∧
      Applies grammar.Denotes text previous branch 0 reading.occurrences
        (grammar.rule name).initial value := by
  cases denotes with
  | reading preferred found applies => exact ⟨_, _, preferred, found, applies⟩

/-- The value after a text is what the text denotes. -/
theorem Denotes.valueAfter_eq (proper : grammar.Proper) {previous : Option UInt8}
    {text : List UInt8} {value : Val name} (denotes : grammar.Denotes name previous text value) :
    grammar.valueAfter (grammar.start name previous) text = some value := by
  have settled := settles proper name previous text
  cases found : grammar.valueAfter (grammar.start name previous) text with
  | none => exact absurd denotes.matches (settled.not_matches found)
  | some other => rw [denotes.unique (settled.denotes found)]

/-- A line that stops being read once no interpretation is alive has the value of all of it. -/
theorem parse_go_eq (matcher : Matcher Val name) (text : List UInt8) :
    parse.go grammar name matcher text = grammar.valueAfter matcher text := by
  induction text generalizing matcher with
  | nil => rfl
  | cons character rest ih =>
    rw [parse.go, ih]
    obtain ⟨attempts, value⟩ := matcher
    cases attempts with
    | nil =>
      rw [valueAfter_cons]
      simp [Matcher.canContinue, Attempts.isEmpty, feed]
    | cons head tail => rfl

/-- The value of a line is what it denotes without the blanks around it. -/
theorem parse_eq_of_denotes (proper : grammar.Proper) {text : RomanString} {value : Val name}
    (denotes : grammar.Denotes name none text.trimmed.characters value) :
    grammar.parse name text = some value := by
  unfold parse
  rw [parse_go_eq, denotes.valueAfter_eq proper]

section Preferred

variable {branch following : Branch Val Value} {element : Element Val Value}
  {first rest text : List UInt8} {previous : Option UInt8} {index count position : Nat}
  {old middle new : Value}

/-- The preferred occurrences of some remaining elements of a branch lead from one value to
another. -/
def Yields (grammar : Grammar Val) (branch remaining : Branch Val Value) (text : List UInt8)
    (previous : Option UInt8) (index position : Nat) (old new : Value) : Prop :=
  ∃ occurrences,
    Foremost Precedes (Reads grammar.Matches text previous remaining index position) occurrences ∧
    Applies grammar.Denotes text previous branch position occurrences old new

/-- The preferred occurrences that may come when so many occurrences of an element are complete
lead from one value to another. -/
def Proceeds (grammar : Grammar Val) (branch : Branch Val Value) (element : Element Val Value)
    (following : Branch Val Value) (text : List UInt8) (previous : Option UInt8)
    (index count position : Nat) (old new : Value) : Prop :=
  ∃ occurrences,
    Foremost Precedes
      (Continues grammar.Matches text previous element following index count position)
      occurrences ∧
    Applies grammar.Denotes text previous branch position occurrences old new

/-- No elements read the empty text and leave the value as it is. -/
theorem Yields.nil : grammar.Yields branch [] [] previous index position old old := by
  refine ⟨[], ⟨.nil, fun other reads => .inl ?_⟩, .nil⟩
  exact (reads_nil_iff.mp reads).1

/-- Before the first occurrence of its first element, a branch proceeds as it yields. -/
theorem Proceeds.yields
    (proceeds : grammar.Proceeds branch element following text previous index 0 position old new) :
    grammar.Yields branch (element :: following) text previous index position old new := by
  obtain ⟨occurrences, ⟨holds, least⟩, applies⟩ := proceeds
  exact ⟨occurrences, ⟨reads_cons_iff.mpr holds, fun other reads =>
    least other (reads_cons_iff.mp reads)⟩, applies⟩

/-- Where no further occurrence of an element can begin, those after it come. -/
theorem Proceeds.stop (enough : element.minimum ≤ count)
    (allowed : ∀ most ∈ element.maximum, count ≤ most)
    (alone : ∀ occurrences, ¬ Begins grammar.Matches text previous element following index count
      position occurrences)
    (yields : grammar.Yields branch following text previous (index + 1) position old new) :
    grammar.Proceeds branch element following text previous index count position old new := by
  obtain ⟨occurrences, ⟨holds, least⟩, applies⟩ := yields
  refine ⟨occurrences, ⟨continues_iff.mpr (.inl ⟨enough, allowed, holds⟩), ?_⟩, applies⟩
  intro other continues
  rcases continues_iff.mp continues with ⟨_, _, reads⟩ | begins
  · exact least other reads
  · exact absurd begins (alone other)

/-- A further occurrence of an element comes first where no longer one can be read. -/
theorem Proceeds.more (found : branch[index]? = some element)
    (segment : Segment grammar.Matches first previous element.pattern)
    (update : Updates grammar.Denotes first previous element.pattern old middle)
    (longest : ∀ other tail, first ++ rest = other ++ tail →
      Segment grammar.Matches other previous element.pattern →
      (∃ occurrences, Continues grammar.Matches tail (before previous other) element following
        index (count + 1) (position + other.length) occurrences) →
      other.length ≤ first.length)
    (proceeds : grammar.Proceeds branch element following rest (before previous first) index
      (count + 1) (position + first.length) middle new) :
    grammar.Proceeds branch element following (first ++ rest) previous index count position old
      new := by
  obtain ⟨occurrences, ⟨holds, least⟩, applies⟩ := proceeds
  have begins : Begins grammar.Matches (first ++ rest) previous element following index count
      position (⟨index, position + first.length⟩ :: occurrences) :=
    ⟨first, rest, occurrences, rfl, rfl, segment, holds⟩
  refine ⟨_, ⟨continues_iff.mpr (.inr begins), ?_⟩, .cons found update applies⟩
  intro other continues
  rcases continues_iff.mp continues with ⟨_, _, reads⟩ | otherBegins
  · exact .inr (begins.precedes reads)
  · obtain ⟨otherFirst, tail, others, whole, rfl, otherSegment, otherContinues⟩ := otherBegins
    have bound := longest otherFirst tail whole otherSegment ⟨others, otherContinues⟩
    by_cases shorter : otherFirst.length < first.length
    · refine .inr (.longer rfl ?_)
      exact Nat.add_lt_add_left shorter position
    · obtain ⟨rfl, rfl⟩ := List.append_inj whole (by omega)
      rcases least others otherContinues with rfl | later
      · exact .inl rfl
      · exact .inr (.later later)

/-- Whether an element occurs exactly once. -/
def Element.IsSingle (element : Element Val Value) : Prop :=
  element.minimum = 1 ∧ element.maximum = some 1

/-- After the only occurrence that it may have, an element is followed by the others. -/
theorem Element.continues_one_iff {language : Language ι} {occurrences : List Occurrence}
    (enough : element.minimum ≤ 1) (most : element.maximum = some 1) :
    Continues language text previous element following index 1 position occurrences ↔
      Reads language text previous following (index + 1) position occurrences := by
  rw [Grammar.continues_iff]
  constructor
  · intro continues
    rcases continues with ⟨_, _, reads⟩ | ⟨_, _, _, _, _, _, _, _, _, _, _, _, _, _, _, bounded, _⟩
    · exact reads
    · have := bounded 1 most
      omega
  · intro reads
    refine .inl ⟨enough, fun bound found => ?_, reads⟩
    rw [most] at found
    exact Nat.le_of_eq (Option.some.inj found)

/-- So it is with an element that occurs exactly once. -/
theorem Element.IsSingle.continues_iff {language : Language ι} {occurrences : List Occurrence}
    (single : element.IsSingle) :
    Continues language text previous element following index 1 position occurrences ↔
      Reads language text previous following (index + 1) position occurrences :=
  element.continues_one_iff (Nat.le_of_eq single.1) single.2

/-- An element that may occur once comes first where no longer occurrence can be read. -/
theorem Yields.present (enough : element.minimum ≤ 1) (most : element.maximum = some 1)
    (found : branch[index]? = some element)
    (segment : Segment grammar.Matches first previous element.pattern)
    (update : Updates grammar.Denotes first previous element.pattern old middle)
    (longest : ∀ other tail, first ++ rest = other ++ tail →
      Segment grammar.Matches other previous element.pattern →
      (∃ occurrences, Reads grammar.Matches tail (before previous other) following (index + 1)
        (position + other.length) occurrences) →
      other.length ≤ first.length)
    (yields : grammar.Yields branch following rest (before previous first) (index + 1)
      (position + first.length) middle new) :
    grammar.Yields branch (element :: following) (first ++ rest) previous index position old
      new := by
  refine Proceeds.yields (.more found segment update ?_ ?_)
  · rintro other tail whole otherSegment ⟨occurrences, continues⟩
    exact longest other tail whole otherSegment
      ⟨occurrences, (element.continues_one_iff enough most).mp continues⟩
  · obtain ⟨occurrences, ⟨holds, least⟩, applies⟩ := yields
    exact ⟨occurrences, ⟨(element.continues_one_iff enough most).mpr holds,
      fun other continues => least other ((element.continues_one_iff enough most).mp continues)⟩,
      applies⟩

/-- An element that need not occur is passed over where none can be read. -/
theorem Yields.absent (enough : element.minimum = 0)
    (alone : ∀ first rest, text = first ++ rest →
      ¬ Segment grammar.Matches first previous element.pattern)
    (yields : grammar.Yields branch following text previous (index + 1) position old new) :
    grammar.Yields branch (element :: following) text previous index position old new := by
  refine Proceeds.yields (.stop (Nat.le_of_eq enough) (fun _ _ => Nat.zero_le _) ?_ yields)
  rintro _ ⟨first, rest, _, whole, _, segment, _⟩
  exact alone first rest whole segment

/-- The only occurrence of an element is the preferred one where no longer one can be read. -/
theorem Yields.single (single : element.IsSingle) (found : branch[index]? = some element)
    (segment : Segment grammar.Matches first previous element.pattern)
    (update : Updates grammar.Denotes first previous element.pattern old middle)
    (longest : ∀ other tail, first ++ rest = other ++ tail →
      Segment grammar.Matches other previous element.pattern →
      (∃ occurrences, Reads grammar.Matches tail (before previous other) following (index + 1)
        (position + other.length) occurrences) →
      other.length ≤ first.length)
    (yields : grammar.Yields branch following rest (before previous first) (index + 1)
      (position + first.length) middle new) :
    grammar.Yields branch (element :: following) (first ++ rest) previous index position old
      new :=
  .present (Nat.le_of_eq single.1) single.2 found segment update longest yields

/-- The last element takes all of the text. -/
theorem Yields.last (single : element.IsSingle) (found : branch[index]? = some element)
    (segment : Segment grammar.Matches text previous element.pattern)
    (update : Updates grammar.Denotes text previous element.pattern old new) :
    grammar.Yields branch [element] text previous index position old new := by
  have yields : grammar.Yields branch [element] (text ++ []) previous index position old new := by
    refine .single single found segment update ?_ .nil
    intro other tail whole _ _
    have lengths := congrArg List.length whole
    simp only [List.length_append, List.length_nil] at lengths
    omega
  rwa [List.append_nil] at yields

/-- A set of characters takes all of a row of its characters. -/
theorem Proceeds.characters {set : CharacterSet Value} {row : List UInt8}
    (found : branch[index]? = some element) (pattern : element.pattern = .character set)
    (unbounded : element.maximum = none) (accepted : ∀ character ∈ row, set.accepts character)
    (refused : ∀ character ∈ rest.head?, set.accepts character = false)
    (enough : element.minimum ≤ count + row.length)
    (yields : grammar.Yields branch following rest (before previous row) (index + 1)
      (position + row.length) (row.foldl set.update old) new) :
    grammar.Proceeds branch element following (row ++ rest) previous index count position old
      new := by
  induction row generalizing previous count position old with
  | nil =>
    refine .stop (by simpa using enough) (by simp [unbounded]) ?_ (by simpa using yields)
    intro occurrences begins
    obtain ⟨first, tail, others, whole, _, segment, _⟩ := begins
    rw [pattern] at segment
    cases segment with
    | character admitted =>
      obtain rfl : rest = _ := whole
      simp [refused _ rfl] at admitted
  | cons character row ih =>
    have begun : Segment grammar.Matches [character] previous element.pattern := by
      rw [pattern]
      exact .character (accepted character (by simp))
    have update : Updates grammar.Denotes [character] previous element.pattern old
        (set.update old character) := by
      rw [pattern]
      exact .character
    have longest : ∀ other tail, [character] ++ (row ++ rest) = other ++ tail →
        Segment grammar.Matches other previous element.pattern →
        (∃ occurrences, Continues grammar.Matches tail (before previous other) element following
          index (count + 1) (position + other.length) occurrences) →
        other.length ≤ [character].length := by
      intro other tail _ segment _
      rw [pattern] at segment
      cases segment
      exact Nat.le_refl _
    have others := @ih (before previous [character]) (count + 1) (position + 1)
      (set.update old character) (fun other member => accepted other (by simp [member]))
      (by
        rw [List.length_cons] at enough
        omega)
      (by simpa [Nat.add_assoc, Nat.add_comm 1] using yields)
    rw [List.cons_append, ← List.singleton_append]
    exact .more found begun update longest others

/-- A text denotes the value of the first branch that reads it. -/
theorem Yields.denotes (number : Nat) {branch : Branch Val (Val name)} {value : Val name}
    (found : (grammar.rule name).branches[number]? = some branch)
    (earlier : ∀ other ∈ (grammar.rule name).branches.take number, ∀ occurrences,
      ¬ Reads grammar.Matches text previous other 0 0 occurrences)
    (yields : grammar.Yields branch branch text previous 0 0 (grammar.rule name).initial value) :
    grammar.Denotes name previous text value := by
  obtain ⟨occurrences, ⟨holds, least⟩, applies⟩ := yields
  suffices preferred : grammar.Preferred name previous text ⟨number, occurrences⟩ from
    .reading preferred found applies
  refine ⟨⟨branch, found, holds⟩, ?_⟩
  rintro ⟨otherNumber, others⟩ ⟨otherBranch, otherFound, reads⟩
  rcases Nat.lt_trichotomy number otherNumber with less | rfl | more
  · exact .inr (.inl less)
  · obtain rfl := Option.some.inj (found.symm.trans otherFound)
    rcases least others reads with same | later
    · exact .inl (by rw [show others = occurrences from same])
    · exact .inr (.inr ⟨rfl, later⟩)
  · refine absurd reads (earlier otherBranch ?_ others)
    exact List.mem_of_getElem? (by rw [List.getElem?_take_of_lt more]; exact otherFound)

end Preferred

/-- Where nested rules match more, patterns match more. -/
theorem Segment.mono {language larger : Language ι} {text : List UInt8}
    {previous : Option UInt8} {pattern : Pattern Val Value}
    (more : ∀ rule previous text, language rule previous text → larger rule previous text)
    (segment : Segment language text previous pattern) : Segment larger text previous pattern := by
  cases segment with
  | character accepted => exact .character accepted
  | literal blank apart spells => exact .literal blank apart spells
  | nested blank solid apart inner => exact .nested blank solid apart (more _ _ _ inner)

/-- So do occurrences of one pattern, one after the other. -/
theorem Repeats.mono {language larger : Language ι} {text : List UInt8}
    {previous : Option UInt8} {pattern : Pattern Val Value} {index count position : Nat}
    {occurrences : List Occurrence}
    (more : ∀ rule previous text, language rule previous text → larger rule previous text)
    (repeats : Repeats language text previous pattern index count position occurrences) :
    Repeats larger text previous pattern index count position occurrences := by
  induction repeats with
  | none => exact .none
  | more segment _ ih => exact .more (segment.mono more) ih

/-- So do branches, with the same occurrences. -/
theorem Reads.mono {language larger : Language ι} {text : List UInt8} {previous : Option UInt8}
    {branch : Branch Val Value} {index position : Nat} {occurrences : List Occurrence}
    (more : ∀ rule previous text, language rule previous text → larger rule previous text)
    (reads : Reads language text previous branch index position occurrences) :
    Reads larger text previous branch index position occurrences := by
  induction reads with
  | nil => exact .nil
  | cons repeats enough allowed _ ih => exact .cons (repeats.mono more) enough allowed ih

/-- An occurrence of a nested rule without blanks in front. -/
theorem Segment.of_matches {language : Language ι} {rule : ι} {update : Value → Val rule → Value}
    {previous : Option UInt8} {first : UInt8} {rest : List UInt8}
    (solid : Character.isBlank first = false)
    (apart : Character.joinsWord previous first = false)
    (matched : language rule previous (first :: rest)) :
    Segment language (first :: rest) previous (.nested rule update) := by
  rw [← List.nil_append (first :: rest)]
  exact .nested (by simp) solid apart matched

/-- The effect of a nested rule without blanks in front is that of what its text denotes. -/
theorem Updates.of_denotes {meaning : Meaning Val} {rule : ι} {update : Value → Val rule → Value}
    {previous : Option UInt8} {first : UInt8} {rest : List UInt8} {old : Value}
    {value : Val rule} (solid : Character.isBlank first = false)
    (denotes : meaning rule previous (first :: rest) value) :
    Updates meaning (first :: rest) previous (.nested rule update) old (update old value) := by
  rw [← List.nil_append (first :: rest)]
  exact .nested (by simp) solid denotes

/-- An occurrence of a nested rule that begins with no blank is a text of the rule. -/
theorem Segment.matches_of_solid {language : Language ι} {rule : ι}
    {update : Value → Val rule → Value} {previous : Option UInt8} {first : UInt8}
    {rest : List UInt8} (solid : Character.isBlank first = false)
    (segment : Segment language (first :: rest) previous (.nested rule update)) :
    language rule previous (first :: rest) := by
  generalize whole : first :: rest = text at segment
  cases segment with
  | nested blank otherSolid _ inner =>
    rw [← List.nil_append (first :: rest)] at whole
    obtain ⟨rfl, rfl, rfl⟩ := blanks_append_inj (by simp) solid blank otherSolid whole
    exact inner

/-- A branch does not read what its first text does not begin. -/
theorem not_reads_of_fails {language : Language ι} {literal : Literal Value}
    {element : Element Val Value} {following : Branch Val Value} {previous : Option UInt8}
    {text more : List UInt8} {index position : Nat} (proper : literal.Proper)
    (single : element.IsSingle) (pattern : element.pattern = .literal literal)
    (fails : literal.fails (.awaiting previous) text = true) (occurrences : List Occurrence) :
    ¬ Reads language (text ++ more) previous (element :: following) index position occurrences := by
  intro reads
  rcases continues_iff.mp (reads_cons_iff.mp reads) with ⟨enough, _, _⟩ | begins
  · have := single.1
    omega
  · obtain ⟨first, rest, others, whole, _, segment, _⟩ := begins
    rw [pattern] at segment
    exact not_segment_of_fails proper fails whole segment

/-- No text begins with two writings of a text. -/
theorem Segment.literal_unique {language : Language ι} {literal : Literal Value}
    {first other rest tail : List UInt8} {previous : Option UInt8} (proper : literal.Proper)
    (segment : Segment language first previous (.literal literal : Pattern Val Value))
    (again : Segment language other previous (.literal literal : Pattern Val Value))
    (whole : first ++ rest = other ++ tail) : first = other := by
  obtain ⟨_, reached, complete⟩ := (segment_literal_iff proper).mp segment
  obtain ⟨_, otherReached, otherComplete⟩ := (segment_literal_iff proper).mp again
  exact (Literal.first_unique reached complete otherReached otherComplete whole).1

/-- A written text is not read beyond its end. -/
theorem Segment.literal_length_le {language : Language ι} {literal : Literal Value}
    {first other rest tail : List UInt8} {previous : Option UInt8} (proper : literal.Proper)
    (segment : Segment language first previous (.literal literal : Pattern Val Value))
    (again : Segment language other previous (.literal literal : Pattern Val Value))
    (whole : first ++ rest = other ++ tail) : other.length ≤ first.length :=
  Nat.le_of_eq (by rw [segment.literal_unique proper again whole])

section Inversion

variable {language : Language ι} {element : Element Val Value} {following : Branch Val Value}
  {text : List UInt8} {previous : Option UInt8} {index position : Nat}
  {occurrences : List Occurrence}

/-- A text of an element that occurs once and of others begins with a segment of the element. -/
theorem Reads.single (single : element.IsSingle)
    (reads : Reads language text previous (element :: following) index position occurrences) :
    ∃ first rest others, text = first ++ rest ∧
      Segment language first previous element.pattern ∧
      Reads language rest (before previous first) following (index + 1)
        (position + first.length) others := by
  rcases continues_iff.mp (reads_cons_iff.mp reads) with
    ⟨enough, _, _⟩ | ⟨first, rest, others, whole, _, segment, continues⟩
  · have := single.1
    omega
  · exact ⟨first, rest, others, whole, segment, single.continues_iff.mp continues⟩

/-- A text of an element that may be absent and of others is one of the others alone, or it begins
with a segment of the element. -/
theorem Reads.optional (optional : element.maximum = some 1)
    (reads : Reads language text previous (element :: following) index position occurrences) :
    Reads language text previous following (index + 1) position occurrences ∨
      ∃ first rest others, text = first ++ rest ∧
        Segment language first previous element.pattern ∧
        Reads language rest (before previous first) following (index + 1)
          (position + first.length) others := by
  rcases continues_iff.mp (reads_cons_iff.mp reads) with
    ⟨_, _, others⟩ | ⟨first, rest, others, whole, _, segment, continues⟩
  · exact .inl others
  · rcases continues_iff.mp continues with ⟨_, _, reads⟩ | begins
    · exact .inr ⟨first, rest, others, whole, segment, reads⟩
    · obtain ⟨_, _, _, _, _, _, _, _, _, _, _, _, _, _, _, bounded, _⟩ := begins
      have := bounded 1 optional
      omega

/-- A text of no element is empty. -/
theorem Reads.eq_nil_of_nil
    (reads : Reads language text previous ([] : Branch Val Value) index position occurrences) :
    text = [] := by
  cases reads
  rfl

/-- A text of one element alone is a segment of it. -/
theorem Reads.last (single : element.IsSingle)
    (reads : Reads language text previous [element] index position occurrences) :
    Segment language text previous element.pattern := by
  obtain ⟨first, rest, others, whole, segment, reads⟩ := reads.single single
  rw [reads.eq_nil_of_nil, List.append_nil] at whole
  rwa [whole]

/-- A segment of an element is a text of the element alone. -/
theorem Reads.of_segment (single : element.IsSingle)
    (segment : Segment language text previous element.pattern) :
    ∃ occurrences, Reads language text previous [element] index position occurrences := by
  have begins : Begins language text previous element [] index 0 position
      [⟨index, position + text.length⟩] :=
    ⟨text, [], [], by simp, rfl, segment, single.continues_iff.mpr .nil⟩
  exact ⟨_, reads_cons_iff.mpr (continues_iff.mpr (.inr begins))⟩

/-- Occurrences of a set of characters are characters of the set. -/
theorem Repeats.accepted {pattern : Pattern Val Value} {set : CharacterSet Value} {count : Nat}
    (repeats : Repeats language text previous pattern index count position occurrences)
    (same : pattern = .character set) :
    text.length = count ∧ ∀ character ∈ text, set.accepts character := by
  induction repeats with
  | none => exact ⟨rfl, by simp⟩
  | @more _ _ _ first rest _ count _ _ segment _ ih =>
    obtain ⟨length, all⟩ := ih same
    subst same
    cases segment with
    | character accepted =>
      refine ⟨by simp [length], fun character member => ?_⟩
      rcases List.mem_cons.mp member with rfl | member
      · exact accepted
      · exact all character member

/-- Characters of a set are as many occurrences of it. -/
theorem Repeats.of_accepted {set : CharacterSet Value}
    (accepted : ∀ character ∈ text, set.accepts character) :
    ∃ occurrences, Repeats language text previous (.character set : Pattern Val Value) index
      text.length position occurrences := by
  induction text generalizing previous position with
  | nil => exact ⟨[], .none⟩
  | cons character text ih =>
    have here : Segment language [character] previous (.character set : Pattern Val Value) :=
      .character (accepted character List.mem_cons_self)
    obtain ⟨others, repeats⟩ := @ih (before previous [character]) (position + 1)
      fun other member => accepted other (List.mem_cons_of_mem _ member)
    exact ⟨_, .more here repeats⟩

/-- Characters of a set are read before the texts of the other elements. -/
theorem Reads.characters {first rest : List UInt8} {set : CharacterSet Value}
    (pattern : element.pattern = .character set)
    (accepted : ∀ character ∈ first, set.accepts character)
    (enough : element.minimum ≤ first.length)
    (allowed : ∀ most ∈ element.maximum, first.length ≤ most)
    (others : ∃ occurrences, Reads language rest (before previous first) following (index + 1)
      (position + first.length) occurrences) :
    ∃ occurrences, Reads language (first ++ rest) previous (element :: following) index position
      occurrences := by
  obtain ⟨these, repeats⟩ := @Repeats.of_accepted _ Val _ _ first previous index position set
    accepted
  obtain ⟨those, reads⟩ := others
  rw [← pattern] at repeats
  exact ⟨these ++ those, .cons repeats enough allowed reads⟩

/-- A text of characters of a set and of other elements begins with enough of the characters. -/
theorem Reads.exists_characters {set : CharacterSet Value}
    (pattern : element.pattern = .character set)
    (reads : Reads language text previous (element :: following) index position occurrences) :
    ∃ first rest others, text = first ++ rest ∧ element.minimum ≤ first.length ∧
      (∀ character ∈ first, set.accepts character) ∧
      Reads language rest (before previous first) following (index + 1) (position + first.length)
        others := by
  cases reads with
  | @cons _ _ _ _ first rest _ _ _ _ those repeats enough _ reads =>
    obtain ⟨length, accepted⟩ := repeats.accepted pattern
    exact ⟨first, rest, those, rfl, length ▸ enough, accepted, reads⟩

/-- What all sets of a branch of single characters accept, all characters of its texts are. -/
theorem Reads.accepted {branch : Branch Val Value} {accepts : UInt8 → Prop}
    (reads : Reads language text previous branch index position occurrences)
    (sets : ∀ element ∈ branch, ∃ set, element.pattern = .character set ∧
      ∀ character, set.accepts character → accepts character) :
    ∀ character ∈ text, accepts character := by
  induction reads with
  | nil => simp
  | cons repeats _ _ _ ih =>
    obtain ⟨set, pattern, all⟩ := sets _ (List.mem_cons_self)
    intro character member
    rcases List.mem_append.mp member with here | there
    · exact all character ((repeats.accepted pattern).2 character here)
    · exact ih (fun element inside => sets element (List.mem_cons_of_mem _ inside)) character there

variable {meaning : Meaning Val} {branch : Branch Val Value} {old new : Value}

/-- A nested rule updates a value with what a text of the rule means. -/
theorem Updates.of_nested {rule : ι} {update : Value → Val rule → Value}
    (updates : Updates meaning text previous (.nested rule update) old new) :
    ∃ previous text value, meaning rule previous text value ∧ new = update old value := by
  cases updates with
  | nested _ _ inner => exact ⟨_, _, _, inner, rfl⟩

/-- A text updates a value with what was written for it. -/
theorem Updates.of_literal {literal : Literal Value}
    (updates : Updates meaning text previous (.literal literal) old new) :
    ∃ matched, new = literal.update old matched := by
  cases updates with
  | literal => exact ⟨_, rfl⟩

/-- The first of some occurrences changes a value, then the others do. -/
theorem Applies.cons_inv {first rest : List UInt8} (found : branch[index]? = some element)
    (applies : Applies meaning (first ++ rest) previous branch position
      (⟨index, position + first.length⟩ :: occurrences) old new) :
    ∃ middle, Updates meaning first previous element.pattern old middle ∧
      Applies meaning rest (before previous first) branch (position + first.length) occurrences
        middle new := by
  generalize whole : first ++ rest = text at applies
  generalize finish : position + first.length = place at applies
  cases applies with
  | @cons _ head tail _ _ element _ _ _ _ middle _ otherFound update others =>
    obtain ⟨rfl, rfl⟩ := List.append_inj whole (by omega)
    obtain rfl := Option.some.inj (found.symm.trans otherFound)
    exact ⟨middle, update, others⟩

/-- No occurrence changes nothing. -/
theorem Applies.eq_of_nil
    (applies : Applies meaning text previous branch position [] old new) : old = new := by
  generalize none : ([] : List Occurrence) = occurrences at applies
  cases applies with
  | nil => rfl
  | cons => cases none

/-- What an element that occurs once does to a value, and then the others. -/
theorem Applies.single (single : element.IsSingle) (found : branch[index]? = some element)
    (reads : Reads language text previous (element :: following) index position occurrences)
    (applies : Applies meaning text previous branch position occurrences old new) :
    ∃ first rest others middle, text = first ++ rest ∧
      Segment language first previous element.pattern ∧
      Updates meaning first previous element.pattern old middle ∧
      Reads language rest (before previous first) following (index + 1)
        (position + first.length) others ∧
      Applies meaning rest (before previous first) branch (position + first.length) others
        middle new := by
  rcases continues_iff.mp (reads_cons_iff.mp reads) with
    ⟨enough, _, _⟩ | ⟨first, rest, others, rfl, rfl, segment, continues⟩
  · have := single.1
    omega
  · obtain ⟨middle, update, applies⟩ := applies.cons_inv found
    exact ⟨first, rest, others, middle, rfl, segment, update, single.continues_iff.mp continues,
      applies⟩

/-- What an element that may be absent does to a value, if anything, and then the others. -/
theorem Applies.optional (optional : element.maximum = some 1)
    (found : branch[index]? = some element)
    (reads : Reads language text previous (element :: following) index position occurrences)
    (applies : Applies meaning text previous branch position occurrences old new) :
    Reads language text previous following (index + 1) position occurrences ∨
      ∃ first rest others middle, text = first ++ rest ∧
        Segment language first previous element.pattern ∧
        Updates meaning first previous element.pattern old middle ∧
        Reads language rest (before previous first) following (index + 1)
          (position + first.length) others ∧
        Applies meaning rest (before previous first) branch (position + first.length) others
          middle new := by
  rcases continues_iff.mp (reads_cons_iff.mp reads) with
    ⟨_, _, others⟩ | ⟨first, rest, others, rfl, rfl, segment, continues⟩
  · exact .inl others
  · obtain ⟨middle, update, applies⟩ := applies.cons_inv found
    rcases continues_iff.mp continues with ⟨_, _, reads⟩ | begins
    · exact .inr ⟨first, rest, others, middle, rfl, segment, update, reads, applies⟩
    · obtain ⟨_, _, _, _, _, _, _, _, _, _, _, _, _, _, _, bounded, _⟩ := begins
      have := bounded 1 optional
      omega

/-- What one element alone does to a value. -/
theorem Applies.last (single : element.IsSingle) (found : branch[index]? = some element)
    (reads : Reads language text previous [element] index position occurrences)
    (applies : Applies meaning text previous branch position occurrences old new) :
    Segment language text previous element.pattern ∧
      Updates meaning text previous element.pattern old new := by
  obtain ⟨first, rest, others, middle, rfl, segment, update, reads, applies⟩ :=
    applies.single single found reads
  cases reads
  obtain rfl := applies.eq_of_nil
  rw [List.append_nil]
  exact ⟨segment, update⟩

/-- What every occurrence of an element of a branch keeps, all together keep. -/
theorem Applies.preserves (invariant : Value → Prop)
    (each : ∀ element ∈ branch, ∀ {text previous old new},
      Updates meaning text previous element.pattern old new → invariant old → invariant new)
    (applies : Applies meaning text previous branch position occurrences old new)
    (start : invariant old) : invariant new := by
  induction applies with
  | nil => exact start
  | cons found update _ ih =>
    exact ih invariant each (each _ (List.mem_of_getElem? found) update start)

end Inversion

end HyperCard.Grammar
