import HyperCard.Proofs.Grammar.Denotation

/-!
# Taking a text occurrence by occurrence

An occurrence takes the first part of a text if it is read there, its effect is known, and no
longer part could be read in its place. Where every occurrence of a branch takes its part, the
branch yields the value of the whole text. A text alone is taken in one way; a nested rule takes
what it denotes if nothing follows, or if its matcher is spent after one more character.

A branch whose matcher is spent after some characters reads no text that begins with them, so the
earlier branches of a rule are put aside by running their matchers.
-/
namespace HyperCard.Grammar

variable {ι : Type} {Val : ι → Type} {name : ι} {Value : Type} {grammar : Grammar Val}

/-- A pattern reads the first part of a text, with a known effect, and reads no longer part. -/
structure Takes (grammar : Grammar Val) (pattern : Pattern Val Value) (previous : Option UInt8)
    (first rest : List UInt8) (old new : Value) : Prop where
  /-- The part is read. -/
  segment : Segment grammar.Matches first previous pattern
  /-- Its effect. -/
  update : Updates grammar.Denotes first previous pattern old new
  /-- No longer part is read. -/
  longest : ∀ other tail, first ++ rest = other ++ tail →
    Segment grammar.Matches other previous pattern → other.length ≤ first.length

section Takes

variable {branch following : Branch Val Value} {element : Element Val Value}
  {pattern : Pattern Val Value} {first rest text : List UInt8} {previous : Option UInt8}
  {index count position : Nat} {old middle new : Value}

/-- What reaches to the end of a text is not read longer. -/
theorem Takes.of_end (segment : Segment grammar.Matches text previous pattern)
    (update : Updates grammar.Denotes text previous pattern old new) :
    grammar.Takes pattern previous text [] old new := by
  refine ⟨segment, update, fun other tail whole _ => ?_⟩
  have lengths := congrArg List.length whole
  simp only [List.length_append, List.length_nil] at lengths
  omega

/-- An element that occurs once takes its part, and the others yield the value of the rest. -/
theorem Takes.single (takes : grammar.Takes element.pattern previous first rest old middle)
    (single : element.IsSingle) (found : branch[index]? = some element)
    (yields : grammar.Yields branch following rest (before previous first) (index + 1)
      (position + first.length) middle new) :
    grammar.Yields branch (element :: following) (first ++ rest) previous index position old new :=
  .single single found takes.segment takes.update
    (fun other tail whole segment _ => takes.longest other tail whole segment) yields

/-- So does an element that may occur once. -/
theorem Takes.present (takes : grammar.Takes element.pattern previous first rest old middle)
    (enough : element.minimum ≤ 1) (most : element.maximum = some 1)
    (found : branch[index]? = some element)
    (yields : grammar.Yields branch following rest (before previous first) (index + 1)
      (position + first.length) middle new) :
    grammar.Yields branch (element :: following) (first ++ rest) previous index position old new :=
  .present enough most found takes.segment takes.update
    (fun other tail whole segment _ => takes.longest other tail whole segment) yields

/-- One more occurrence takes its part. -/
theorem Takes.more (takes : grammar.Takes element.pattern previous first rest old middle)
    (found : branch[index]? = some element)
    (proceeds : grammar.Proceeds branch element following rest (before previous first) index
      (count + 1) (position + first.length) middle new) :
    grammar.Proceeds branch element following (first ++ rest) previous index count position old
      new :=
  .more found takes.segment takes.update
    (fun other tail whole segment _ => takes.longest other tail whole segment) proceeds

/-- The last element takes all that is left. -/
theorem Takes.last (takes : grammar.Takes element.pattern previous text [] old new)
    (single : element.IsSingle) (found : branch[index]? = some element) :
    grammar.Yields branch [element] text previous index position old new :=
  .last single found takes.segment takes.update

/-- The last element takes all that is left even where it need not occur. -/
theorem Takes.last_present (takes : grammar.Takes element.pattern previous text [] old new)
    (enough : element.minimum ≤ 1) (most : element.maximum = some 1)
    (found : branch[index]? = some element) :
    grammar.Yields branch [element] text previous index position old new := by
  have yields : grammar.Yields branch [element] (text ++ []) previous index position old new :=
    takes.present enough most found .nil
  rwa [List.append_nil] at yields

/-- At the end of a text no element occurs that need not. -/
theorem Yields.absent_at_end (enough : element.minimum = 0) :
    grammar.Yields branch [element] [] previous index position old old := by
  refine .absent enough (fun first rest whole segment => ?_) .nil
  exact segment.ne_nil (List.append_eq_nil_iff.mp whole.symm).1

/-- Whether a text begins with a character that is no blank. -/
def startsSolid (text : List UInt8) : Bool :=
  text.head?.any fun first => !Character.isBlank first

/-- Such a text has a first character. -/
theorem exists_cons_of_startsSolid (solid : startsSolid text = true) :
    ∃ first rest, text = first :: rest ∧ Character.isBlank first = false := by
  cases text with
  | nil => cases solid
  | cons first rest => exact ⟨first, rest, rfl, by simpa [startsSolid] using solid⟩

/-- What is put behind a text does not change how it begins. -/
theorem startsSolid_append (solid : startsSolid first = true) (rest : List UInt8) :
    startsSolid (first ++ rest) = true := by
  obtain ⟨character, others, rfl, isSolid⟩ := exists_cons_of_startsSolid solid
  simp [startsSolid, isSolid]

/-- A text is read in one way. -/
theorem takes_literal {literal : Literal Value}
    (solid : startsSolid literal.text.characters = true)
    (apart : ∀ first ∈ literal.text.characters.head?,
      Character.joinsWord previous first = false) :
    grammar.Takes (.literal literal) previous literal.text.characters rest old
      (literal.update old literal.text) := by
  obtain ⟨first, others, characters, firstSolid⟩ := exists_cons_of_startsSolid solid
  have segment : Segment grammar.Matches literal.text.characters previous
      (.literal literal : Pattern Val Value) :=
    characters ▸ segment_literal_refl characters (apart first (by simp [characters]))
  have kept : RomanString.dropBlanks literal.text.characters = literal.text.characters := by
    rw [characters]
    exact List.dropWhile_cons_of_neg (by simp [firstSolid])
  have update : Updates grammar.Denotes literal.text.characters previous
      (.literal literal : Pattern Val Value) old
      (literal.update old ⟨RomanString.dropBlanks literal.text.characters⟩) := .literal
  rw [kept] at update
  refine ⟨segment, update, fun other tail whole again => ?_⟩
  have proper : literal.Proper := ⟨first, others, characters, firstSolid⟩
  exact segment.literal_length_le proper again whole

/-- A text or a rule is read after a blank as it is read without it. -/
theorem Segment.blank_cons_iff {language : Language ι} {blank : UInt8}
    (isBlank : Character.isBlank blank) (several : ∀ set, pattern ≠ .character set)
    (texts : ∀ literal, pattern = .literal literal → literal.Proper) :
    Segment language (blank :: text) previous pattern ↔
      Segment language text (some blank) pattern := by
  constructor
  · intro segment
    generalize whole : blank :: text = source at segment
    cases segment with
    | character => exact absurd rfl (several _)
    | @literal _ literal _ blanks rest first otherBlank apart spells =>
      cases blanks with
      | nil =>
        obtain ⟨rfl, rfl⟩ := List.cons.inj whole
        obtain ⟨expected, others, characters, solid⟩ := texts literal rfl
        rw [characters] at spells
        rw [(spells.head_same solid).isBlank_eq, isBlank] at solid
        cases solid
      | cons other blanks =>
        obtain ⟨rfl, rfl⟩ := List.cons.inj whole
        exact .literal (fun character member => otherBlank character (by simp [member])) apart
          spells
    | @nested _ _ _ _ blanks rest first otherBlank solid apart inner =>
      cases blanks with
      | nil =>
        obtain ⟨rfl, rfl⟩ := List.cons.inj whole
        rw [isBlank] at solid
        cases solid
      | cons other blanks =>
        obtain ⟨rfl, rfl⟩ := List.cons.inj whole
        exact .nested (fun character member => otherBlank character (by simp [member])) solid
          apart inner
  · intro segment
    cases segment with
    | character => exact absurd rfl (several _)
    | @literal _ _ _ blanks _ _ otherBlank apart spells =>
      rw [← List.cons_append]
      refine .literal (fun character member => ?_) apart spells
      exact (List.mem_cons.mp member).elim (fun same => same ▸ isBlank) (otherBlank character)
    | @nested _ _ _ _ blanks _ _ otherBlank solid apart inner =>
      rw [← List.cons_append]
      refine .nested (fun character member => ?_) solid apart inner
      exact (List.mem_cons.mp member).elim (fun same => same ▸ isBlank) (otherBlank character)

/-- A blank in front of a text or of a nested rule has no effect. -/
theorem Updates.blank_cons {meaning : Meaning Val} {blank : UInt8}
    (isBlank : Character.isBlank blank) (several : ∀ set, pattern ≠ .character set)
    (updates : Updates meaning text (some blank) pattern old new) :
    Updates meaning (blank :: text) previous pattern old new := by
  cases updates with
  | character => exact absurd rfl (several _)
  | @literal _ literal =>
    have dropped : RomanString.dropBlanks (blank :: text) = RomanString.dropBlanks text :=
      List.dropWhile_cons_of_pos isBlank
    rw [← dropped]
    exact .literal
  | nested otherBlank solid inner =>
    rw [← List.cons_append]
    refine .nested (fun character member => ?_) solid inner
    exact (List.mem_cons.mp member).elim (fun same => same ▸ isBlank) (otherBlank character)

/-- A blank in front of what is taken is taken with it. -/
theorem Takes.after_blank {blank : UInt8} (isBlank : Character.isBlank blank)
    (several : ∀ set, pattern ≠ .character set)
    (texts : ∀ literal, pattern = .literal literal → literal.Proper)
    (takes : grammar.Takes pattern (some blank) first rest old new) :
    grammar.Takes pattern previous (blank :: first) rest old new := by
  refine ⟨(Segment.blank_cons_iff isBlank several texts).mpr takes.segment,
    takes.update.blank_cons isBlank several, fun other tail whole segment => ?_⟩
  cases other with
  | nil => exact absurd rfl segment.ne_nil
  | cons character other =>
    obtain ⟨rfl, same⟩ := List.cons.inj whole
    have shorter := takes.longest other tail same
      ((Segment.blank_cons_iff isBlank several texts).mp segment)
    simpa using shorter

end Takes

/-- Whether nothing is matched and nothing can be, whatever comes. -/
def Matcher.isSpent (matcher : Matcher Val name) : Bool :=
  matcher.attempts.isEmpty && matcher.value.isNone

/-- A spent matcher is the one without attempts and value. -/
theorem Matcher.eq_dead {matcher : Matcher Val name} (spent : matcher.isSpent = true) :
    matcher = .dead := by
  obtain ⟨attempts, value⟩ := matcher
  cases attempts with
  | cons => cases spent
  | nil =>
    cases value with
    | some => cases spent
    | none => rfl

/-- A spent matcher finds no value. -/
theorem valueAfter_of_isSpent {matcher : Matcher Val name} {text : List UInt8}
    (spent : (grammar.feedAll matcher text).isSpent = true) (more : List UInt8) :
    grammar.valueAfter matcher (text ++ more) = none := by
  rw [valueAfter, feedAll_append, Matcher.eq_dead spent]
  exact valueAfter_dead grammar more

section Refuting

variable {previous : Option UInt8} {text more : List UInt8}

/-- A rule matches no text that goes on when its matcher is spent. -/
theorem not_matches_of_isSpent (proper : grammar.Proper)
    (spent : (grammar.feedAll (grammar.start name previous) text).isSpent = true) :
    ¬ grammar.Matches name previous (text ++ more) :=
  (settles proper name previous (text ++ more)).not_matches (valueAfter_of_isSpent spent more)

/-- A matcher of one branch of a rule. -/
def startBranch (grammar : Grammar Val) (name : ι) (previous : Option UInt8)
    (branch : Branch Val (Val name)) : Matcher Val name :=
  remainder (grammar.rule name).initial 0 previous 0 branch

/-- A branch reads no text after which its matcher has no value. -/
theorem not_reads_of_value (proper : grammar.Proper) {branch : Branch Val (Val name)}
    (member : branch ∈ (grammar.rule name).branches)
    (none : grammar.valueAfter (grammar.startBranch name previous branch) text = none)
    (occurrences : List Occurrence) :
    ¬ Reads grammar.Matches text previous branch 0 0 occurrences := by
  have follows := follows_branch proper member previous text 0
  rw [startBranch] at none
  rw [Follows, none] at follows
  exact follows occurrences

/-- Whether the first branches of a rule read none of some texts, and nothing that begins with one
of some stems. -/
def excludes (grammar : Grammar Val) (name : ι) (number : Nat) (previous : Option UInt8)
    (texts stems : List (List UInt8)) : Bool :=
  ((grammar.rule name).branches.take number).all fun branch =>
    let matcher := grammar.startBranch name previous branch
    (texts.all fun text => (grammar.valueAfter matcher text).isNone) &&
      stems.all fun stem => (grammar.feedAll matcher stem).isSpent

/-- Whether a text is one of some texts or begins with one of some stems. -/
def Among (texts stems : List (List UInt8)) (text : List UInt8) : Prop :=
  text ∈ texts ∨ ∃ stem ∈ stems, stem <+: text

/-- An excluded branch reads none of the texts and nothing that begins with one of the stems. -/
theorem not_reads_of_excludes (proper : grammar.Proper) {number : Nat}
    {texts stems : List (List UInt8)}
    (excludes : grammar.excludes name number previous texts stems = true)
    (among : Among texts stems text) {branch : Branch Val (Val name)}
    (member : branch ∈ (grammar.rule name).branches.take number) (occurrences : List Occurrence) :
    ¬ Reads grammar.Matches text previous branch 0 0 occurrences := by
  have checked := List.all_eq_true.mp excludes branch member
  rw [Bool.and_eq_true] at checked
  refine not_reads_of_value proper (List.mem_of_mem_take member) ?_ occurrences
  rcases among with here | ⟨stem, here, more, rfl⟩
  · exact Option.isNone_iff_eq_none.mp (List.all_eq_true.mp checked.1 text here)
  · exact valueAfter_of_isSpent (List.all_eq_true.mp checked.2 stem here) more

variable {rule : ι} {update : Value → Val rule → Value} {first rest : List UInt8}
  {old : Value} {value : Val rule}

/-- A nested rule takes a text after which its matcher has nothing left to read. -/
theorem takes_nested (proper : grammar.Proper) (solid : startsSolid first = true)
    (apart : ∀ head ∈ first.head?, Character.joinsWord previous head = false)
    (denotes : grammar.Denotes rule previous first value)
    (spent : ∀ next ∈ rest.head?,
      (grammar.feedAll (grammar.start rule previous) (first ++ [next])).isSpent = true) :
    grammar.Takes (.nested rule update) previous first rest old (update old value) := by
  obtain ⟨head, others, rfl, headSolid⟩ := exists_cons_of_startsSolid solid
  refine ⟨.of_matches headSolid (apart head rfl) denotes.matches, .of_denotes headSolid denotes,
    ?_⟩
  intro other tail whole segment
  rcases List.append_eq_append_iff.mp whole with ⟨extra, rfl, after⟩ | ⟨extra, same, _⟩
  · cases extra with
    | nil => simp
    | cons next extra =>
      have none := @not_matches_of_isSpent _ _ _ _ _ _ extra proper
        (spent next (by simp [after]))
      exact absurd (segment.matches_of_solid headSolid) (by simpa using none)
  · rw [same]
    simp

end Refuting

end HyperCard.Grammar
