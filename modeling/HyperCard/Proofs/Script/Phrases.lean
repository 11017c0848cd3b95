import HyperCard.Proofs.Grammar.Taking
import HyperCard.Proofs.Script.Boundaries
import HyperCard.Proofs.Script.Canonical

/-!
# Phrases

References and commands are read word by word, every word but the first with the space before it. A
word takes its letters. A rule whose matcher is spent after a text and a space takes that text. What
a factor takes ends where a word comes that begins as an operator does, since a scan marks it and
marks nothing in a factor; what an expression takes ends where no operator comes.
-/
namespace HyperCard.HyperTalk

open Grammar (Takes startsSolid exists_cons_of_startsSolid)

/-- What comes just before a phrase: nothing, or a space. -/
def outsets : List (Option UInt8) := [none, some Character.space]

/-- No word goes on where a phrase may begin. -/
theorem free_of_mem_outsets {previous : Option UInt8} (outset : previous ∈ outsets) :
    Free previous := by
  simp only [outsets, List.mem_cons, List.not_mem_nil, or_false] at outset
  rcases outset with rfl | rfl
  · rfl
  · exact free_space

/-- A phrase may begin after a space. -/
theorem space_mem_outsets : some Character.space ∈ outsets := by simp [outsets]

/-- A text that has a value for a rule wherever a phrase may begin. -/
structure Expresses (name : RuleName) (text : List UInt8) (value : name.Value) : Prop where
  /-- It begins with no blank. -/
  solid : startsSolid text = true
  /-- It denotes the value. -/
  denotes : ∀ previous ∈ outsets, grammar.Denotes name previous text value

/-- A text has the value that the matcher finds. -/
theorem expresses_of_valueAfter {name : RuleName} {text : List UInt8} {value : name.Value}
    (solid : startsSolid text = true)
    (found : ∀ previous ∈ outsets,
      grammar.valueAfter (grammar.start name previous) text = some value) :
    Expresses name text value :=
  ⟨solid, fun previous outset =>
    (Grammar.settles grammar_proper name previous text).denotes (found previous outset)⟩

section Taking

variable {Value : Type} {previous : Option UInt8} {text rest : List UInt8} {old : Value}

/-- A word takes its letters. -/
theorem takes_word {word : String} {ignoresCase : Bool} {update : Value → RomanString → Value}
    (solid : startsSolid (letters word) = true) (free : Free previous) :
    grammar.Takes (.literal ⟨.encodeOrRaw word, ignoresCase, update⟩) previous (letters word) rest
      old (update old (.encodeOrRaw word)) :=
  Grammar.takes_literal solid fun first _ => free.apart first

/-- A later word takes its letters and the space before them. -/
theorem takes_next_word {word : String} {ignoresCase : Bool}
    {update : Value → RomanString → Value} (solid : startsSolid (letters word) = true) :
    grammar.Takes (.literal ⟨.encodeOrRaw word, ignoresCase, update⟩) previous
      (Character.space :: letters word) rest old (update old (.encodeOrRaw word)) := by
  refine Takes.after_blank (by decide) (by simp) ?_ (takes_word solid free_space)
  rintro literal ⟨⟩
  exact exists_cons_of_startsSolid solid

variable {name : RuleName} {update : Value → name.Value → Value} {value : name.Value}

/-- What comes last takes all that is left. -/
theorem Expresses.takes (expresses : Expresses name text value) (outset : previous ∈ outsets) :
    grammar.Takes (.nested name update) previous text [] old (update old value) := by
  have denotes := expresses.denotes previous outset
  obtain ⟨first, others, rfl, solid⟩ := exists_cons_of_startsSolid expresses.solid
  exact .of_end (.of_matches solid ((free_of_mem_outsets outset).apart first) denotes.matches)
    (.of_denotes solid denotes)

/-- After a space too, what comes last takes all that is left. -/
theorem Expresses.takes_next (expresses : Expresses name text value) :
    grammar.Takes (.nested name update) previous (Character.space :: text) [] old
      (update old value) :=
  (expresses.takes space_mem_outsets).after_blank (by decide) (by simp) (by simp)

/-- Whether nothing that begins with a text and a space matches a rule. -/
def isClosed (name : RuleName) (text : List UInt8) : Bool :=
  outsets.all fun previous =>
    (grammar.feedAll (grammar.start name previous) (text ++ [Character.space])).isSpent

/-- What is closed takes its text before a space. -/
theorem Expresses.takes_closed (expresses : Expresses name text value)
    (closed : isClosed name text = true) (outset : previous ∈ outsets)
    (spaced : ∀ next ∈ rest.head?, next = Character.space) :
    grammar.Takes (.nested name update) previous text rest old (update old value) := by
  refine Grammar.takes_nested grammar_proper expresses.solid
    (fun first _ => (free_of_mem_outsets outset).apart first) (expresses.denotes previous outset) ?_
  intro next member
  rw [spaced next member]
  exact List.all_eq_true.mp closed previous outset

/-- So it does after a space of its own. -/
theorem Expresses.takes_next_closed (expresses : Expresses name text value)
    (closed : isClosed name text = true) (spaced : ∀ next ∈ rest.head?, next = Character.space) :
    grammar.Takes (.nested name update) previous (Character.space :: text) rest old
      (update old value) :=
  (expresses.takes_closed closed space_mem_outsets spaced).after_blank (by decide) (by simp)
    (by simp)

/-- A word and what a rule reads after it. -/
theorem linked_yields {word : String} {change : Value → RomanString → Value}
    (solid : startsSolid (letters word) = true) (expresses : Expresses name text value)
    (outset : previous ∈ outsets) :
    grammar.Yields [.keywordWith word change, nested name update]
      [.keywordWith word change, nested name update] (phrase [letters word, text]) previous 0 0 old
      (update (change old (.encodeOrRaw word)) value) := by
  refine (takes_word solid (free_of_mem_outsets outset)).single ⟨rfl, rfl⟩ rfl ?_
  exact expresses.takes_next.last ⟨rfl, rfl⟩ rfl

end Taking

section Rules

variable {name : RuleName} {number : Nat} {texts stems : List (List UInt8)} {text : List UInt8}
  {value : name.Value} {branch : Grammar.Branch RuleName.Value name.Value}

/-- Whether the first branches of a rule read none of some texts and nothing that begins with one of
some stems, wherever a phrase may begin. -/
def excludesAnywhere (name : RuleName) (number : Nat) (texts stems : List (List UInt8)) : Bool :=
  outsets.all fun previous => grammar.excludes name number previous texts stems

/-- A text has the value to which a branch of a rule leads, if the branches before it read no text
like it. -/
theorem Expresses.of_yields (number : Nat)
    (found : (grammar.rule name).branches[number]? = some branch)
    (excludes : excludesAnywhere name number texts stems = true)
    (among : Grammar.Among texts stems text)
    (solid : startsSolid text = true)
    (yields : ∀ previous ∈ outsets,
      grammar.Yields branch branch text previous 0 0 (grammar.rule name).initial value) :
    Expresses name text value := by
  refine ⟨solid, fun previous outset =>
    Grammar.Yields.denotes number found ?_ (yields previous outset)⟩
  exact fun _ => Grammar.not_reads_of_excludes grammar_proper
    (List.all_eq_true.mp excludes previous outset) among

/-- A text has the value to which the first branch of a rule leads. -/
theorem Expresses.of_first (found : (grammar.rule name).branches[0]? = some branch)
    (solid : startsSolid text = true)
    (yields : ∀ previous ∈ outsets,
      grammar.Yields branch branch text previous 0 0 (grammar.rule name).initial value) :
    Expresses name text value :=
  ⟨solid, fun previous outset =>
    Grammar.Yields.denotes 0 found (by simp) (yields previous outset)⟩

end Rules

section Expressions

variable {expression : Expression} {text rest : List UInt8} {previous : Option UInt8}

/-- A factor stands as an operand anywhere. -/
theorem FactorRenders.operand (renders : FactorRenders expression text)
    (tree : IsOperatorTree expression) : Operand unaryRank expression text := by
  cases renders with
  | integer => exact operand_integer tree
  | string => exact operand_string tree
  | parentheses _ inner =>
    exact operand_parentheses (operand_of_renders inner tree (Nat.zero_le _)).1

/-- A factor has its value wherever no word goes on. -/
theorem FactorRenders.denotes (renders : FactorRenders expression text)
    (tree : IsOperatorTree expression) (free : Free previous) :
    grammar.Denotes .factor previous text expression := by
  cases renders with
  | integer => exact integer_denotes tree free
  | string => exact string_denotes tree free
  | parentheses _ inner =>
    have operand := (operand_of_renders inner tree (Nat.zero_le _)).1
    obtain ⟨first, rest, rfl, starts⟩ := operand.starts
    exact parentheses_denote starts free
      (expression_denotes starts free_space (operand.denotes _ free_space))

/-- No operand begins with a blank. -/
theorem Operand.solid {rank : Nat} (operand : Operand rank expression text) :
    startsSolid text = true := by
  obtain ⟨first, rest, rfl, starts⟩ := operand.starts
  simp [startsSolid, solid_of_mem_operandStarts starts]

/-- A factor has its value wherever a phrase may begin. -/
theorem FactorRenders.expresses (renders : FactorRenders expression text)
    (tree : IsOperatorTree expression) : Expresses .factor text expression :=
  ⟨(renders.operand tree).solid, fun _ outset => renders.denotes tree (free_of_mem_outsets outset)⟩

/-- A tree of operators is read as an expression. -/
theorem expresses_expression (renders : Renders 0 expression text)
    (tree : IsOperatorTree expression) : Expresses .expression text expression := by
  have operand := (operand_of_renders renders tree (Nat.zero_le _)).1
  refine ⟨operand.solid, fun previous outset => ?_⟩
  have free := free_of_mem_outsets outset
  have denotes := operand.denotes previous free
  obtain ⟨first, rest, rfl, starts⟩ := operand.starts
  exact expression_denotes starts free denotes

/-- After a space, an operand has just ended at its end, outside parentheses. -/
theorem Operand.closes_next {rank : Nat} (operand : Operand rank expression text)
    (tightest : Nat) :
    let scan := Scan.past tightest previous ⟨0, false, false, 0⟩ (Character.space :: text)
    scan.quoted = false ∧ scan.closed = true := by
  rw [Scan.past_space rfl]
  exact operand.closes tightest _ _ free_space rfl rfl

/-- The words after factors, which begin as an operator does. -/
theorem stops_word {word : String} (listed : word ∈ ["of", "or"]) (more : List UInt8) :
    Stops 0 (Character.space :: (letters word ++ more)) := by
  have characters : ∀ word ∈ ["of", "or"], ∃ others, letters word = 0x6F :: others := by
    intro word member
    simp only [List.mem_cons, List.not_mem_nil, or_false] at member
    rcases member with rfl | rfl
    · exact ⟨[0x66], by decide⟩
    · exact ⟨[0x72], by decide⟩
  obtain ⟨others, same⟩ := characters word listed
  exact .inr ⟨0x6F, others ++ more, by rw [same]; rfl, by decide, by decide, by decide⟩

/-- Words and a factor after them are not read longer, by rules whose texts are quiet, before a word
that begins as an operator does. -/
theorem length_le_of_quiet {front other tail : List UInt8}
    (plain : ∀ character ∈ front, Scan.isPlain character)
    (operand : Operand unaryRank expression text) (stops : Stops 0 rest)
    (whole : (front ++ Character.space :: text) ++ rest = other ++ tail)
    (here : Part false (fun _ => True) previous (front ++ Character.space :: text))
    (there : Part false (fun _ => True) previous other) :
    other.length ≤ (front ++ Character.space :: text).length := by
  let scan : Scan := ⟨0, false, false, 0⟩
  have closes := @Operand.closes_next _ _ (Grammar.before previous front) _ operand 0
  have same : Scan.past 0 previous scan (front ++ Character.space :: text) =
      Scan.past 0 (Grammar.before previous front) scan (Character.space :: text) := by
    rw [Scan.past_append, Scan.past_plain rfl rfl plain]
  have passed := here.steady 0 scan rfl fun _ => rfl
  have otherPassed := there.steady 0 scan rfl fun _ => rfl
  refine length_le_of_marks whole stops (same ▸ closes.1) (same ▸ closes.2) passed.depth ?_
    there.solid
  exact Nat.le_of_eq (by rw [passed.marks (.inr trivial), otherPassed.marks (.inr trivial)])

variable {Value : Type} {update : Value → Expression → Value} {old : Value}

/-- A factor takes its text before a word that begins as an operator does. -/
theorem takes_factor (renders : FactorRenders expression text) (tree : IsOperatorTree expression)
    (stops : Stops 0 rest) :
    grammar.Takes (.nested .factor update : Grammar.Pattern RuleName.Value Value) previous
      (Character.space :: text) rest old (update old expression) := by
  have last := @Expresses.takes_next Value previous text old .factor update _
    (renders.expresses tree)
  have part : ∀ {text}, Grammar.Segment grammar.Matches text previous
      (.nested .factor update : Grammar.Pattern RuleName.Value Value) →
      Part false (fun _ => True) previous text :=
    fun segment => part_of_nested (segment.mono fun _ _ _ => known_of_matches) rfl
  refine ⟨last.segment, last.update, fun other tail whole segment => ?_⟩
  exact @length_le_of_quiet _ _ _ _ [] _ _ (by simp) (renders.operand tree) stops whole
    (part last.segment) (part segment)

/-- The words after expressions, with which no operator begins. -/
def barringWords : List String := ["into", "after", "before", "with"]

/-- A text that does not follow expressions: nothing, or one of the words that end them. -/
def Barred (rest : List UInt8) : Prop :=
  rest = [] ∨ ∃ word ∈ barringWords, ∃ more, rest = Character.space :: (letters word ++ more)

/-- No operator is written like a word that ends expressions. -/
theorem not_mayFollow_of_barred {word : String} (listed : word ∈ barringWords)
    (more : List UInt8) :
    ¬ MayFollow False previous (Character.space :: (letters word ++ more)) := by
  have fails : ∀ word ∈ barringWords, ∀ level : Level, ∀ entry ∈ level.operators,
      Grammar.Literal.fails ⟨.encodeOrRaw entry.1, true, fun (value : Expression) _ => value⟩
        (.awaiting (some Character.space)) (letters word) = true := by
    intro word member level
    revert word
    cases level <;> decide +kernel
  have starts : ∀ word ∈ barringWords, ∃ symbol others, letters word = symbol :: others ∧
      Character.isBlank symbol = false ∧ Scan.isPlain symbol = true := by
    intro word member
    have some : (letters word).head?.any fun symbol =>
        !Character.isBlank symbol && Scan.isPlain symbol := by
      revert word
      decide
    cases characters : letters word with
    | nil =>
      rw [characters] at some
      cases some
    | cons symbol others =>
      rw [characters] at some
      exact ⟨symbol, others, rfl, by simpa using some⟩
  obtain ⟨symbol, others, characters, solid, plain⟩ := starts word listed
  have none := @not_mayFollow_of_fails previous [Character.space] others more symbol
    (by decide +kernel) solid (free_space.apart symbol) plain ?_
  · rw [characters]
    exact none
  · intro level entry member
    rw [← characters]
    exact Grammar.Literal.fails_after_blank (by decide) (fails word listed level entry member)

/-- An expression takes its text before a word that ends it. -/
theorem takes_expression (renders : Renders 0 expression text) (tree : IsOperatorTree expression)
    (barred : Barred rest) :
    grammar.Takes (.nested .expression update : Grammar.Pattern RuleName.Value Value) previous
      (Character.space :: text) rest old (update old expression) := by
  have last := @Expresses.takes_next Value previous text old .expression update _
    (expresses_expression renders tree)
  refine ⟨last.segment, last.update, fun other tail whole segment => ?_⟩
  have known := segment.mono fun _ _ _ => known_of_matches
  have part : Part false (fun _ => False) _ _ :=
    part_of_nested (last.segment.mono fun _ _ _ => known_of_matches) rfl
  have orderly : Orderly false False previous other :=
    orderly_of_nested (segment.mono fun _ _ _ => bounded_of_matches) rfl rfl
  let scan : Scan := ⟨0, false, false, 0⟩
  have operand := (operand_of_renders renders tree (Nat.zero_le _)).1
  have closes := @Operand.closes_next _ _ previous _ operand 0
  have depth := (part.steady 0 scan rfl fun _ => rfl).depth
  refine @length_le_of_not_mayFollow previous _ _ _ _ scan whole orderly
    (part_of_nested known rfl).solid ⟨rfl, rfl⟩ ⟨closes.1, closes.2, depth⟩ ?_
  rcases barred with rfl | ⟨word, listed, more, rfl⟩
  · exact .inl rfl
  · exact .inr (not_mayFollow_of_barred listed more)

end Expressions

end HyperCard.HyperTalk
