import HyperCard.Proofs.Script.Precedence
import HyperCard.Proofs.Script.Values
import HyperCard.Proofs.Script.Words

/-!
# Texts that are read as expressions

A text in parentheses is an operand at any place, so it matters little what an expression between
them is like. A word is read as a variable if it is none of the words for constants, since no other
text and no rule begins inside it.
-/
namespace HyperCard

namespace Expression

/-- A text in parentheses. -/
def enclosed (text : List UInt8) : List UInt8 :=
  Character.opening :: (text ++ [Character.closing])

/-- The name of a truth value. -/
def truthWord : Bool → String
  | true => "true"
  | false => "false"

end Expression

namespace HyperTalk

open Grammar (before Segment Reads Updates Yields Proceeds)
open Expression (enclosed)

section Levels

variable {previous : Option UInt8} {first : UInt8} {rest : List UInt8} {expression : Expression}

/-- What the next level denotes by itself, a level denotes. -/
theorem level_of_next {level : Level} (solid : Character.isBlank first = false)
    (free : Free previous)
    (denotes : DenotesAt (level.rank + 1) previous (first :: rest) expression) :
    DenotesAt level.rank previous (first :: rest) expression := by
  have single : (operand replace level).IsSingle := by cases level <;> exact ⟨rfl, rfl⟩
  obtain ⟨segment, update⟩ := operand_read replace Expression.emptyText solid free denotes
  have found : (grammar.rule (.level level)).branches[0]? = some (levelBranch level) := rfl
  have none := @tails_proceed level [] (by simp) (before previous (first :: rest)) 0
    (0 + (first :: rest).length) expression
  rw [denotesAt_level]
  refine Yields.denotes 0 found (by simp) ?_
  rw [← List.append_nil (first :: rest)]
  refine .single single rfl segment update ?_ none.yields
  intro other tail whole _ _
  have lengths := congrArg List.length whole
  rw [List.length_append, List.length_append, List.length_nil] at lengths
  omega

/-- What an operand beyond all levels denotes, an expression denotes. -/
theorem expression_of_unary (solid : Character.isBlank first = false) (free : Free previous)
    (denotes : grammar.Denotes .unary previous (first :: rest) expression) :
    grammar.Denotes .expression previous (first :: rest) expression := by
  have ranks : ∀ below rank, rank + below = unaryRank →
      DenotesAt rank previous (first :: rest) expression := by
    intro below
    induction below with
    | zero =>
      rintro rank rfl
      exact denotes
    | succ below ih =>
      intro rank same
      obtain ⟨level, rfl⟩ := Level.exists_rank rank (by rw [unaryRank] at same; omega)
      exact level_of_next solid free (ih (level.rank + 1) (by omega))
  have loosest : grammar.Denotes (.level .or) previous (first :: rest) expression :=
    ranks unaryRank 0 (Nat.zero_add _)
  exact Yields.denotes 0 rfl (by simp) (.last ⟨rfl, rfl⟩ rfl
    (.of_matches solid (free.apart first) loosest.matches) (.of_denotes solid loosest))

end Levels

/-- A text that is read as an expression where no word goes on. -/
structure Readable (text : List UInt8) (expression : Expression) : Prop where
  /-- It begins with no blank. -/
  starts : ∃ first rest, text = first :: rest ∧ Character.isBlank first = false
  /-- It denotes the expression. -/
  denotes : ∀ previous, Free previous → grammar.Denotes .expression previous text expression

section Enclosed

variable {text : List UInt8} {expression : Expression} {previous : Option UInt8}

/-- After a parenthesis no word goes on. -/
theorem free_opening : Free (some Character.opening) := rfl

/-- What a scan does with a readable text. -/
theorem Readable.part (readable : Readable text expression) (free : Free previous) :
    Part false (fun _ => False) previous text := by
  obtain ⟨first, rest, rfl, _⟩ := readable.starts
  exact (known_of_matches (readable.denotes previous free).matches).2 rfl (List.cons_ne_nil _ _)
    fun other _ => free.apart other

/-- Parentheses around a readable text end as an operand. -/
theorem Readable.past_enclosed (readable : Readable text expression) {tightest : Nat} {scan : Scan}
    (unquoted : scan.quoted = false) :
    (scan.past tightest previous (enclosed text)).quoted = false ∧
      (scan.past tightest previous (enclosed text)).closed = true ∧
      (scan.past tightest previous (enclosed text)).depth = scan.depth := by
  let inner : Scan := { scan with depth := scan.depth + 1, closed := false }
  have steady := (readable.part free_opening).steady tightest inner unquoted fun _ => rfl
  have parts : enclosed text = [Character.opening] ++ (text ++ [Character.closing]) := rfl
  have whole : scan.past tightest previous (enclosed text) =
      { inner.past tightest (some Character.opening) text with
        depth := (inner.past tightest (some Character.opening) text).depth - 1
        closed := true } := by
    rw [parts, Scan.past_append, Scan.past_opening unquoted, Scan.past_append]
    exact Scan.past_closing steady.unquoted
  rw [whole]
  refine ⟨steady.unquoted, rfl, ?_⟩
  rw [steady.depth]
  exact Nat.add_sub_cancel _ _

/-- Parentheses around a readable text are a factor. -/
theorem Readable.factor (readable : Readable text expression) (free : Free previous) :
    grammar.Denotes .factor previous (enclosed text) expression := by
  obtain ⟨first, rest, rfl, solid⟩ := readable.starts
  have denotes := readable.denotes _ free_opening
  refine parenthesized_denotes free (.of_matches solid (free_opening.apart first) denotes.matches)
    (.of_denotes solid denotes) (Grammar.segment_literal_refl characters_closing rfl) ?_
  -- The closing parenthesis takes the last character.
  intro other blanks whole _
  have lengths := congrArg List.length whole
  simp only [List.length_append, List.length_cons, List.length_nil] at lengths ⊢
  omega

/-- Parentheses around a readable text are an operand. -/
theorem Readable.operand (readable : Readable text expression) :
    Operand unaryRank expression (enclosed text) := by
  have starts : Character.opening ∈ operandStarts := by decide
  refine ⟨⟨_, _, rfl, starts⟩, ?_, fun previous free =>
    unary_of_factor starts (by decide) free (readable.factor free)⟩
  intro tightest previous scan _ unquoted _
  obtain ⟨here, closed, _⟩ := @Readable.past_enclosed _ _ previous readable tightest scan unquoted
  exact ⟨here, closed⟩

/-- An operand is readable. -/
theorem Operand.readable {rank : Nat} (operand : Operand rank expression text)
    (bound : rank ≤ unaryRank) : Readable text expression := by
  have loose := operand.loosen bound (Nat.zero_le _)
  obtain ⟨first, rest, rfl, starts⟩ := loose.starts
  exact ⟨⟨first, rest, rfl, solid_of_mem_operandStarts starts⟩, fun previous free =>
    expression_denotes starts free (loose.denotes previous free)⟩

end Enclosed

section Letters

variable {previous : Option UInt8} {first : UInt8} {rest : List UInt8} {expression : Expression}

/-- No letter is a blank. -/
theorem solid_of_isLetter (letter : Character.isLetter first) :
    Character.isBlank first = false :=
  solid_of_isAlphanumeric first (isAlphanumeric_of_isLetter first letter)

/-- A text that begins with a letter is neither a number nor a string. -/
theorem not_reads_of_isLetter (letter : Character.isLetter first)
    {branch : Grammar.Branch RuleName.Value Expression}
    (earlier : branch ∈ (grammar.rule .factor).branches.take 2)
    (occurrences : List Grammar.Occurrence) :
    ¬ Reads grammar.Matches (first :: rest) previous branch 0 0 occurrences := by
  have kind : ∀ character, Character.isLetter character →
      (Character.isDigit character || character == Character.point) = false ∧
        character ≠ Character.quote := forall_byte (by decide)
  have solid := solid_of_isLetter letter
  rw [factor_branches] at earlier
  rcases List.mem_cons.mp earlier with rfl | earlier
  · exact not_reads_number solid (kind first letter).1 occurrences
  · obtain rfl := List.mem_singleton.mp earlier
    exact not_reads_string solid (kind first letter).2 occurrences

/-- A branch of a single text reads what is written for the text. -/
theorem not_reads_keyword {constant : String} {update : Expression → RomanString → Expression}
    (other : ∀ update : Expression → RomanString → Expression,
      ¬ Segment grammar.Matches (first :: rest) previous
        (.literal ⟨.encodeOrRaw constant, true, update⟩ :
          Grammar.Pattern RuleName.Value Expression))
    (occurrences : List Grammar.Occurrence) :
    ¬ Reads grammar.Matches (first :: rest) previous
      ([.keywordWith constant update] : Grammar.Branch RuleName.Value Expression) 0 0
      occurrences :=
  fun reads => other update (reads.last ⟨rfl, rfl⟩)

/-- Where no constant is written, a text that begins with a letter is a call or a variable. -/
theorem not_reads_before_call (letter : Character.isLetter first)
    (other : ∀ constant ∈ Expression.constants, ∀ update : Expression → RomanString → Expression,
      ¬ Segment grammar.Matches (first :: rest) previous
        (.literal ⟨.encodeOrRaw constant, true, update⟩ :
          Grammar.Pattern RuleName.Value Expression))
    {branch : Grammar.Branch RuleName.Value Expression}
    (earlier : branch ∈ (grammar.rule .factor).branches.take 6)
    (occurrences : List Grammar.Occurrence) :
    ¬ Reads grammar.Matches (first :: rest) previous branch 0 0 occurrences := by
  have refused : ∀ character, Character.isLetter character → Grammar.Literal.refuses
      ⟨.encodeOrRaw "(", false, fun (value : Expression) _ => value⟩ character = true :=
    forall_byte (by decide)
  have inside := List.mem_of_mem_take earlier
  have parts : branch ∈ (grammar.rule .factor).branches.take 2 ∨
      branch ∈ ((grammar.rule .factor).branches.take 6).drop 2 := by
    rw [factor_branches] at earlier ⊢
    simpa [or_assoc] using earlier
  rcases parts with early | late
  · exact not_reads_of_isLetter letter early occurrences
  · rw [factor_branches] at late
    simp only [List.take_succ_cons, List.take_zero, List.drop_succ_cons, List.drop_zero,
      List.mem_cons, List.not_mem_nil, or_false] at late
    rcases late with rfl | rfl | rfl | rfl
    · exact not_reads_keyword (other "true" (by simp [Expression.constants])) occurrences
    · exact not_reads_keyword (other "false" (by simp [Expression.constants])) occurrences
    · exact not_reads_keyword (other "empty" (by simp [Expression.constants])) occurrences
    · exact not_reads_of_refuses inside ⟨rfl, rfl⟩ rfl (refused first letter) occurrences

/-- The branch of an operand that begins with the word for the other truth value. -/
def notBranch : Grammar.Branch RuleName.Value Expression :=
  [.keyword "not", nested .unary fun _ operand => .unary .not operand]

/-- A factor that begins with a letter and is not read as a negation is an expression. -/
theorem readable_of_factor (letter : Character.isLetter first)
    (positive : ∀ previous, Free previous → ∀ occurrences,
      ¬ Reads grammar.Matches (first :: rest) previous notBranch 0 0 occurrences)
    (factor : ∀ previous, Free previous →
      grammar.Denotes .factor previous (first :: rest) expression) :
    Readable (first :: rest) expression := by
  have solid := solid_of_isLetter letter
  have refused : ∀ character, Character.isLetter character → Grammar.Literal.refuses
      ⟨.encodeOrRaw "-", true, fun (value : Expression) _ => value⟩ character = true :=
    forall_byte (by decide)
  refine ⟨⟨first, rest, rfl, solid⟩, fun previous free => expression_of_unary solid free ?_⟩
  have denotes := factor previous free
  refine Yields.denotes 2 rfl ?_ (.last ⟨rfl, rfl⟩ rfl
    (.of_matches solid (free.apart first) denotes.matches) (.of_denotes solid denotes))
  intro branch member occurrences
  have listed := List.mem_of_mem_take member
  rw [unary_branches] at member
  simp only [List.take_succ_cons, List.take_zero, List.mem_cons, List.not_mem_nil, or_false]
    at member
  rcases member with rfl | rfl
  · exact not_reads_of_refuses listed ⟨rfl, rfl⟩ rfl (refused first letter) occurrences
  · exact positive previous free occurrences

end Letters

section Words

variable {previous : Option UInt8} {first : UInt8} {rest : List UInt8}

/-- A word is no negation. -/
theorem not_reads_not_word (word : ∀ character ∈ first :: rest, Character.isAlphanumeric character)
    (occurrences : List Grammar.Occurrence) :
    ¬ Reads grammar.Matches (first :: rest) previous notBranch 0 0 occurrences :=
  not_reads_of_word word ⟨⟨rfl, rfl⟩, rfl, rfl⟩ fun _ same => by cases same

/-- A word is no call. -/
theorem not_matches_call_word
    (word : ∀ character ∈ first :: rest, Character.isAlphanumeric character) :
    ¬ grammar.Matches .call previous (first :: rest) := by
  intro matched
  cases matched with
  | branch member reads =>
    rw [call_branches] at member
    simp only [List.mem_cons, List.not_mem_nil, or_false] at member
    rcases member with rfl | rfl | rfl | rfl
    · exact not_reads_of_word word ⟨⟨rfl, rfl⟩, rfl, rfl⟩ (fun _ same => by cases same) reads
    · exact not_reads_of_word word ⟨⟨rfl, rfl⟩, rfl, rfl⟩ (fun _ same => by cases same) reads
    · rcases reads.optional rfl with reads | ⟨article, others, _, whole, segment, reads⟩
      · exact not_reads_of_word word ⟨⟨rfl, rfl⟩, rfl, rfl⟩ (fun _ same => by cases same) reads
      · obtain ⟨name, more, _, rfl, again, _⟩ := reads.single ⟨rfl, rfl⟩
        cases name with
        | nil => exact again.ne_nil rfl
        | cons next name =>
          have joined : (before previous article).any Character.isAlphanumeric = true :=
            any_before segment.ne_nil fun other member => word other (by simp [whole, member])
          exact not_segment_of_joined (fun _ same => by cases same) joined
            (word next (by simp [whole])) again
    · exact not_reads_of_word word ⟨⟨rfl, rfl⟩, rfl, rfl⟩ (fun _ same => by cases same) reads

/-- A word that is no constant is read as a variable. -/
theorem readable_word {name : RomanString} (word : IsWord name)
    (other : ∀ constant ∈ Expression.constants, name.toLower ≠ .encodeOrRaw constant) :
    Readable name.characters (.word name) := by
  obtain ⟨first, rest, characters, letter, others⟩ := word
  have all := forall_isAlphanumeric letter others
  have solid := solid_of_isLetter letter
  have fixed : ∀ constant ∈ Expression.constants,
      ∀ character ∈ (RomanString.encodeOrRaw constant).characters,
        Character.isBlank character = false ∧ Character.toLower character = character := by
    decide +kernel
  have others_ : ∀ constant ∈ Expression.constants, ∀ previous,
      ∀ update : Expression → RomanString → Expression,
      ¬ Segment grammar.Matches (first :: rest) previous (.literal
        ⟨.encodeOrRaw constant, true, update⟩ : Grammar.Pattern RuleName.Value Expression) := by
    intro constant listed previous update segment
    have small := fixed constant listed
    have lower := map_toLower_of_segment segment rfl solid fun character member =>
      (small character member).1
    have same : (RomanString.encodeOrRaw constant).characters.map Character.toLower =
        (RomanString.encodeOrRaw constant).characters :=
      (List.map_congr_left fun character member => (small character member).2).trans (List.map_id _)
    exact other constant listed (by rw [RomanString.toLower, characters, lower, same])
  rw [characters]
  refine readable_of_factor letter (fun _ _ => not_reads_not_word all) fun previous free => ?_
  have denotes := @word_denotes previous _ _ letter others
  have named : (⟨(first :: rest).reverse⟩ : Spelling).text = name := by
    rw [Spelling.text, List.reverse_reverse, ← characters]
  refine Yields.denotes 7 rfl ?_ (.last ⟨rfl, rfl⟩ rfl
    (.of_matches solid (free.apart first) denotes.matches) ?_)
  · intro branch member occurrences
    have parts : branch ∈ (grammar.rule .factor).branches.take 6 ∨
        branch = [nested .call fun _ call => call.expression] := by
      rw [factor_branches] at member ⊢
      simpa [or_assoc] using member
    rcases parts with early | rfl
    · exact not_reads_before_call letter (fun constant listed => others_ constant listed previous)
        early occurrences
    · intro reads
      exact not_matches_call_word all ((reads.last ⟨rfl, rfl⟩).matches_of_solid solid)
  · have update := @Grammar.Updates.of_denotes _ _ _ grammar.Denotes RuleName.word
      (fun (_ : Expression) name => .word name.text) previous first rest Expression.emptyText _
      solid denotes
    rwa [named] at update

/-- The name of a truth value is read as it. -/
theorem readable_boolean (value : Bool) :
    Readable (RomanString.encodeOrRaw (Expression.truthWord value)).characters
      (.boolean value) := by
  have written : ∃ first rest,
      (RomanString.encodeOrRaw (Expression.truthWord value)).characters = first :: rest ∧
        Character.isLetter first ∧ ∀ character ∈ first :: rest,
          Character.isAlphanumeric character := by
    cases value
    · exact ⟨0x66, [0x61, 0x6C, 0x73, 0x65], by decide +kernel⟩
    · exact ⟨0x74, [0x72, 0x75, 0x65], by decide +kernel⟩
  obtain ⟨first, rest, characters, letter, word⟩ := written
  rw [characters]
  refine readable_of_factor letter (fun _ _ => not_reads_not_word word) fun previous free => ?_
  have segment : Segment grammar.Matches (first :: rest) previous
      (.literal ⟨.encodeOrRaw (Expression.truthWord value), true, fun _ _ => .boolean value⟩ :
        Grammar.Pattern RuleName.Value Expression) :=
    Grammar.segment_literal_refl characters (free.apart first)
  cases value with
  | true =>
    exact Yields.denotes 2 rfl (fun branch member => not_reads_of_isLetter letter member)
      (.last ⟨rfl, rfl⟩ rfl segment .literal)
  | false =>
    refine Yields.denotes 3 rfl ?_ (.last ⟨rfl, rfl⟩ rfl segment .literal)
    intro branch member
    have parts : branch ∈ (grammar.rule .factor).branches.take 2 ∨
        branch = [.keywordWith "true" fun _ _ => .boolean true] := by
      rw [factor_branches] at member ⊢
      simpa [or_assoc] using member
    rcases parts with early | rfl
    · exact not_reads_of_isLetter letter early
    · obtain rfl : first = 0x66 := by
        have begins : (RomanString.encodeOrRaw "false").characters.head? = some 0x66 := by decide
        rw [Expression.truthWord] at characters
        rw [characters] at begins
        exact Option.some.inj begins
      exact not_reads_of_refuses (List.mem_of_mem_take member) ⟨rfl, rfl⟩ rfl (by decide)

end Words

end HyperTalk
end HyperCard
