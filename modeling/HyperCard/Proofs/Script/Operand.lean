import HyperCard.Proofs.Number.Decimal
import HyperCard.Proofs.Script.Operators

/-!
# Operands

What a text has to be for it to stand as an operand of some level and denote an expression there:
its first character tells that it is no operator, a scan finds an operand at its end, and the rule
of the level reads it as the expression. Levels are counted from the loosest one; beyond the
tightest level come the operators before a factor.
-/
namespace HyperCard.HyperTalk

open Grammar (before Segment Reads Updates Yields)

/-- The position beyond the tightest level of binary operators. -/
def unaryRank : Nat := 7

/-- What a text denotes for the rule at a position among the levels. -/
def DenotesAt : (rank : Nat) → Option UInt8 → List UInt8 → Expression → Prop
  | 0 => grammar.Denotes (.level .or)
  | 1 => grammar.Denotes (.level .and)
  | 2 => grammar.Denotes (.level .comparison)
  | 3 => grammar.Denotes (.level .concatenation)
  | 4 => grammar.Denotes (.level .additive)
  | 5 => grammar.Denotes (.level .multiplicative)
  | 6 => grammar.Denotes (.level .exponent)
  | _ => grammar.Denotes .unary

/-- The characters that operands of operator trees begin with. -/
def operandStarts : List UInt8 :=
  [0x30, 0x31, 0x32, 0x33, 0x34, 0x35, 0x36, 0x37, 0x38, 0x39, Character.quote, Character.opening,
    Character.hyphen, 0x6E]

/-- No letter or digit comes just before. -/
def Free (previous : Option UInt8) : Prop := previous.any Character.isAlphanumeric = false

/-- No character joins a word that is not there. -/
theorem Free.apart {previous : Option UInt8} (free : Free previous) (character : UInt8) :
    Character.joinsWord previous character = false := by
  have nothing : previous.any Character.isAlphanumeric = false := free
  simp [Character.joinsWord, nothing]

/-- After a space no word goes on. -/
theorem free_space : Free (some Character.space) := rfl

/-- A text that stands as an operand at some position among the levels. -/
structure Operand (rank : Nat) (expression : Expression) (text : List UInt8) : Prop where
  /-- It begins as operands do. -/
  starts : ∃ first rest, text = first :: rest ∧ first ∈ operandStarts
  /-- An operand has just ended at its end. -/
  closes : ∀ tightest previous (scan : Scan), Free previous → scan.quoted = false →
    scan.closed = false →
    (scan.past tightest previous text).quoted = false ∧
      (scan.past tightest previous text).closed = true
  /-- It denotes the expression. -/
  denotes : ∀ previous, Free previous → DenotesAt rank previous text expression

/-- An operand begins with no blank. -/
theorem solid_of_mem_operandStarts {first : UInt8} (member : first ∈ operandStarts) :
    Character.isBlank first = false := by
  have all : ∀ first ∈ operandStarts, Character.isBlank first = false := by decide +kernel
  exact all first member

section Factor

variable {text : List UInt8} {expression : Expression} {first : UInt8} {rest : List UInt8}

/-- The texts of the elements of a rule are proper. -/
theorem proper_literal {name : RuleName} {branch : Grammar.Branch RuleName.Value name.Value}
    {element : ElementOf name.Value} {literal : Grammar.Literal name.Value}
    (member : branch ∈ (grammar.rule name).branches) (inside : element ∈ branch)
    (pattern : element.pattern = .literal literal) : literal.Proper :=
  grammar_proper.texts name branch member element inside literal pattern

/-- The signs before operands refuse everything else that operands begin with. -/
theorem sign_refuses {sign : String} {update : Expression → RomanString → Expression}
    (isSign : sign = "-" ∨ sign = "not") (starts : first ∈ operandStarts)
    (unsigned : first ≠ Character.hyphen ∧ first ≠ 0x6E) :
    Grammar.Literal.refuses ⟨.encodeOrRaw sign, true, update⟩ first = true := by
  have checked : ∀ sign ∈ ["-", "not"], ∀ first ∈ operandStarts,
      first ≠ Character.hyphen ∧ first ≠ 0x6E →
      Grammar.Literal.refuses
        ⟨.encodeOrRaw sign, true, fun (value : Expression) _ => value⟩ first = true := by
    decide +kernel
  exact checked sign (by simpa using isSign) first starts unsigned

/-- A branch that begins with another text reads nothing. -/
theorem not_reads_of_refuses {name : RuleName} {element : ElementOf name.Value}
    {following : Grammar.Branch RuleName.Value name.Value} {literal : Grammar.Literal name.Value}
    {previous : Option UInt8} (member : element :: following ∈ (grammar.rule name).branches)
    (single : element.IsSingle) (pattern : element.pattern = .literal literal)
    (refuses : literal.refuses first = true) (occurrences : List Grammar.Occurrence) :
    ¬ Reads grammar.Matches (first :: rest) previous (element :: following) 0 0 occurrences := by
  rw [← List.singleton_append]
  exact Grammar.not_reads_of_fails (proper_literal member (by simp) pattern) single pattern
    (Grammar.Literal.fails_of_refuses refuses previous []) occurrences

/-- A nested rule after one space. -/
theorem spaced_segment {Value : Type} {rule : RuleName} {update : Value → rule.Value → Value}
    {previous : Option UInt8} (solid : Character.isBlank first = false)
    (matched : grammar.Matches rule (some Character.space) (first :: rest)) :
    Segment grammar.Matches (Character.space :: first :: rest) previous
      (.nested rule update : Grammar.Pattern RuleName.Value Value) := by
  rw [← List.singleton_append]
  exact .nested (by simp [Character.isBlank]) solid (free_space.apart first) matched

/-- The value of a nested rule after one space. -/
theorem spaced_updates {Value : Type} {rule : RuleName} {update : Value → rule.Value → Value}
    {previous : Option UInt8} {old : Value} {value : rule.Value}
    (solid : Character.isBlank first = false)
    (denotes : grammar.Denotes rule (some Character.space) (first :: rest) value) :
    Updates grammar.Denotes (Character.space :: first :: rest) previous
      (.nested rule update : Grammar.Pattern RuleName.Value Value) old (update old value) := by
  rw [← List.singleton_append]
  exact .nested (by simp [Character.isBlank]) solid denotes

/-- A text after one space. -/
theorem spaced_literal {Value : Type} {literal : Grammar.Literal Value} {previous : Option UInt8}
    (characters : literal.text.characters = first :: rest) :
    Segment grammar.Matches (Character.space :: first :: rest) previous
      (.literal literal : Grammar.Pattern RuleName.Value Value) := by
  rw [← List.singleton_append]
  refine .literal (by simp [Character.isBlank]) (free_space.apart first) ?_
  exact characters ▸ Grammar.Spells.refl _ _

/-- What a factor denotes is an operand's value where no sign can be read. -/
theorem unary_of_unsigned {previous : Option UInt8} (solid : Character.isBlank first = false)
    (free : Free previous) (refuses : ∀ sign ∈ ["-", "not"], Grammar.Literal.refuses
      ⟨.encodeOrRaw sign, true, fun (value : Expression) _ => value⟩ first = true)
    (denotes : grammar.Denotes .factor previous (first :: rest) expression) :
    grammar.Denotes .unary previous (first :: rest) expression := by
  refine Yields.denotes 2 rfl ?_ (.last ⟨rfl, rfl⟩ rfl
    (.of_matches solid (free.apart first) denotes.matches) (.of_denotes solid denotes))
  intro branch member occurrences
  have listed := List.mem_of_mem_take member
  rw [unary_branches] at member
  simp only [List.take_succ_cons, List.take_zero, List.mem_cons, List.not_mem_nil, or_false]
    at member
  rcases member with rfl | rfl
  · exact not_reads_of_refuses listed ⟨rfl, rfl⟩ rfl (refuses "-" (by simp)) occurrences
  · exact not_reads_of_refuses listed ⟨rfl, rfl⟩ rfl (refuses "not" (by simp)) occurrences

/-- What a factor denotes is an operand's value if it begins with no sign. -/
theorem unary_of_factor {previous : Option UInt8} (starts : first ∈ operandStarts)
    (unsigned : first ≠ Character.hyphen ∧ first ≠ 0x6E) (free : Free previous)
    (denotes : grammar.Denotes .factor previous (first :: rest) expression) :
    grammar.Denotes .unary previous (first :: rest) expression := by
  apply unary_of_unsigned (solid_of_mem_operandStarts starts) free _ denotes
  intro sign listed
  exact sign_refuses (by simpa using listed) starts unsigned

/-- A number is a factor. -/
theorem factor_of_number {previous : Option UInt8} {number : Spelling}
    (solid : Character.isBlank first = false) (free : Free previous)
    (denotes : grammar.Denotes .number previous (first :: rest) number) :
    grammar.Denotes .factor previous (first :: rest) (numberLiteral number.text) :=
  Yields.denotes 0 rfl (by simp) (.last ⟨rfl, rfl⟩ rfl
    (.of_matches solid (free.apart first) denotes.matches) (.of_denotes solid denotes))

/-- A whole number is an operand. -/
theorem integer_denotes {value : Nat} (small : value ≤ Written.greatestWhole)
    {previous : Option UInt8} (free : Free previous) :
    grammar.Denotes .factor previous (Written.decimal value) (.integer value) := by
  have digits := Written.isDigit_decimal value
  have literal : numberLiteral ⟨Written.decimal value⟩ = .integer value := by
    simp [numberLiteral, Written.whole?_decimal small]
  cases whole : Written.decimal value with
  | nil => exact absurd whole (Written.decimal_ne_nil value)
  | cons first rest =>
    have inner := @digits_denote previous _ (Written.decimal_ne_nil value) digits
    rw [whole] at digits inner literal
    have solid : ∀ character, Character.isDigit character → Character.isBlank character = false :=
      forall_byte (by decide)
    have factor := factor_of_number (solid first (digits first (by simp))) free inner
    rw [Spelling.text, List.reverse_reverse, literal] at factor
    exact factor

/-- A factor that is a number begins with a digit or a point. -/
theorem not_reads_number {previous : Option UInt8} (solid : Character.isBlank first = false)
    (other : (Character.isDigit first || first == Character.point) = false)
    (occurrences : List Grammar.Occurrence) :
    ¬ Reads grammar.Matches (first :: rest) previous
      ([nested .number fun _ number => numberLiteral number.text] :
        Grammar.Branch RuleName.Value Expression) 0 0 occurrences := by
  intro reads
  cases (reads.last ⟨rfl, rfl⟩).matches_of_solid solid with
  | branch member reads =>
    have number := (number_text member reads).2 first (by simp)
    rw [other] at number
    cases number

/-- A factor that is a string begins with a quote. -/
theorem not_reads_string {previous : Option UInt8} (solid : Character.isBlank first = false)
    (other : first ≠ Character.quote) (occurrences : List Grammar.Occurrence) :
    ¬ Reads grammar.Matches (first :: rest) previous
      ([nested .string fun _ content => .string content.text] :
        Grammar.Branch RuleName.Value Expression) 0 0 occurrences := by
  intro reads
  cases (reads.last ⟨rfl, rfl⟩).matches_of_solid solid with
  | branch member reads =>
    obtain ⟨content, whole, _⟩ := string_text member reads
    exact other (List.cons.inj whole).1

/-- A string is an operand. -/
theorem string_denotes {content : RomanString}
    (inside : ∀ character ∈ content.characters, isStringCharacter character)
    {previous : Option UInt8} (free : Free previous) :
    grammar.Denotes .factor previous
      (Character.quote :: (content.characters ++ [Character.quote])) (.string content) := by
  have inner := @quotes_denote previous _ inside
  have solid : Character.isBlank Character.quote = false := by decide
  have spelled : Expression.string (Spelling.text ⟨content.characters.reverse⟩) =
      .string content := by rw [Spelling.text, List.reverse_reverse]
  refine Yields.denotes 1 rfl ?_ (.last ⟨rfl, rfl⟩ rfl
    (.of_matches solid (free.apart _) inner.matches) ?_)
  · intro branch member
    obtain rfl : branch = [nested .number fun _ number => numberLiteral number.text] := by
      rw [factor_branches] at member
      simpa using member
    exact not_reads_number solid (by decide)
  · rw [← spelled]
    exact .of_denotes solid inner

/-- What the loosest level denotes an expression denotes. -/
theorem expression_denotes {previous : Option UInt8} (starts : first ∈ operandStarts)
    (free : Free previous)
    (denotes : grammar.Denotes (.level .or) previous (first :: rest) expression) :
    grammar.Denotes .expression previous (first :: rest) expression := by
  have solid := solid_of_mem_operandStarts starts
  exact Yields.denotes 0 rfl (by simp) (.last ⟨rfl, rfl⟩ rfl
    (.of_matches solid (free.apart first) denotes.matches) (.of_denotes solid denotes))

/-- No expression ends in a blank. -/
theorem solid_of_nested {Value : Type} {rule : RuleName} {update : Value → rule.Value → Value}
    {previous : Option UInt8} (inside : inExpressions rule)
    (segment : Segment grammar.Matches text previous
      (.nested rule update : Grammar.Pattern RuleName.Value Value)) :
    ∀ last ∈ text.getLast?, Character.isBlank last = false :=
  (part_of_nested (segment.mono fun _ _ _ => known_of_matches) inside).solid

/-- A part of a text that ends in no blank ends before the last blank of the text. -/
theorem length_le_before_blank {other blanks : List UInt8} {blank final : UInt8}
    (isBlank : Character.isBlank blank)
    (ends : ∀ last ∈ other.getLast?, Character.isBlank last = false)
    (whole : text ++ [blank, final] = other ++ (blanks ++ [final])) :
    other.length ≤ text.length := by
  have cut : (text ++ [blank]) ++ [final] = (other ++ blanks) ++ [final] := by simpa using whole
  have parts : text ++ [blank] = other ++ blanks := List.append_inj_left' cut rfl
  cases blanks.eq_nil_or_concat with
  | inl empty =>
    rw [empty, List.append_nil] at parts
    rw [← parts] at ends
    have solid := ends blank List.getLast?_concat
    rw [isBlank] at solid
    cases solid
  | inr split =>
    obtain ⟨others, last, rfl⟩ := split
    have lengths := congrArg List.length parts
    simp only [List.concat_eq_append, List.length_append, List.length_cons, List.length_nil]
      at lengths
    omega

/-- The branch of a factor for an expression in parentheses. -/
def parenthesesBranch : Grammar.Branch RuleName.Value Expression :=
  [.literal "(", nested .expression replace, .literal ")"]

/-- No branch of a factor before the one for parentheses reads a text that begins with one. -/
theorem not_reads_opening {previous : Option UInt8}
    {branch : Grammar.Branch RuleName.Value Expression}
    (earlier : branch ∈ (grammar.rule .factor).branches.take 5)
    (occurrences : List Grammar.Occurrence) :
    ¬ Reads grammar.Matches (Character.opening :: rest) previous branch 0 0 occurrences := by
  have refused : ∀ word ∈ ["true", "false", "empty"], Grammar.Literal.refuses
      ⟨.encodeOrRaw word, true, fun (value : Expression) _ => value⟩ Character.opening = true := by
    decide
  have solid : Character.isBlank Character.opening = false := by decide
  have inside := List.mem_of_mem_take earlier
  rw [factor_branches] at earlier
  simp only [List.take_succ_cons, List.take_zero, List.mem_cons, List.not_mem_nil, or_false]
    at earlier
  rcases earlier with rfl | rfl | rfl | rfl | rfl
  · exact not_reads_number solid (by decide) occurrences
  · exact not_reads_string solid (by decide) occurrences
  · exact not_reads_of_refuses inside ⟨rfl, rfl⟩ rfl (refused "true" (by simp)) occurrences
  · exact not_reads_of_refuses inside ⟨rfl, rfl⟩ rfl (refused "false" (by simp)) occurrences
  · exact not_reads_of_refuses inside ⟨rfl, rfl⟩ rfl (refused "empty" (by simp)) occurrences

/-- An expression in parentheses is an operand if no longer one ends before the same closing
parenthesis. -/
theorem parenthesized_denotes {previous : Option UInt8} {inner closed : List UInt8}
    (free : Free previous)
    (segment : Segment grammar.Matches inner (some Character.opening)
      (nested .expression replace : ElementOf Expression).pattern)
    (updates : Updates grammar.Denotes inner (some Character.opening)
      (nested .expression replace : ElementOf Expression).pattern .emptyText expression)
    (closes : Segment grammar.Matches closed (before (some Character.opening) inner)
      (Grammar.Element.literal ")" : ElementOf Expression).pattern)
    (longest : ∀ other blanks, inner ++ closed = other ++ (blanks ++ [Character.closing]) →
      (∀ last ∈ other.getLast?, Character.isBlank last = false) → other.length ≤ inner.length) :
    grammar.Denotes .factor previous ([Character.opening] ++ (inner ++ closed)) expression := by
  have opened : Segment grammar.Matches [Character.opening] previous
      (Grammar.Element.literal "(" : ElementOf Expression).pattern :=
    Grammar.segment_literal_refl characters_opening (free.apart _)
  have member : parenthesesBranch ∈ (grammar.rule .factor).branches := by
    rw [factor_branches]
    simp [parenthesesBranch]
  have proper := proper_literal member List.mem_cons_self rfl
  refine Yields.denotes 5 rfl (fun _ earlier => not_reads_opening earlier)
    (.single ⟨rfl, rfl⟩ rfl opened .literal ?_ (.single ⟨rfl, rfl⟩ rfl segment updates ?_
      (.last ⟨rfl, rfl⟩ rfl closes .literal)))
  · intro other tail whole again _
    exact opened.literal_length_le proper again whole
  · rintro other tail whole again ⟨occurrences, reads⟩
    obtain ⟨blanks, rfl, _⟩ :=
      symbol_text (reads.last ⟨rfl, rfl⟩) characters_closing rfl (by decide)
    exact longest other blanks whole (solid_of_nested rfl again)

/-- An expression in parentheses, each a token of its own, is an operand. -/
theorem parentheses_denote {previous : Option UInt8} (starts : first ∈ operandStarts)
    (free : Free previous)
    (denotes : grammar.Denotes .expression (some Character.space) (first :: rest) expression) :
    grammar.Denotes .factor previous
      (Character.opening ::
        (Character.space :: first :: rest ++ [Character.space, Character.closing]))
      expression := by
  have solid := solid_of_mem_operandStarts starts
  -- A longer expression would end in the blank before the closing parenthesis.
  exact parenthesized_denotes free (spaced_segment solid denotes.matches)
    (spaced_updates solid denotes) (spaced_literal characters_closing)
    fun _ _ whole ends => length_le_before_blank (by decide) ends whole

/-- A word or symbol and a nested rule after a space are read in the one way there is. -/
theorem spaced_yields {Value : Type} {element following : ElementOf Value}
    {literal : Grammar.Literal Value} {rule : RuleName} {update : Value → rule.Value → Value}
    {symbol : UInt8} {others : List UInt8} {old new : Value} {value : rule.Value}
    {previous : Option UInt8} (singles : element.IsSingle ∧ following.IsSingle)
    (written : element.pattern = .literal literal)
    (pattern : following.pattern = .nested rule update)
    (characters : literal.text.characters = symbol :: others)
    (proper : Character.isBlank symbol = false) (free : Free previous)
    (solid : Character.isBlank first = false)
    (denotes : grammar.Denotes rule (some Character.space) (first :: rest) value)
    (changes : update (literal.update old ⟨symbol :: others⟩) value = new) :
    grammar.Yields [element, following] [element, following]
      ((symbol :: others) ++ (Character.space :: first :: rest)) previous 0 0 old new := by
  subst changes
  have segment : Segment grammar.Matches (symbol :: others) previous
      (.literal literal : Grammar.Pattern RuleName.Value Value) :=
    Grammar.segment_literal_refl characters (free.apart symbol)
  have change : Updates grammar.Denotes (symbol :: others) previous
      (.literal literal : Grammar.Pattern RuleName.Value Value) old
      (literal.update old ⟨RomanString.dropBlanks (symbol :: others)⟩) := .literal
  have kept : RomanString.dropBlanks (symbol :: others) = symbol :: others :=
    List.dropWhile_cons_of_neg (by simp [proper])
  rw [kept] at change
  refine .single singles.1 rfl (written ▸ segment) (written ▸ change) ?_
    (.last singles.2 rfl ?_ ?_)
  · intro other tail whole again _
    rw [written] at again
    have isProper : literal.Proper := ⟨symbol, others, characters, proper⟩
    exact segment.literal_length_le isProper again whole
  · rw [pattern]
    exact spaced_segment solid denotes.matches
  · rw [pattern]
    exact spaced_updates solid denotes

/-- How an operator before its operand is written. -/
def sign : UnaryOperator → String
  | .negate => "-"
  | .not => "not"

/-- A sign before an operand is an operand. -/
theorem sign_denotes {previous : Option UInt8} (operator : UnaryOperator)
    (starts : first ∈ operandStarts) (free : Free previous)
    (denotes : grammar.Denotes .unary (some Character.space) (first :: rest) expression) :
    grammar.Denotes .unary previous
      ((RomanString.encodeOrRaw (sign operator)).characters ++ Character.space :: first :: rest)
      (.unary operator expression) := by
  have solid := solid_of_mem_operandStarts starts
  cases operator with
  | negate =>
    have characters : (RomanString.encodeOrRaw "-").characters = [Character.hyphen] := by decide
    rw [sign, characters]
    exact Yields.denotes 0 rfl (by simp)
      (spaced_yields ⟨⟨rfl, rfl⟩, rfl, rfl⟩ rfl rfl characters (by decide) free solid denotes rfl)
  | not =>
    have characters : (RomanString.encodeOrRaw "not").characters = [0x6E, 0x6F, 0x74] := by decide
    rw [sign, characters]
    refine Yields.denotes 1 rfl ?_
      (spaced_yields ⟨⟨rfl, rfl⟩, rfl, rfl⟩ rfl rfl characters (by decide) free solid denotes rfl)
    intro branch member occurrences
    have listed := List.mem_of_mem_take member
    rw [unary_branches] at member
    obtain rfl := List.mem_singleton.mp member
    exact not_reads_of_refuses listed ⟨rfl, rfl⟩ rfl (by decide) occurrences

end Factor

end HyperCard.HyperTalk
