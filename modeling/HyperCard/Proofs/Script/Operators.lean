import HyperCard.Proofs.Grammar.Spelling
import HyperCard.Proofs.Script.Scan

/-!
# Where expressions have operators

A scan that starts before an operand comes to the end of an expression outside strings and at the
depth where it began, and it marks no operator of a level looser than that of the rule. This holds
of every text that the rules of expressions match, however strange it reads: a word is passed over
as an operand or as an operator before one, and only after an operand, where none can stand, would
it be taken for an operator.

A tail, which is an operator and an operand, is marked once if an operand has just ended. No text
of these rules ends in a blank.
-/
namespace HyperCard.HyperTalk

open Grammar (before Segment Reads Repeats Pattern)

/-- The rules that expressions are made of. -/
def inExpressions : RuleName → Bool
  | .word | .number | .string | .expression | .factor | .call | .nextArgument | .unary
  | .level _ | .tail _ => true
  | _ => false

/-- Whether the texts of a rule may follow an operand. -/
def mayFollow : RuleName → Bool
  | .nextArgument | .tail _ => true
  | _ => false

/-- A rule whose texts have no operator between operands, outside parentheses, of a level as loose
as the given one. -/
def Tight (tightest : Nat) : RuleName → Prop
  | .expression | .nextArgument => False
  | .level level | .tail level => tightest < level.rank
  | _ => True

namespace Scan

/-- Between two points outside strings at one depth; no operator was marked at that depth or, if
the text is quiet, anywhere. -/
structure Steady (quiet : Prop) (before after : Scan) : Prop where
  /-- No string is open. -/
  unquoted : after.quoted = false
  /-- The same parentheses are open. -/
  depth : after.depth = before.depth
  /-- Nothing was marked. -/
  marks : 0 < before.depth ∨ quiet → after.marks = before.marks

/-- Steady parts of a scan follow each other. -/
theorem Steady.trans {quiet : Prop} {first second third : Scan} (left : Steady quiet first second)
    (right : Steady quiet second third) : Steady quiet first third where
  unquoted := right.unquoted
  depth := right.depth.trans left.depth
  marks := by
    intro calm
    have middle : 0 < second.depth ∨ quiet := by rwa [left.depth]
    rw [right.marks middle, left.marks calm]

/-- What is steady stays so where less counts as quiet. -/
theorem Steady.mono {quiet more : Prop} {before after : Scan} (steady : Steady quiet before after)
    (weaker : more → quiet) : Steady more before after :=
  ⟨steady.unquoted, steady.depth, fun calm => steady.marks (calm.imp_right weaker)⟩

end Scan

/-- Part of an expression, which may follow an operand or not. -/
structure Part (follows : Bool) (quiet : Nat → Prop) (previous : Option UInt8)
    (text : List UInt8) : Prop where
  /-- The part is not empty. -/
  nonempty : text ≠ []
  /-- It ends in no blank. -/
  solid : ∀ last ∈ text.getLast?, Character.isBlank last = false
  /-- A scan passes over it. -/
  steady : ∀ tightest (scan : Scan), scan.quoted = false →
    (follows = false → scan.closed = false) →
    Scan.Steady (quiet tightest) scan (scan.past tightest previous text)

/-- A part before which a scan is as it is after it. -/
structure Still (previous : Option UInt8) (text : List UInt8) : Prop where
  /-- The part is not empty. -/
  nonempty : text ≠ []
  /-- It ends in no blank. -/
  solid : ∀ last ∈ text.getLast?, Character.isBlank last = false
  /-- A scan before an operand stays before an operand. -/
  same : ∀ tightest (scan : Scan), scan.quoted = false → scan.closed = false →
    scan.past tightest previous text = scan

section Parts

variable {follows : Bool} {quiet : Nat → Prop} {previous : Option UInt8}
  {left right : List UInt8}

/-- A text ends in no blank if its last part does not. -/
theorem solid_append (nonempty : right ≠ [])
    (solid : ∀ last ∈ right.getLast?, Character.isBlank last = false) :
    ∀ last ∈ (left ++ right).getLast?, Character.isBlank last = false := by
  rw [List.getLast?_eq_some_getLast nonempty] at solid
  rw [List.getLast?_append, List.getLast?_eq_some_getLast nonempty]
  exact solid

/-- A part may count as quiet at fewer levels. -/
theorem Part.mono {more : Nat → Prop} (part : Part follows quiet previous left)
    (weaker : ∀ tightest, more tightest → quiet tightest) : Part follows more previous left :=
  ⟨part.nonempty, part.solid, fun tightest scan unquoted awaiting =>
    (part.steady tightest scan unquoted awaiting).mono (weaker tightest)⟩

/-- A part goes on with one that may follow an operand. -/
theorem Part.append (first : Part follows quiet previous left)
    (second : Part true quiet (before previous left) right) :
    Part follows quiet previous (left ++ right) where
  nonempty := by simp [first.nonempty]
  solid := solid_append second.nonempty second.solid
  steady := by
    intro tightest scan unquoted awaiting
    have here := first.steady tightest scan unquoted awaiting
    rw [Scan.past_append]
    exact here.trans (second.steady tightest _ here.unquoted (by simp))

/-- Any part may come behind one that leaves a scan as it is. -/
theorem Still.append (first : Still previous left)
    (second : Part false quiet (before previous left) right) :
    Part false quiet previous (left ++ right) where
  nonempty := by simp [first.nonempty]
  solid := solid_append second.nonempty second.solid
  steady := by
    intro tightest scan unquoted awaiting
    rw [Scan.past_append, first.same tightest scan unquoted (awaiting rfl)]
    exact second.steady tightest scan unquoted awaiting

/-- A part that leaves a scan as it is marks nothing at any level. -/
theorem Still.part (still : Still previous left) : Part false quiet previous left where
  nonempty := still.nonempty
  solid := still.solid
  steady := by
    intro tightest scan unquoted awaiting
    rw [still.same tightest scan unquoted (awaiting rfl)]
    exact ⟨unquoted, rfl, fun _ => rfl⟩

/-- Blanks in front make no difference. -/
theorem Part.blanks {blanks : List UInt8}
    (blank : ∀ character ∈ blanks, Character.isBlank character)
    (part : Part follows quiet (before previous blanks) right) :
    Part follows quiet previous (blanks ++ right) where
  nonempty := by simp [part.nonempty]
  solid := solid_append part.nonempty part.solid
  steady := by
    intro tightest scan unquoted awaiting
    rw [Scan.past_append, Scan.past_blanks unquoted blank]
    exact part.steady tightest scan unquoted awaiting

/-- Nor do they before a part that leaves a scan as it is. -/
theorem Still.blanks {blanks : List UInt8}
    (blank : ∀ character ∈ blanks, Character.isBlank character)
    (still : Still (before previous blanks) right) : Still previous (blanks ++ right) where
  nonempty := by simp [still.nonempty]
  solid := solid_append still.nonempty still.solid
  same := by
    intro tightest scan unquoted awaiting
    rw [Scan.past_append, Scan.past_blanks unquoted blank]
    exact still.same tightest scan unquoted awaiting

/-- A word is passed over before an operand. -/
theorem still_word {first : UInt8} {rest : List UInt8} (letter : Character.isLetter first)
    (word : ∀ character ∈ rest, Character.isAlphanumeric character) :
    Still previous (first :: rest) := by
  refine ⟨by simp, fun last member => solid_of_isAlphanumeric last ?_, ?_⟩
  · exact forall_isAlphanumeric letter word last (List.mem_of_getLast? member)
  · exact fun _ _ unquoted awaiting => Scan.past_word unquoted awaiting letter word

/-- A number is an operand. -/
theorem part_number (nonempty : left ≠ [])
    (number : ∀ character ∈ left, Character.isDigit character || character == Character.point)
    (apart : ∀ first ∈ left.head?, Character.joinsWord previous first = false) :
    Part false quiet previous left := by
  have kind : ∀ character, (Character.isDigit character || character == Character.point) →
      Character.isBlank character = false := forall_byte (by decide)
  cases left with
  | nil => exact absurd rfl nonempty
  | cons first rest =>
    refine ⟨by simp, fun last member => kind last (number last (List.mem_of_getLast? member)), ?_⟩
    intro tightest scan unquoted awaiting
    rw [Scan.past_number unquoted (apart first rfl) number]
    exact ⟨unquoted, rfl, fun _ => rfl⟩

/-- A string is an operand. -/
theorem part_string (inside : ∀ character ∈ left, isStringCharacter character) :
    Part false quiet previous (Character.quote :: (left ++ [Character.quote])) := by
  have mark : Character.isBlank Character.quote = false := by decide
  refine ⟨by simp, ?_, ?_⟩
  · rw [← List.cons_append]
    exact solid_append (by simp) (by simpa using mark)
  · intro tightest scan unquoted awaiting
    rw [Scan.past_string unquoted fun character member =>
      ne_quote_of_isStringCharacter (inside character member)]
    exact ⟨unquoted, rfl, fun _ => rfl⟩

/-- Parentheses around a part make it quiet. -/
theorem Part.parentheses {inner opened closed : List UInt8}
    (openedBlank : ∀ character ∈ opened, Character.isBlank character)
    (closedBlank : ∀ character ∈ closed, Character.isBlank character)
    (steady : ∀ tightest (scan : Scan), scan.quoted = false → scan.closed = false →
      0 < scan.depth →
      Scan.Steady False scan (scan.past tightest (some Character.opening) inner)) :
    Part false quiet previous
      (opened ++ [Character.opening] ++ (inner ++ (closed ++ [Character.closing]))) where
  nonempty := by simp
  solid := by
    have last : Character.isBlank Character.closing = false := by decide
    rw [← List.append_assoc, ← List.append_assoc]
    exact solid_append (by simp) (by simpa using last)
  steady := by
    intro tightest scan unquoted awaiting
    have symbol : before previous (opened ++ [Character.opening]) = some Character.opening := by
      simp
    rw [Scan.past_append, symbol, Scan.past_append opened, Scan.past_blanks unquoted openedBlank,
      Scan.past_opening unquoted]
    have inside := steady tightest { scan with depth := scan.depth + 1, closed := false } unquoted
      rfl (Nat.succ_pos _)
    rw [Scan.past_append, Scan.past_append, Scan.past_blanks inside.unquoted closedBlank,
      Scan.past_closing inside.unquoted]
    have depth := inside.depth
    have marks := inside.marks (.inl (Nat.succ_pos _))
    exact ⟨inside.unquoted, by simp [depth], fun _ => marks⟩

end Parts

section Segments

variable {language : Grammar.Language RuleName} {Value : Type} {previous : Option UInt8}
  {text : List UInt8}

/-- What is written for a text of plain characters is plain. -/
theorem plain_of_spells {ignoresCase : Bool} {input : List UInt8}
    (spells : Grammar.Spells ignoresCase text input)
    (plain : ∀ character ∈ text, Scan.isPlain character) :
    ∀ character ∈ input, Scan.isPlain character := by
  have small : ∀ character, Scan.isPlain (Character.toLower character) =
      Scan.isPlain character := forall_byte (by decide)
  refine spells.forall_mem ?_ (forall_byte (by decide)) plain
  intro expected character same plainExpected
  unfold Grammar.Same at same
  split at same
  · rw [← small, ← same, small]
    exact plainExpected
  · rwa [← same]

/-- A word or sign before an operand. -/
theorem still_of_literal {literal : Grammar.Literal Value}
    (segment : Segment language text previous
      (.literal literal : Pattern RuleName.Value Value))
    (plain : ∀ character ∈ literal.text.characters, Scan.isPlain character)
    (solid : ∀ last ∈ literal.text.characters.getLast?, Character.isBlank last = false) :
    Still previous text := by
  cases segment with
  | @literal _ _ _ blanks rest first blank apart spells =>
    refine (⟨by simp, spells.last_solid solid, ?_⟩ : Still _ _).blanks blank
    intro tightest scan unquoted awaiting
    exact Scan.past_plain unquoted awaiting (plain_of_spells spells plain)

/-- The opening parenthesis is one character. -/
theorem characters_opening : (RomanString.encodeOrRaw "(").characters = [Character.opening] := by
  decide

/-- So is the closing one. -/
theorem characters_closing : (RomanString.encodeOrRaw ")").characters = [Character.closing] := by
  decide

/-- So is the comma. -/
theorem characters_comma : (RomanString.encodeOrRaw ",").characters = [Character.comma] := by
  decide

/-- A symbol after blanks. -/
theorem symbol_text {literal : Grammar.Literal Value} {symbol : UInt8}
    (segment : Segment language text previous
      (.literal literal : Pattern RuleName.Value Value))
    (characters : literal.text.characters = [symbol]) (exact : literal.ignoresCase = false)
    (solid : Character.isBlank symbol = false) :
    ∃ blanks, text = blanks ++ [symbol] ∧
      ∀ character ∈ blanks, Character.isBlank character := by
  cases segment with
  | @literal _ _ _ blanks rest first blank apart spells =>
    rw [characters, exact] at spells
    obtain ⟨character, written, same⟩ := spells.singleton solid
    obtain rfl : symbol = character := same
    exact ⟨blanks, by rw [written], blank⟩

end Segments

/-- What is known of the texts of a rule of expressions that begin apart from what is before. -/
def Regular : Grammar.Language RuleName := fun name previous text =>
  inExpressions name → text ≠ [] →
    (∀ first ∈ text.head?, Character.joinsWord previous first = false) →
    Part (mayFollow name) (Tight · name) previous text

/-- The texts of a rule, with what is known of them. -/
def Known : Grammar.Language RuleName := fun name previous text =>
  grammar.Matches name previous text ∧ Regular name previous text

section Known

variable {Value : Type} {previous : Option UInt8} {text : List UInt8}

/-- An occurrence of a nested rule is part of the expression. -/
theorem part_of_nested {rule : RuleName} {update : Value → rule.Value → Value}
    (segment : Segment Known text previous
      (.nested rule update : Pattern RuleName.Value Value))
    (inside : inExpressions rule) : Part (mayFollow rule) (Tight · rule) previous text := by
  cases segment with
  | nested blank _ apart inner =>
    exact (inner.2 inside (by simp) (by simpa using apart)).blanks blank

/-- A word with the blanks before it is passed over before an operand. -/
theorem still_of_word {update : Value → Spelling → Value}
    (segment : Segment Known text previous
      (.nested .word update : Pattern RuleName.Value Value)) :
    Still previous text := by
  obtain ⟨blanks, first, rest, rfl, blank, letter, word⟩ :=
    exists_word_of_segment (segment.mono fun _ _ _ known => known.1)
  exact (still_word letter fun character member =>
    word character (List.mem_cons_of_mem _ member)).blanks blank

/-- An operand of a level is part of the expression. -/
theorem part_of_operand {level : Level} {update : Value → Expression → Value}
    (segment : Segment Known text previous (operand update level).pattern) :
    Part false (· ≤ level.rank) previous text := by
  cases level with
  | exponent => exact (part_of_nested segment rfl).mono fun _ _ => trivial
  | _ =>
    refine (part_of_nested segment rfl).mono fun tightest within => ?_
    exact Nat.lt_succ_of_le within

end Known

section Operator

variable {level : Level} {entry : String × BinaryOperator}

/-- An operator begins with a character of its level, and neither is a character of it a
parenthesis or a quote nor does it belong to a number. -/
theorem operator_characters (member : entry ∈ level.operators) :
    (RomanString.encodeOrRaw entry.1).characters.all Scan.isPlain = true ∧
      ∃ first rest, (RomanString.encodeOrRaw entry.1).characters = first :: rest ∧
        Character.isBlank first = false ∧ operatorLevel? first = some level := by
  have checked : ∀ level : Level, ∀ entry ∈ level.operators,
      (RomanString.encodeOrRaw entry.1).characters.all Scan.isPlain = true ∧
        (RomanString.encodeOrRaw entry.1).characters.head?.any
          (fun first => !Character.isBlank first && operatorLevel? first == some level) = true := by
    intro level
    cases level <;> decide +kernel
  obtain ⟨plain, begins⟩ := checked level entry member
  refine ⟨plain, ?_⟩
  cases characters : (RomanString.encodeOrRaw entry.1).characters with
  | nil => simp [characters] at begins
  | cons first rest =>
    simp only [characters, List.head?_cons, Option.any_some, Bool.and_eq_true, Bool.not_eq_true',
      beq_iff_eq] at begins
    exact ⟨first, rest, rfl, begins⟩

variable {language : Grammar.Language RuleName} {Value : Type} {previous : Option UInt8}
  {text : List UInt8} {update : Value → RomanString → Value} {tightest : Nat} {scan : Scan}

/-- An operator after an operand is marked if its level is loose enough. -/
theorem past_operator (member : entry ∈ level.operators)
    (segment : Segment language text previous
      (.literal ⟨.encodeOrRaw entry.1, true, update⟩ : Pattern RuleName.Value Value))
    (unquoted : scan.quoted = false) :
    scan.past tightest previous text =
      { scan with
        closed := false
        marks := scan.marks +
          if scan.closed && scan.depth == 0 && level.rank ≤ tightest then 1 else 0 } := by
  obtain ⟨plain, expected, others, characters, solid, levelFound⟩ := operator_characters member
  cases segment with
  | @literal _ _ _ blanks rest first blank apart spells =>
    have written := plain_of_spells spells (by simpa using plain)
    rw [characters] at spells
    have same := spells.head_same solid
    have firstSolid : Character.isBlank first = false := by rw [← same.isBlank_eq, solid]
    have firstLevel : operatorLevel? first = some level := by
      have lower : Character.toLower expected = Character.toLower first := same
      rw [← levelFound, operatorLevel?, operatorLevel?, lower]
    have kind := written first (by simp)
    simp only [Scan.isPlain, Bool.not_eq_true', Bool.or_eq_false_iff] at kind
    have begun : scan.step tightest (before previous blanks) first =
        { scan with
          closed := false
          marks := scan.marks +
            if scan.closed && scan.depth == 0 && level.rank ≤ tightest then 1 else 0 } := by
      simp only [Scan.step, unquoted, firstSolid, apart, kind, firstLevel, Option.any_some,
        Bool.or_self, Bool.false_eq_true, ↓reduceIte]
      split <;> simp_all
    rw [Scan.past_append, Scan.past_blanks unquoted blank, Scan.past_cons, begun]
    refine Scan.past_plain ?_ rfl fun character member => ?_
    · exact unquoted
    · exact written character (List.mem_cons_of_mem _ member)

end Operator

section Rules

variable {previous : Option UInt8} {text : List UInt8} {occurrences : List Grammar.Occurrence}

/-- A tail is an operator of its level and an operand. -/
theorem tail_text {language : Grammar.Language RuleName} {level : Level}
    {branch : Grammar.Branch RuleName.Value (BinaryOperator × Expression)}
    (member : branch ∈ (grammar.rule (.tail level)).branches)
    (reads : Reads language text previous branch 0 0 occurrences) :
    ∃ entry ∈ level.operators, ∃ first rest, text = first ++ rest ∧
      Segment language first previous
        (.literal ⟨.encodeOrRaw entry.1, true, fun tail _ => (entry.2, tail.2)⟩ :
          Pattern RuleName.Value (BinaryOperator × Expression)) ∧
      Segment language rest (before previous first)
        (operand (fun (tail : BinaryOperator × Expression) right => (tail.1, right))
          level).pattern := by
  obtain ⟨entry, listed, rfl⟩ := List.mem_map.mp member
  obtain ⟨first, rest, others, rfl, operator, reads⟩ := reads.single ⟨rfl, rfl⟩
  have single : (operand (fun (tail : BinaryOperator × Expression) right => (tail.1, right))
      level).IsSingle := by cases level <;> exact ⟨rfl, rfl⟩
  exact ⟨entry, listed, first, rest, rfl, operator, reads.last single⟩

/-- A scan passes over a tail with a mark where an operand has just ended, if the level is loose
enough. -/
theorem past_tail {level : Level}
    {branch : Grammar.Branch RuleName.Value (BinaryOperator × Expression)}
    (member : branch ∈ (grammar.rule (.tail level)).branches)
    (reads : Reads Known text previous branch 0 0 occurrences) :
    text ≠ [] ∧ (∀ last ∈ text.getLast?, Character.isBlank last = false) ∧
      ∀ tightest (scan : Scan), scan.quoted = false →
        Scan.Steady (tightest ≤ level.rank)
          { scan with
            marks := scan.marks +
              if scan.closed && scan.depth == 0 && level.rank ≤ tightest then 1 else 0 }
          (scan.past tightest previous text) := by
  obtain ⟨entry, listed, first, rest, rfl, operator, right⟩ := tail_text member reads
  have part := part_of_operand right
  refine ⟨by simp [part.nonempty], solid_append part.nonempty part.solid, ?_⟩
  intro tightest scan unquoted
  rw [Scan.past_append, past_operator listed operator unquoted]
  have steady := part.steady tightest
    { scan with
      closed := false
      marks := scan.marks +
        if scan.closed && scan.depth == 0 && level.rank ≤ tightest then 1 else 0 }
    unquoted fun _ => rfl
  exact ⟨steady.unquoted, steady.depth, steady.marks⟩

/-- An operator and its right operand mark nothing for the levels looser than their own. -/
theorem part_tail {level : Level}
    {branch : Grammar.Branch RuleName.Value (BinaryOperator × Expression)}
    (member : branch ∈ (grammar.rule (.tail level)).branches)
    (reads : Reads Known text previous branch 0 0 occurrences) :
    Part true (· < level.rank) previous text := by
  obtain ⟨nonempty, solid, passes⟩ := past_tail member reads
  refine ⟨nonempty, solid, fun tightest scan unquoted _ => ?_⟩
  have steady := passes tightest scan unquoted
  refine ⟨steady.unquoted, steady.depth, fun calm => ?_⟩
  rw [steady.marks (calm.imp_right Nat.le_of_lt)]
  have unmarked : (scan.closed && scan.depth == 0 && level.rank ≤ tightest) = false := by
    rcases calm with deep | tight
    · simp [Nat.ne_of_gt deep]
    · simp [tight]
  simp [unmarked]

/-- A part goes on with any number of parts that may follow an operand. -/
theorem Part.append_repeats {follows : Bool} {quiet : Nat → Prop} {left right : List UInt8}
    {start : Option UInt8} {Value : Type} {pattern : Pattern RuleName.Value Value}
    {index count position : Nat}
    (repeats : Repeats Known right start pattern index count position occurrences)
    (each : ∀ {text previous}, Segment Known text previous pattern → Part true quiet previous text)
    (part : Part follows quiet previous left) (next : before previous left = start) :
    Part follows quiet previous (left ++ right) := by
  induction repeats generalizing left with
  | none => rwa [List.append_nil]
  | @more _ _ start first rest _ _ _ _ segment _ ih =>
    rw [← List.append_assoc]
    exact ih each (part.append (next ▸ each segment)) (by simp [next])

/-- Operands of a level are joined by operators of the level. -/
theorem part_level {level : Level} {branch : Grammar.Branch RuleName.Value Expression}
    (member : branch ∈ (grammar.rule (.level level)).branches)
    (reads : Reads Known text previous branch 0 0 occurrences) :
    Part false (· < level.rank) previous text := by
  obtain rfl := List.mem_singleton.mp member
  have single : (operand replace level).IsSingle := by cases level <;> exact ⟨rfl, rfl⟩
  obtain ⟨first, rest, others, rfl, segment, reads⟩ := reads.single single
  have head : Part false (· < level.rank) previous first :=
    (part_of_operand segment).mono fun _ => Nat.le_of_lt
  cases reads with
  | cons repeats _ _ reads =>
    obtain rfl := reads.eq_nil_of_nil
    rw [List.append_nil]
    exact head.append_repeats repeats (fun segment => part_of_nested segment rfl) rfl

/-- An expression is made of the loosest operators. -/
theorem part_expression {branch : Grammar.Branch RuleName.Value Expression}
    (member : branch ∈ (grammar.rule .expression).branches)
    (reads : Reads Known text previous branch 0 0 occurrences) :
    Part false (fun _ => False) previous text := by
  obtain rfl := List.mem_singleton.mp member
  have part : Part false _ previous text := part_of_nested (reads.last ⟨rfl, rfl⟩) rfl
  exact part.mono fun _ => False.elim

/-- A further argument follows a comma. -/
theorem part_nextArgument {branch : Grammar.Branch RuleName.Value Expression}
    (member : branch ∈ (grammar.rule .nextArgument).branches)
    (reads : Reads Known text previous branch 0 0 occurrences) :
    Part true (fun _ => False) previous text := by
  obtain rfl := List.mem_singleton.mp member
  obtain ⟨comma, rest, others, rfl, segment, reads⟩ := reads.single ⟨rfl, rfl⟩
  have part : Part false _ _ rest := part_of_nested (reads.last ⟨rfl, rfl⟩) rfl
  obtain ⟨blanks, rfl, blank⟩ := symbol_text segment characters_comma rfl (by decide)
  refine ⟨by simp, solid_append part.nonempty part.solid, ?_⟩
  intro tightest scan unquoted _
  rw [Scan.past_append, Scan.past_append blanks, Scan.past_blanks unquoted blank,
    Scan.past_comma unquoted]
  have steady := part.steady tightest { scan with closed := false } unquoted fun _ => rfl
  exact ⟨steady.unquoted, steady.depth, steady.marks⟩

/-- The branches of an operand with its signs. -/
theorem unary_branches : (grammar.rule .unary).branches =
    [[.keyword "-", nested .unary fun _ operand => .unary .negate operand],
      [.keyword "not", nested .unary fun _ operand => .unary .not operand],
      [nested .factor replace]] := rfl

/-- An operand follows any number of signs. -/
theorem part_unary {branch : Grammar.Branch RuleName.Value Expression}
    (member : branch ∈ (grammar.rule .unary).branches)
    (reads : Reads Known text previous branch 0 0 occurrences) :
    Part false (fun _ => True) previous text := by
  rw [unary_branches] at member
  simp only [List.mem_cons, List.not_mem_nil, or_false] at member
  rcases member with rfl | rfl | rfl
  · obtain ⟨sign, rest, others, rfl, segment, reads⟩ := reads.single ⟨rfl, rfl⟩
    have part : Part false _ _ rest := part_of_nested (reads.last ⟨rfl, rfl⟩) rfl
    exact (still_of_literal segment (by decide +kernel) (by decide +kernel)).append part
  · obtain ⟨sign, rest, others, rfl, segment, reads⟩ := reads.single ⟨rfl, rfl⟩
    have part : Part false _ _ rest := part_of_nested (reads.last ⟨rfl, rfl⟩) rfl
    exact (still_of_literal segment (by decide +kernel) (by decide +kernel)).append part
  · exact part_of_nested (reads.last ⟨rfl, rfl⟩) rfl

/-- Parentheses stand around something that ends at the depth where it began. -/
theorem part_parentheses {opened inner closed : List UInt8} {Value : Type} {next : Option UInt8}
    (openedText : Segment Known opened previous (Grammar.Element.literal "(" :
      ElementOf Value).pattern)
    (closedText : Segment Known closed next (Grammar.Element.literal ")" :
      ElementOf Value).pattern)
    (steady : ∀ tightest (scan : Scan), scan.quoted = false → scan.closed = false →
      Scan.Steady False scan (scan.past tightest (before previous opened) inner)) :
    Part false (fun _ => True) previous (opened ++ (inner ++ closed)) := by
  obtain ⟨openedBlanks, rfl, openedBlank⟩ :=
    symbol_text openedText characters_opening rfl (by decide)
  obtain ⟨closedBlanks, rfl, closedBlank⟩ :=
    symbol_text closedText characters_closing rfl (by decide)
  exact .parentheses openedBlank closedBlank fun tightest scan unquoted awaiting _ => by
    simpa using steady tightest scan unquoted awaiting

/-- The branches of a factor. -/
theorem factor_branches : (grammar.rule .factor).branches =
    [[nested .number fun _ number => numberLiteral number.text],
      [nested .string fun _ content => .string content.text],
      [.keywordWith "true" fun _ _ => .boolean true],
      [.keywordWith "false" fun _ _ => .boolean false],
      [.keywordWith "empty" fun _ _ => .emptyText],
      [.literal "(", nested .expression replace, .literal ")"],
      [nested .call fun _ call => call.expression],
      [nested .word fun _ name => .word name.text]] := rfl

/-- A factor is quiet. -/
theorem part_factor {branch : Grammar.Branch RuleName.Value Expression}
    (member : branch ∈ (grammar.rule .factor).branches)
    (reads : Reads Known text previous branch 0 0 occurrences) :
    Part false (fun _ => True) previous text := by
  rw [factor_branches] at member
  simp only [List.mem_cons, List.not_mem_nil, or_false] at member
  rcases member with rfl | rfl | rfl | rfl | rfl | rfl | rfl | rfl
  · exact part_of_nested (reads.last ⟨rfl, rfl⟩) rfl
  · exact part_of_nested (reads.last ⟨rfl, rfl⟩) rfl
  · exact (still_of_literal (reads.last ⟨rfl, rfl⟩) (by decide +kernel) (by decide +kernel)).part
  · exact (still_of_literal (reads.last ⟨rfl, rfl⟩) (by decide +kernel) (by decide +kernel)).part
  · exact (still_of_literal (reads.last ⟨rfl, rfl⟩) (by decide +kernel) (by decide +kernel)).part
  · obtain ⟨opened, rest, others, rfl, openedText, reads⟩ := reads.single ⟨rfl, rfl⟩
    obtain ⟨inner, closed, others, rfl, segment, reads⟩ := reads.single ⟨rfl, rfl⟩
    have part : Part false _ _ inner := part_of_nested segment rfl
    exact part_parentheses openedText (reads.last ⟨rfl, rfl⟩)
      fun tightest scan unquoted awaiting => part.steady tightest scan unquoted fun _ => awaiting
  · exact part_of_nested (reads.last ⟨rfl, rfl⟩) rfl
  · exact (still_of_word (reads.last ⟨rfl, rfl⟩)).part

/-- The branches of a call. -/
theorem call_branches : (grammar.rule .call).branches =
    [[nested .word .setName, .literal "(", .literal ")"],
      [nested .word .setName, .literal "(", nested .expression .addArgument,
        (nested .nextArgument .addArgument).many, .literal ")"],
      [(Grammar.Element.keyword "the").optional, nested .word .setName, .keyword "of",
        nested .factor .addArgument],
      [.keyword "the", nested .word .setName]] := rfl

/-- A call is quiet. -/
theorem part_call {branch : Grammar.Branch RuleName.Value PendingCall}
    (member : branch ∈ (grammar.rule .call).branches)
    (reads : Reads Known text previous branch 0 0 occurrences) :
    Part false (fun _ => True) previous text := by
  rw [call_branches] at member
  simp only [List.mem_cons, List.not_mem_nil, or_false] at member
  rcases member with rfl | rfl | rfl | rfl
  · obtain ⟨name, rest, others, rfl, nameText, reads⟩ := reads.single ⟨rfl, rfl⟩
    obtain ⟨opened, closed, others, rfl, openedText, reads⟩ := reads.single ⟨rfl, rfl⟩
    refine (still_of_word nameText).append ?_
    rw [← List.nil_append closed]
    exact part_parentheses openedText (reads.last ⟨rfl, rfl⟩)
      fun tightest scan unquoted _ => ⟨unquoted, rfl, fun _ => rfl⟩
  · obtain ⟨name, rest, others, rfl, nameText, reads⟩ := reads.single ⟨rfl, rfl⟩
    obtain ⟨opened, rest, others, rfl, openedText, reads⟩ := reads.single ⟨rfl, rfl⟩
    obtain ⟨argument, rest, others, rfl, segment, reads⟩ := reads.single ⟨rfl, rfl⟩
    cases reads with
    | @cons _ _ _ _ arguments closed _ _ _ _ _ repeats _ _ reads =>
      have first : Part false _ _ argument := part_of_nested segment rfl
      have part := first.append_repeats repeats
        (fun segment => part_of_nested segment rfl) rfl
      refine (still_of_word nameText).append ?_
      rw [← List.append_assoc argument]
      exact part_parentheses openedText (reads.last ⟨rfl, rfl⟩)
        fun tightest scan unquoted awaiting => part.steady tightest scan unquoted fun _ => awaiting
  · have named : ∀ {text previous index position occurrences},
        Reads Known text previous
          ([nested .word .setName, .keyword "of", nested .factor .addArgument] :
            Grammar.Branch RuleName.Value PendingCall)
          index position occurrences → Part false (fun _ => True) previous text := by
      intro text previous index position occurrences reads
      obtain ⟨name, rest, others, rfl, nameText, reads⟩ := reads.single ⟨rfl, rfl⟩
      obtain ⟨word, rest, others, rfl, wordText, reads⟩ := reads.single ⟨rfl, rfl⟩
      have part : Part false _ _ rest := part_of_nested (reads.last ⟨rfl, rfl⟩) rfl
      have still := still_of_literal wordText (by decide +kernel) (by decide +kernel)
      exact (still_of_word nameText).append (still.append part)
    rcases reads.optional rfl with reads | ⟨article, rest, others, rfl, articleText, reads⟩
    · exact named reads
    · have still := still_of_literal articleText (by decide +kernel) (by decide +kernel)
      exact still.append (named reads)
  · obtain ⟨article, rest, others, rfl, articleText, reads⟩ := reads.single ⟨rfl, rfl⟩
    have still := still_of_word (reads.last ⟨rfl, rfl⟩)
    exact (still_of_literal articleText (by decide +kernel) (by decide +kernel)).append still.part

end Rules

/-- What is known of the texts of the rules of expressions. -/
theorem known_of_matches {name : RuleName} {previous : Option UInt8} {text : List UInt8}
    (matched : grammar.Matches name previous text) : Known name previous text := by
  refine ⟨matched, ?_⟩
  refine Grammar.Matches.induction (motive := Regular) ?_ matched
  intro name previous text branch occurrences member reads inside nonempty apart
  cases name with
  | word =>
    obtain ⟨first, rest, rfl, letter, word⟩ := word_text member reads
    exact (still_word letter word).part
  | number =>
    obtain ⟨_, number⟩ := number_text member reads
    exact part_number nonempty number apart
  | string =>
    obtain ⟨content, rfl, inside⟩ := string_text member reads
    exact part_string inside
  | expression => exact part_expression member reads
  | factor => exact part_factor member reads
  | call => exact part_call member reads
  | nextArgument => exact part_nextArgument member reads
  | unary => exact part_unary member reads
  | level level => exact part_level member reads
  | tail level => exact part_tail member reads
  | _ => cases inside

end HyperCard.HyperTalk
