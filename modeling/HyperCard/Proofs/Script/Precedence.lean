import HyperCard.Proofs.Script.Chain

/-!
# Precedence of operators

A tree of operators is rendered with parentheses only where an operator is looser than its place
allows. The left operand of an operator stands at the level of the operator, the right one at the
next level, and the operand of a sign beyond all levels. Read as an expression, any such text gives
the tree back: at each level the operators on the left spine of the tree are the row of tails that
the rule of the level reads.
-/
namespace HyperCard

/-- The level that an operator belongs to. -/
def BinaryOperator.level : BinaryOperator → Level
  | .or => .or
  | .and => .and
  | .equal | .unequal | .lessThan | .greaterThan | .lessThanOrEqual | .greaterThanOrEqual
  | .contains | .isIn | .isNotIn => .comparison
  | .concatenate | .concatenateWithSpace => .concatenation
  | .add | .subtract => .additive
  | .multiply | .divide | .integerDivide | .modulo => .multiplicative
  | .power => .exponent

/-- No two levels have the same place. -/
theorem Level.rank_injective {one other : Level} (same : one.rank = other.rank) : one = other := by
  cases one <;> cases other <;> first | rfl | cases same

/-- Each of the seven places has a level. -/
theorem Level.exists_rank (rank : Nat) (bound : rank < 7) : ∃ level : Level, level.rank = rank := by
  have listed : ∀ rank < 7, ∃ level ∈ Level.all, level.rank = rank := by decide
  obtain ⟨level, _, found⟩ := listed rank bound
  exact ⟨level, found⟩

/-- There are no other places. -/
theorem Level.rank_lt (level : Level) : level.rank < 7 := by
  cases level <;> decide

namespace HyperTalk

open Grammar (before)

/-- A way to write an operator: one of its spellings, but a sign for equality, since the word for it
begins other operators. -/
def IsSpelling (operator : BinaryOperator) (spelling : String) : Prop :=
  (spelling, operator) ∈ operator.level.operators ∧ (operator = .equal → spelling = "=")

instance (operator : BinaryOperator) (spelling : String) :
    Decidable (IsSpelling operator spelling) :=
  inferInstanceAs (Decidable (_ ∧ _))

/-- An expression of operators over whole numbers and strings that can be written down. -/
def IsOperatorTree : Expression → Prop
  | .integer value => value ≤ Written.greatestWhole
  | .string content => ∀ character ∈ content.characters, isStringCharacter character
  | .unary _ operand => IsOperatorTree operand
  | .binary _ left right => IsOperatorTree left ∧ IsOperatorTree right
  | _ => False

/-- Operands with an operator between them, one space around it. -/
def joined (left : List UInt8) (spelling : String) (right : List UInt8) : List UInt8 :=
  left ++ Character.space ::
    ((RomanString.encodeOrRaw spelling).characters ++ Character.space :: right)

/-- A text renders an expression where only operators of some level or tighter ones may stand
without parentheses. -/
inductive Renders : (rank : Nat) → Expression → List UInt8 → Prop
  /-- A number by its digits. -/
  | integer {rank value} : Renders rank (.integer value) (Written.decimal value)
  /-- A string between quotes. -/
  | string {rank content} : Renders rank (.string content)
      (Character.quote :: (content.characters ++ [Character.quote]))
  /-- A sign before its operand. -/
  | unary {rank operator operand text} : Renders unaryRank operand text →
      Renders rank (.unary operator operand)
        ((RomanString.encodeOrRaw (sign operator)).characters ++ Character.space :: text)
  /-- An operator that is tight enough for its place. -/
  | binary {rank operator left right spelling leftText rightText} :
      rank ≤ operator.level.rank → IsSpelling operator spelling →
      Renders operator.level.rank left leftText →
      Renders (operator.level.rank + 1) right rightText →
      Renders rank (.binary operator left right) (joined leftText spelling rightText)
  /-- An operator that is too loose for its place. -/
  | parentheses {rank operator left right text} : operator.level.rank < rank →
      Renders 0 (.binary operator left right) text →
      Renders rank (.binary operator left right)
        (Character.opening :: (Character.space :: text ++ [Character.space, Character.closing]))

/-- Every operator can be written. -/
theorem exists_spelling (operator : BinaryOperator) : ∃ spelling, IsSpelling operator spelling := by
  have listed : ∃ entry ∈ operator.level.operators,
      entry.2 = operator ∧ (operator = .equal → entry.1 = "=") := by
    cases operator <;> decide
  obtain ⟨⟨spelling, _⟩, member, rfl, sign⟩ := listed
  exact ⟨spelling, member, sign⟩

/-- Every tree of operators can be written at every place. -/
theorem exists_renders {expression : Expression} (tree : IsOperatorTree expression) (rank : Nat) :
    ∃ text, Renders rank expression text := by
  have wrap : ∀ {operator left right}, (∃ text, Renders 0 (.binary operator left right) text) →
      operator.level.rank < rank → ∃ text, Renders rank (.binary operator left right) text :=
    fun ⟨_, renders⟩ loose => ⟨_, .parentheses loose renders⟩
  match expression, tree with
  | .integer _, _ => exact ⟨_, .integer⟩
  | .string _, _ => exact ⟨_, .string⟩
  | .unary _ operand, tree =>
    obtain ⟨_, renders⟩ := @exists_renders operand tree unaryRank
    exact ⟨_, .unary renders⟩
  | .binary operator left right, tree =>
    obtain ⟨_, leftRenders⟩ := @exists_renders left tree.1 operator.level.rank
    obtain ⟨_, rightRenders⟩ := @exists_renders right tree.2 (operator.level.rank + 1)
    obtain ⟨_, spelling⟩ := exists_spelling operator
    by_cases tight : rank ≤ operator.level.rank
    · exact ⟨_, .binary tight spelling leftRenders rightRenders⟩
    · exact wrap ⟨_, .binary (Nat.zero_le _) spelling leftRenders rightRenders⟩ (by omega)

section Operand

variable {rank : Nat} {expression : Expression} {text : List UInt8} {level : Level}

/-- What the rule of a level denotes. -/
theorem denotesAt_level (level : Level) :
    DenotesAt level.rank = grammar.Denotes (.level level) := by
  cases level <;> rfl

/-- An operand that joins operands of the next level, one or more. -/
def Row (level : Level) (expression : Expression) (text : List UInt8) : Prop :=
  ∃ (head : Expression) (headText : List UInt8) (tails : List Tail),
    Operand (level.rank + 1) head headText ∧ (∀ tail ∈ tails, tail.Fits level) ∧
      text = headText ++ tails.flatMap Tail.characters ∧ expression = tails.foldl Tail.join head

/-- One operand alone is a row. -/
theorem Row.of_operand (operand : Operand (level.rank + 1) expression text) :
    Row level expression text :=
  ⟨expression, text, [], operand, by simp, by simp, rfl⟩

/-- A row ends in an operand. -/
theorem closes_tails {tails : List Tail} (fits : ∀ tail ∈ tails, tail.Fits level)
    (tightest : Nat) (previous : Option UInt8) (scan : Scan) (unquoted : scan.quoted = false)
    (closed : scan.closed = true) :
    (scan.past tightest previous (tails.flatMap Tail.characters)).quoted = false ∧
      (scan.past tightest previous (tails.flatMap Tail.characters)).closed = true := by
  induction tails generalizing previous scan with
  | nil => exact ⟨unquoted, closed⟩
  | cons tail tails ih =>
    have here := (fits tail List.mem_cons_self).closes tightest previous scan unquoted
    have others : ∀ tail ∈ tails, tail.Fits level :=
      fun other member => fits other (List.mem_cons_of_mem _ member)
    rw [List.flatMap_cons, Scan.past_append]
    exact ih others _ _ here.1 here.2

/-- A row is an operand of its level. -/
theorem Row.operand (row : Row level expression text) : Operand level.rank expression text := by
  obtain ⟨head, headText, tails, operand, fits, rfl, rfl⟩ := row
  refine ⟨?_, ?_, ?_⟩
  · obtain ⟨first, rest, rfl, starts⟩ := operand.starts
    exact ⟨first, _, rfl, starts⟩
  · intro tightest previous scan free unquoted awaiting
    have closes := operand.closes tightest previous scan free unquoted awaiting
    rw [Scan.past_append]
    exact closes_tails fits _ _ _ closes.1 closes.2
  · intro previous free
    rw [denotesAt_level]
    exact chain_denotes operand fits free

/-- An operand stands at looser places too. -/
theorem Operand.loosen {tight : Nat} (bound : tight ≤ unaryRank) (loose : rank ≤ tight)
    (operand : Operand tight expression text) : Operand rank expression text := by
  induction tight with
  | zero =>
    obtain rfl : rank = 0 := by omega
    exact operand
  | succ tight ih =>
    by_cases same : rank = tight + 1
    · rw [same]
      exact operand
    · obtain ⟨level, rfl⟩ := Level.exists_rank tight bound
      exact ih (Nat.le_of_succ_le bound) (by omega) (Row.of_operand operand).operand

/-- A number ends as an operand does. -/
theorem operand_integer {value : Nat} (small : value ≤ Written.greatestWhole) :
    Operand unaryRank (.integer value) (Written.decimal value) := by
  have digits := Written.isDigit_decimal value
  cases whole : Written.decimal value with
  | nil => exact absurd whole (Written.decimal_ne_nil value)
  | cons first rest =>
    rw [whole] at digits
    have kind : ∀ character, Character.isDigit character →
        character ∈ operandStarts ∧ character ≠ Character.hyphen ∧ character ≠ 0x6E :=
      forall_byte (by decide)
    obtain ⟨starts, unsigned⟩ := kind first (digits first List.mem_cons_self)
    refine ⟨⟨first, rest, rfl, starts⟩, ?_, ?_⟩
    · intro tightest previous scan free unquoted _
      rw [Scan.past_number unquoted (free.apart first) fun character member => by
        simp [digits character member]]
      exact ⟨unquoted, rfl⟩
    · intro previous free
      have denotes := integer_denotes small free
      rw [whole] at denotes
      exact unary_of_factor starts unsigned free denotes

/-- A string in quotes is an operand. -/
theorem operand_string {content : RomanString}
    (inside : ∀ character ∈ content.characters, isStringCharacter character) :
    Operand unaryRank (.string content)
      (Character.quote :: (content.characters ++ [Character.quote])) := by
  have starts : Character.quote ∈ operandStarts := by decide
  have unquote : ∀ character ∈ content.characters, character ≠ Character.quote :=
    fun character member => ne_quote_of_isStringCharacter (inside character member)
  refine ⟨⟨_, _, rfl, starts⟩, ?_, ?_⟩
  · intro tightest previous scan _ unquoted _
    rw [Scan.past_string unquoted unquote]
    exact ⟨unquoted, rfl⟩
  · intro previous free
    exact unary_of_factor starts (by decide) free (string_denotes inside free)

/-- A sign with a space and an operand behind it is an operand. -/
theorem operand_unary (operator : UnaryOperator) (operand : Operand unaryRank expression text) :
    Operand unaryRank (.unary operator expression)
      ((RomanString.encodeOrRaw (sign operator)).characters ++ Character.space :: text) := by
  have characters : ∃ first rest,
      (RomanString.encodeOrRaw (sign operator)).characters = first :: rest ∧
        first ∈ operandStarts ∧ ∀ character ∈ first :: rest, Scan.isPlain character := by
    cases operator
    · exact ⟨Character.hyphen, [], by decide +kernel⟩
    · exact ⟨0x6E, [0x6F, 0x74], by decide +kernel⟩
  obtain ⟨first, rest, characters, starts, plain⟩ := characters
  obtain ⟨inner, others, rfl, innerStarts⟩ := operand.starts
  refine ⟨⟨first, rest ++ Character.space :: inner :: others, by rw [characters]; rfl, starts⟩,
    ?_, ?_⟩
  · intro tightest previous scan _ unquoted awaiting
    rw [characters, Scan.past_append, Scan.past_plain unquoted awaiting plain,
      Scan.past_space unquoted]
    exact operand.closes _ _ _ free_space unquoted awaiting
  · intro previous free
    exact sign_denotes operator innerStarts free (operand.denotes _ free_space)

/-- In parentheses every expression is an operand. -/
theorem operand_parentheses (operand : Operand 0 expression text) :
    Operand unaryRank expression
      (Character.opening :: (Character.space :: text ++ [Character.space, Character.closing])) := by
  have starts : Character.opening ∈ operandStarts := by decide
  obtain ⟨first, rest, rfl, inner⟩ := operand.starts
  refine ⟨⟨_, _, rfl, starts⟩, ?_, ?_⟩
  · intro tightest previous scan _ unquoted _
    have parts : Character.opening ::
        (Character.space :: (first :: rest) ++ [Character.space, Character.closing]) =
        [Character.opening] ++ (Character.space :: ((first :: rest) ++
          (Character.space :: [Character.closing]))) := rfl
    have opened : ({ scan with depth := scan.depth + 1, closed := false } : Scan).quoted = false :=
      unquoted
    have closes := operand.closes tightest (some Character.space) _ free_space opened rfl
    rw [parts, Scan.past_append, Scan.past_opening unquoted, Scan.past_space opened,
      Scan.past_append, Scan.past_space closes.1, Scan.past_closing closes.1]
    exact ⟨closes.1, rfl⟩
  · intro previous free
    exact unary_of_factor starts (by decide) free
      (parentheses_denote inner free
        (expression_denotes inner free_space (operand.denotes _ free_space)))

/-- An operator goes on with the row of its left operand. -/
theorem Row.join {operator : BinaryOperator} {left right : Expression}
    {leftText rightText : List UInt8} {spelling : String}
    (row : Row operator.level left leftText) (spelled : IsSpelling operator spelling)
    (operand : Operand (operator.level.rank + 1) right rightText) :
    Row operator.level (.binary operator left right) (joined leftText spelling rightText) := by
  obtain ⟨head, headText, tails, headOperand, fits, rfl, rfl⟩ := row
  let tail : Tail := ⟨(spelling, operator), right, rightText⟩
  have last : tail.Fits operator.level := ⟨spelled.1, spelled.2, operand⟩
  refine ⟨head, headText, tails ++ [tail], headOperand, ?_, ?_, ?_⟩
  · intro other member
    rcases List.mem_append.mp member with member | member
    · exact fits other member
    · rw [List.mem_singleton.mp member]
      exact last
  · simp [joined, Tail.characters, tail]
  · simp [Tail.join, tail]

/-- A rendered tree of operators stands at its place. -/
theorem operand_of_renders (renders : Renders rank expression text)
    (tree : IsOperatorTree expression) (bound : rank ≤ unaryRank) :
    Operand rank expression text ∧ ∀ level, level.rank = rank → Row level expression text := by
  -- An operand beyond all levels stands anywhere.
  have anywhere : ∀ {rank expression text}, rank ≤ unaryRank → Operand unaryRank expression text →
      Operand rank expression text ∧
        ∀ level : Level, level.rank = rank → Row level expression text :=
    fun bound operand => ⟨operand.loosen (Nat.le_refl _) bound, fun level _ =>
      .of_operand (operand.loosen (Nat.le_refl _) level.rank_lt)⟩
  induction renders with
  | integer => exact anywhere bound (operand_integer tree)
  | string => exact anywhere bound (operand_string tree)
  | unary _ ih => exact anywhere bound (operand_unary _ (ih tree (Nat.le_refl _)).1)
  | parentheses _ _ ih => exact anywhere bound (operand_parentheses (ih tree (Nat.zero_le _)).1)
  | @binary rank operator _ _ _ _ _ tight spelled _ _ leftIh rightIh =>
    have inside := operator.level.rank_lt
    have row := (leftIh tree.1 (Nat.le_of_lt inside)).2 operator.level rfl
    have whole := row.join spelled (rightIh tree.2 inside).1
    have operand := whole.operand
    refine ⟨operand.loosen (Nat.le_of_lt inside) tight, fun level same => ?_⟩
    by_cases equal : level.rank = operator.level.rank
    · rw [Level.rank_injective equal]
      exact whole
    · exact .of_operand (operand.loosen (Nat.le_of_lt inside) (by omega))

/-- Text that begins and ends in no blank is trimmed. -/
theorem trimmed_eq_self (first : ∀ first ∈ text.head?, Character.isBlank first = false)
    (last : ∀ last ∈ text.getLast?, Character.isBlank last = false) :
    (RomanString.trimmed ⟨text⟩).characters = text := by
  have kept : ∀ {text : List UInt8}, (∀ first ∈ text.head?, Character.isBlank first = false) →
      RomanString.dropBlanks text = text := by
    intro text first
    cases text with
    | nil => rfl
    | cons character rest =>
      have solid := first character rfl
      exact List.dropWhile_cons_of_neg (by simp [solid])
  have reversed : ∀ first ∈ text.reverse.head?, Character.isBlank first = false := by
    rw [List.head?_reverse]
    exact last
  simp only [RomanString.trimmed, RomanString.dropFinalBlanks]
  rw [kept first, kept reversed, List.reverse_reverse]

end Operand

/-- **Precedence and associativity.** A tree of operators can be rendered, and however it is
rendered with the parentheses it needs, it is read as the same tree. -/
theorem parse_of_renders {expression : Expression} (tree : IsOperatorTree expression) :
    (∃ text, Renders 0 expression text) ∧
      ∀ text, Renders 0 expression text → parse .expression ⟨text⟩ = some expression := by
  refine ⟨exists_renders tree 0, ?_⟩
  intro text renders
  have operand := (operand_of_renders renders tree (Nat.zero_le _)).1
  obtain ⟨first, rest, rfl, starts⟩ := operand.starts
  have free : Free none := rfl
  have denotes := expression_denotes starts free (operand.denotes none free)
  have regular := (known_of_matches denotes.matches).2 rfl (List.cons_ne_nil _ _)
    fun other same => by simpa using free.apart other
  have solid := solid_of_mem_operandStarts starts
  refine Grammar.parse_eq_of_denotes grammar_proper ?_
  rw [trimmed_eq_self (by simpa using solid) regular.solid]
  exact denotes

/-- A sign before a difference is not read as a call, and is tighter than a power. -/
theorem parse_of_renders_nested :
    parse .expression (.encodeOrRaw "not ( 1 - ( 2 - 3 ) ) ^ \"a\"") =
      some (.binary .power
        (.unary .not (.binary .subtract (.integer 1) (.binary .subtract (.integer 2) (.integer 3))))
        (.string ⟨[0x61]⟩)) := by
  have inner : Renders 5 (.binary .subtract (.integer 2) (.integer 3)) _ :=
    .parentheses (by decide) (.binary (by decide) (by decide : IsSpelling _ "-") .integer .integer)
  have outer : Renders unaryRank (.binary .subtract (.integer 1) _) _ :=
    .parentheses (by decide) (.binary (by decide) (by decide : IsSpelling _ "-") .integer inner)
  have whole : Renders 0 (.binary .power (.unary .not _) (.string ⟨[0x61]⟩)) _ :=
    .binary (by decide) (by decide : IsSpelling _ "^") (.unary outer) .string
  have tree : IsOperatorTree (.binary .power (.unary .not (.binary .subtract (.integer 1)
      (.binary .subtract (.integer 2) (.integer 3)))) (.string ⟨[0x61]⟩)) := by
    simp only [IsOperatorTree]
    decide +kernel
  exact (parse_of_renders tree).2 _ whole

end HyperTalk
end HyperCard
