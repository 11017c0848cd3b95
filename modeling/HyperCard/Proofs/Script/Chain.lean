import HyperCard.Proofs.Script.Operand

/-!
# Operands in a row

The operators of one level join operands from left to right. The preferred reading of such a row
is the intended one: an operand read in its place is not longer, because the operator after it
would be found by a scan where texts of the tighter levels have none, and an operator is read as
the intended one, because every spelling that the grammar prefers fails.
-/
namespace HyperCard.HyperTalk

open Grammar (before Segment Reads Updates Yields Proceeds)

variable {level : Level} {first : UInt8} {rest : List UInt8} {right : Expression}

/-- Where an operator stands between operands, no spelling listed before its own is written; the
word for equality also begins other operators and is left aside. -/
theorem earlier_fails {number : Nat} {entry earlier : String × BinaryOperator}
    (listed : level.operators[number]? = some entry) (spelled : entry.2 = .equal → entry.1 = "=")
    (before : earlier ∈ level.operators.take number) (starts : first ∈ operandStarts) :
    Grammar.Literal.fails
      ⟨.encodeOrRaw earlier.1, true,
        fun (tail : BinaryOperator × Expression) _ => (earlier.2, tail.2)⟩
      (.awaiting (some Character.space))
      ((RomanString.encodeOrRaw entry.1).characters ++ [Character.space, first]) = true := by
  have checked : level.operators.Pairwise fun earlier entry =>
      (entry.2 = .equal → entry.1 = "=") → ∀ first ∈ operandStarts,
        Grammar.Literal.fails
          ⟨.encodeOrRaw earlier.1, true,
            fun (tail : BinaryOperator × Expression) _ => (earlier.2, tail.2)⟩
          (.awaiting (some Character.space))
          ((RomanString.encodeOrRaw entry.1).characters ++ [Character.space, first]) = true := by
    cases level <;> decide +kernel
  obtain ⟨position, less, rfl⟩ := List.mem_take_iff_getElem.mp before
  obtain ⟨inside, rfl⟩ := List.getElem?_eq_some_iff.mp listed
  exact List.pairwise_iff_getElem.mp checked position number (by omega) inside (by omega) spelled
    first starts

/-- An operator and an operand are read as such. -/
theorem tail_denotes {number : Nat} {entry : String × BinaryOperator}
    (listed : level.operators[number]? = some entry) (spelled : entry.2 = .equal → entry.1 = "=")
    (starts : first ∈ operandStarts)
    (denotes : DenotesAt (level.rank + 1) (some Character.space) (first :: rest) right) :
    grammar.Denotes (.tail level) (some Character.space)
      ((RomanString.encodeOrRaw entry.1).characters ++ Character.space :: first :: rest)
      (entry.2, right) := by
  have solid := solid_of_mem_operandStarts starts
  obtain ⟨_, symbol, others, characters, proper, _⟩ :=
    operator_characters (List.mem_of_getElem? listed)
  let branch : String × BinaryOperator →
      Grammar.Branch RuleName.Value (BinaryOperator × Expression) := fun entry =>
    [.keywordWith entry.1 fun tail _ => (entry.2, tail.2),
      operand (fun tail right => (tail.1, right)) level]
  have branches : (grammar.rule (.tail level)).branches = level.operators.map branch := rfl
  have found : (grammar.rule (.tail level)).branches[number]? = some (branch entry) := by
    rw [branches, List.getElem?_map, listed]
    rfl
  refine Yields.denotes number found ?_ ?_
  · intro other member
    rw [branches, ← List.map_take] at member
    obtain ⟨earlier, before, rfl⟩ := List.mem_map.mp member
    have fails := earlier_fails listed spelled before starts
    have inside : branch earlier ∈ (grammar.rule (.tail level)).branches :=
      List.mem_map_of_mem (List.mem_of_mem_take before)
    have none : ∀ occurrences, ¬ Reads grammar.Matches
        (((RomanString.encodeOrRaw entry.1).characters ++ [Character.space, first]) ++ rest)
        (some Character.space) (branch earlier) 0 0 occurrences :=
      Grammar.not_reads_of_fails (proper_literal inside List.mem_cons_self rfl) ⟨rfl, rfl⟩ rfl
        fails
    simpa using none
  · rw [characters]
    cases level <;>
      exact spaced_yields ⟨⟨rfl, rfl⟩, rfl, rfl⟩ rfl rfl characters proper free_space solid denotes
        rfl

/-- Text that comes after an operand: nothing, or an operator of a level as loose as the given
one. -/
def Stops (tightest : Nat) (rest : List UInt8) : Prop :=
  rest = [] ∨ ∃ symbol more, rest = Character.space :: symbol :: more ∧
    Character.isBlank symbol = false ∧ Scan.isPlain symbol = true ∧
    (operatorLevel? symbol).any (·.rank ≤ tightest) = true

/-- A text that goes on beyond an operand, over the operator after it, has one mark more. -/
theorem length_le_of_marks {tightest : Nat} {previous : Option UInt8} {scan : Scan}
    {text rest other tail : List UInt8} (whole : text ++ rest = other ++ tail)
    (stops : Stops tightest rest)
    (unquoted : (scan.past tightest previous text).quoted = false)
    (closed : (scan.past tightest previous text).closed = true)
    (depth : (scan.past tightest previous text).depth = 0)
    (marks : (scan.past tightest previous other).marks ≤ (scan.past tightest previous text).marks)
    (solid : ∀ last ∈ other.getLast?, Character.isBlank last = false) :
    other.length ≤ text.length := by
  rcases List.append_eq_append_iff.mp whole with ⟨more, rfl, rfl⟩ | ⟨more, rfl, _⟩
  · cases more with
    | nil => simp
    | cons blank more =>
      rcases stops with empty | ⟨symbol, others, same, symbolSolid, plain, level⟩
      · cases empty
      · obtain ⟨rfl, others⟩ := List.cons.inj same
        cases more with
        | nil => exact absurd (solid _ List.getLast?_concat) (by decide)
        | cons next more =>
          obtain ⟨rfl, _⟩ := List.cons.inj others
          have apart : Character.joinsWord (before (before previous text) [Character.space])
              next = false := free_space.apart next
          have blank : ∀ character ∈ [Character.space], Character.isBlank character := by
            decide +kernel
          have marked := Scan.marks_step_operator unquoted closed depth symbolSolid apart plain
            level
          have kept := @Scan.marks_le_past tightest (some next)
            ((scan.past tightest previous text).step tightest
              (before (before previous text) [Character.space]) next) more
          rw [Scan.past_append, ← List.singleton_append, Scan.past_append,
            Scan.past_blanks unquoted blank, Scan.past_cons] at marks
          omega
  · simp

/-- An operator and its right operand. -/
structure Tail where
  /-- The operator with its spelling. -/
  entry : String × BinaryOperator
  /-- The right operand. -/
  right : Expression
  /-- How the operand is written. -/
  text : List UInt8

namespace Tail

/-- The operator and its operand, each after a space. -/
def characters (tail : Tail) : List UInt8 :=
  Character.space ::
    ((RomanString.encodeOrRaw tail.entry.1).characters ++ Character.space :: tail.text)

/-- The operator with both operands. -/
def join (left : Expression) (tail : Tail) : Expression := .binary tail.entry.2 left tail.right

/-- The operator belongs to a level, and its operand to the next one. -/
structure Fits (level : Level) (tail : Tail) : Prop where
  /-- The operator is one of the level. -/
  listed : tail.entry ∈ level.operators
  /-- Equality is written as a sign. -/
  spelled : tail.entry.2 = .equal → tail.entry.1 = "="
  /-- The operand stands for its expression. -/
  operand : Operand (level.rank + 1) tail.right tail.text

variable {tail : Tail}

/-- A tail that fits is read as its operator and operand. -/
theorem Fits.denotes (fits : tail.Fits level) :
    ∃ symbol others, tail.characters = Character.space :: symbol :: others ∧
      Character.isBlank symbol = false ∧ Scan.isPlain symbol = true ∧
      operatorLevel? symbol = some level ∧
      grammar.Denotes (.tail level) (some Character.space) (symbol :: others)
        (tail.entry.2, tail.right) := by
  obtain ⟨number, listed⟩ := List.mem_iff_getElem?.mp fits.listed
  obtain ⟨plain, symbol, others, characters, solid, found⟩ := operator_characters fits.listed
  obtain ⟨first, rest, text, starts⟩ := fits.operand.starts
  have denotes := fits.operand.denotes (some Character.space) free_space
  rw [text] at denotes
  have reading := tail_denotes listed fits.spelled starts denotes
  refine ⟨symbol, others ++ Character.space :: tail.text, ?_, solid, ?_, found, ?_⟩
  · rw [Tail.characters, characters]
    rfl
  · rw [characters] at plain
    simpa using (List.all_eq_true.mp plain) symbol (by simp)
  · rw [characters, ← text] at reading
    exact reading

/-- A tail that fits ends in an operand. -/
theorem Fits.closes (fits : tail.Fits level) (tightest : Nat) (previous : Option UInt8)
    (scan : Scan) (unquoted : scan.quoted = false) :
    (scan.past tightest previous tail.characters).quoted = false ∧
      (scan.past tightest previous tail.characters).closed = true := by
  obtain ⟨_, symbol, others, characters, _⟩ := operator_characters fits.listed
  have operator : Segment grammar.Matches (symbol :: others) (some Character.space)
      (.literal ⟨.encodeOrRaw tail.entry.1, true, fun value _ => value⟩ :
        Grammar.Pattern RuleName.Value Expression) :=
    Grammar.segment_literal_refl characters (free_space.apart symbol)
  have parts : tail.characters =
      Character.space :: ((symbol :: others) ++ (Character.space :: tail.text)) := by
    rw [Tail.characters, characters]
  rw [parts, Scan.past_space unquoted, Scan.past_append,
    past_operator fits.listed operator unquoted, Scan.past_space]
  · exact fits.operand.closes tightest _ _ free_space unquoted rfl
  · exact unquoted

end Tail

/-- A scan marks a tail of the level where an operand has just ended outside parentheses. -/
theorem marks_tail {Value : Type} {previous : Option UInt8} {text : List UInt8}
    {update : Value → BinaryOperator × Expression → Value}
    (segment : Segment grammar.Matches text previous
      (.nested (.tail level) update : Grammar.Pattern RuleName.Value Value)) (scan : Scan)
    (unquoted : scan.quoted = false) (closed : scan.closed = true) (depth : scan.depth = 0) :
    (∀ last ∈ text.getLast?, Character.isBlank last = false) ∧
      (scan.past level.rank previous text).depth = 0 ∧
      (scan.past level.rank previous text).marks = scan.marks + 1 := by
  cases segment with
  | nested blank solid apart inner =>
    cases inner with
    | branch member reads =>
      obtain ⟨nonempty, last, steady⟩ :=
        past_tail member (reads.mono fun _ _ _ => known_of_matches)
      have passed := steady level.rank scan unquoted
      refine ⟨solid_append nonempty last, ?_⟩
      rw [Scan.past_append, Scan.past_blanks unquoted blank]
      refine ⟨by rw [passed.depth, depth], ?_⟩
      rw [passed.marks (.inr (Nat.le_refl _))]
      simp [closed, depth]

/-- The rest of a row stops the operand before it. -/
theorem stops_of_fits {tails : List Tail} (fits : ∀ tail ∈ tails, tail.Fits level) :
    Stops level.rank (tails.flatMap Tail.characters) := by
  cases tails with
  | nil => exact .inl rfl
  | cons tail tails =>
    obtain ⟨symbol, others, characters, solid, plain, found, _⟩ :=
      (fits tail List.mem_cons_self).denotes
    refine .inr ⟨symbol, others ++ tails.flatMap Tail.characters, ?_, solid, plain, ?_⟩
    · rw [List.flatMap_cons, characters]
      rfl
    · simp [found]

/-- The branch of a level. -/
def levelBranch (level : Level) : Grammar.Branch RuleName.Value Expression :=
  [operand replace level,
    (nested (.tail level) fun left (operator, right) => .binary operator left right).many]

/-- A row of tails is read tail by tail. -/
theorem tails_proceed {tails : List Tail} (fits : ∀ tail ∈ tails, tail.Fits level)
    (previous : Option UInt8) (count position : Nat) (left : Expression) :
    grammar.Proceeds (levelBranch level)
      (nested (.tail level) fun left (operator, right) => .binary operator left right).many []
      (tails.flatMap Tail.characters) previous 1 count position left
      (tails.foldl Tail.join left) := by
  induction tails generalizing previous count position left with
  | nil =>
    refine .stop (Nat.zero_le _) (by simp [Grammar.Element.many, Grammar.Element.counts]) ?_ .nil
    exact fun occurrences => Grammar.not_begins_nil
  | cons tail tails ih =>
    have others : ∀ tail ∈ tails, tail.Fits level :=
      fun other member => fits other (List.mem_cons_of_mem _ member)
    have here := fits tail List.mem_cons_self
    obtain ⟨symbol, text, characters, solid, _, _, denotes⟩ := here.denotes
    have segment : Segment grammar.Matches tail.characters previous
        ((nested (.tail level) fun left (operator, right) =>
          .binary operator left right).many : ElementOf Expression).pattern := by
      rw [characters]
      exact spaced_segment solid denotes.matches
    have update : Updates grammar.Denotes tail.characters previous
        ((nested (.tail level) fun left (operator, right) =>
          .binary operator left right).many : ElementOf Expression).pattern left
        (Tail.join left tail) := by
      rw [characters]
      exact spaced_updates solid denotes
    rw [List.flatMap_cons, List.foldl_cons]
    refine .more rfl segment update ?_ (ih others _ _ _ _)
    -- A scan that starts where an operand has ended marks every tail once.
    intro other tail' whole again _
    let scan : Scan := ⟨0, false, true, 0⟩
    have closes := here.closes level.rank previous scan rfl
    obtain ⟨_, depth, marks⟩ := marks_tail segment scan rfl rfl rfl
    obtain ⟨ends, _, otherMarks⟩ := marks_tail again scan rfl rfl rfl
    exact length_le_of_marks whole (stops_of_fits others) closes.1 closes.2 depth
      (Nat.le_of_eq (by rw [marks, otherMarks])) ends

/-- An operand of the next level is read as one of a level. -/
theorem operand_read {Value : Type} (update : Value → Expression → Value) (old : Value)
    {previous : Option UInt8} (solid : Character.isBlank first = false)
    (free : Free previous) (denotes : DenotesAt (level.rank + 1) previous (first :: rest) right) :
    Segment grammar.Matches (first :: rest) previous (operand update level).pattern ∧
      Updates grammar.Denotes (first :: rest) previous (operand update level).pattern old
        (update old right) := by
  cases level <;>
    exact ⟨.of_matches solid (free.apart first) denotes.matches, .of_denotes solid denotes⟩

/-- Operands of the next level, joined by operators of a level, denote what they do when the
operators are applied from left to right. -/
theorem chain_denotes {expression : Expression} {text : List UInt8}
    (head : Operand (level.rank + 1) expression text) {tails : List Tail}
    (fits : ∀ tail ∈ tails, tail.Fits level) {previous : Option UInt8} (free : Free previous) :
    grammar.Denotes (.level level) previous (text ++ tails.flatMap Tail.characters)
      (tails.foldl Tail.join expression) := by
  obtain ⟨first, rest, rfl, starts⟩ := head.starts
  have single : (operand replace level).IsSingle := by cases level <;> exact ⟨rfl, rfl⟩
  have part : ∀ {text}, Segment grammar.Matches text previous (operand replace level).pattern →
      Part false (· ≤ level.rank) previous text :=
    fun segment => part_of_operand (segment.mono fun _ _ _ => known_of_matches)
  obtain ⟨segment, update⟩ := operand_read replace Expression.emptyText
    (solid_of_mem_operandStarts starts) free (head.denotes previous free)
  have found : (grammar.rule (.level level)).branches[0]? = some (levelBranch level) := rfl
  refine Yields.denotes 0 found (by simp) (.single single rfl segment update ?_
    (tails_proceed fits _ _ _ _).yields)
  -- A scan that starts before the operand marks nothing in it.
  intro other tail whole again _
  let scan : Scan := ⟨0, false, false, 0⟩
  have closes := head.closes level.rank previous scan free rfl rfl
  have here := (part segment).steady level.rank scan rfl fun _ => rfl
  have there := (part again).steady level.rank scan rfl fun _ => rfl
  refine length_le_of_marks whole (stops_of_fits fits) closes.1 closes.2 here.depth ?_
    (part again).solid
  exact Nat.le_of_eq (by
    rw [here.marks (.inr (Nat.le_refl _)), there.marks (.inr (Nat.le_refl _))])

end HyperCard.HyperTalk
