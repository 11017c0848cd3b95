import HyperCard.Proofs.Script.Boundaries
import HyperCard.Proofs.Script.Readable

/-!
# Printing expressions

An expression is printed with parentheses around every operand and every argument. The text is read
as the same expression, for every expression that a text denotes, whatever words its functions and
variables are named by: the reading that is preferred is always the printed one.
-/
namespace HyperCard

/-- How an operator is printed. -/
def BinaryOperator.printed : BinaryOperator → String
  | .or => "or"
  | .and => "and"
  | .equal => "="
  | .unequal => "<>"
  | .lessThan => "<"
  | .greaterThan => ">"
  | .lessThanOrEqual => "<="
  | .greaterThanOrEqual => ">="
  | .contains => "contains"
  | .isIn => "is in"
  | .isNotIn => "is not in"
  | .concatenate => "&"
  | .concatenateWithSpace => "&&"
  | .add => "+"
  | .subtract => "-"
  | .multiply => "*"
  | .divide => "/"
  | .integerDivide => "div"
  | .modulo => "mod"
  | .power => "^"

namespace Expression

open HyperTalk (joined sign)

mutual

/-- An expression with parentheses around all operands and arguments. Numbers in the binary format
are left out. -/
def printed : Expression → List UInt8
  | .string content => Character.quote :: (content.characters ++ [Character.quote])
  | .word name => name.characters
  | .integer value => Written.decimal value
  | .real _ => []
  | .boolean value => (RomanString.encodeOrRaw (truthWord value)).characters
  | .unary operator operand =>
    (RomanString.encodeOrRaw (sign operator)).characters ++
      Character.space :: enclosed operand.printed
  | .binary operator left right =>
    joined (enclosed left.printed) operator.printed (enclosed right.printed)
  | .call name [] => name.characters ++ enclosed []
  | .call name [argument] =>
    (RomanString.encodeOrRaw "the ").characters ++ (name.characters ++
      ((RomanString.encodeOrRaw " of ").characters ++ enclosed argument.printed))
  | .call name (first :: second :: others) =>
    name.characters ++
      enclosed (enclosed first.printed ++ printedArguments (second :: others))

/-- Arguments after the first one. -/
def printedArguments : List Expression → List UInt8
  | [] => []
  | argument :: arguments =>
    Character.comma :: Character.space ::
      (enclosed argument.printed ++ printedArguments arguments)

end

end Expression

namespace HyperTalk

open Grammar (before Segment Reads Yields)
open Expression (enclosed)

section Calls

variable {Value : Type} {previous : Option UInt8} {first : UInt8} {name tail text : List UInt8}
  {expression : Expression}

/-- A call begins with a letter. -/
theorem not_matches_call {rest : List UInt8} (solid : Character.isBlank first = false)
    (other : Character.isLetter first = false) :
    ¬ grammar.Matches .call previous (first :: rest) := by
  have refused : ∀ character, Character.isBlank character = false →
      Character.isLetter character = false → Grammar.Literal.refuses
        ⟨.encodeOrRaw "the", true, fun (value : PendingCall) _ => value⟩ character = true :=
    forall_byte (by decide)
  intro matched
  cases matched with
  | branch member reads =>
    have inside := member
    rw [call_branches] at member
    simp only [List.mem_cons, List.not_mem_nil, or_false] at member
    rcases member with rfl | rfl | rfl | rfl
    · obtain ⟨_, _, _, whole, segment, _⟩ := reads.single ⟨rfl, rfl⟩
      exact not_segment_word solid other whole segment
    · obtain ⟨_, _, _, whole, segment, _⟩ := reads.single ⟨rfl, rfl⟩
      exact not_segment_word solid other whole segment
    · rcases reads.optional rfl with reads | ⟨_, _, _, whole, segment, _⟩
      · obtain ⟨_, _, _, whole, segment, _⟩ := reads.single ⟨rfl, rfl⟩
        exact not_segment_word solid other whole segment
      · have proper := proper_literal inside List.mem_cons_self rfl
        exact Grammar.not_segment_of_fails proper
          (Grammar.Literal.fails_of_refuses (refused first solid other) previous []) whole segment
    · exact not_reads_of_refuses inside ⟨rfl, rfl⟩ rfl (refused first solid other) _ reads

/-- A name and an opening parenthesis that are read stand next to each other. -/
theorem reads_after_name {update : Value → Spelling → Value}
    {following : Grammar.Branch RuleName.Value Value} {occurrences : List Grammar.Occurrence}
    (word : ∀ character ∈ first :: name, Character.isAlphanumeric character)
    (stops : ∀ next ∈ tail.head?, Character.isAlphanumeric next = false)
    (reads : Reads grammar.Matches ((first :: name) ++ tail) previous
      (nested .word update :: .literal "(" :: following) 0 0 occurrences) :
    ∃ gap more position others, tail = gap ++ Character.opening :: more ∧
      (∀ character ∈ gap, Character.isBlank character) ∧
      Reads grammar.Matches more (some Character.opening) following 2 position others := by
  obtain ⟨left, right, _, whole, segment, reads⟩ := reads.single ⟨rfl, rfl⟩
  obtain ⟨opened, more, others, rfl, symbol, reads⟩ := reads.single ⟨rfl, rfl⟩
  obtain ⟨gap, rfl, gapBlank⟩ := symbol_text symbol characters_opening rfl (by decide)
  obtain ⟨blanks, head, rest, rfl, blank, _, otherWord⟩ := exists_word_of_segment segment
  have solid := solid_of_isAlphanumeric first (word first List.mem_cons_self)
  have headSolid := solid_of_isAlphanumeric head (otherWord head List.mem_cons_self)
  have parts : [] ++ first :: (name ++ tail) =
      blanks ++ head :: (rest ++ (gap ++ Character.opening :: more)) := by simpa using whole
  obtain ⟨rfl, rfl, same⟩ := Grammar.blanks_append_inj (by simp) solid blank headSolid parts
  have between : ∀ next ∈ (gap ++ Character.opening :: more).head?,
      Character.isAlphanumeric next = false := by
    have kind : ∀ character, Character.isBlank character →
        Character.isAlphanumeric character = false := forall_byte (by decide)
    cases gap with
    | nil => simp [show Character.isAlphanumeric Character.opening = false by decide]
    | cons next gap => simpa using kind next (gapBlank next List.mem_cons_self)
  obtain ⟨_, rest⟩ := eq_of_append_eq
    (fun character member => word character (List.mem_cons_of_mem _ member))
    (fun character member => otherWord character (List.mem_cons_of_mem _ member)) stops between
    same
  have passed : ∀ previous, before previous (gap ++ [Character.opening]) =
      some Character.opening := by simp
  rw [passed] at reads
  exact ⟨gap, more, _, others, rest, gapBlank, reads⟩

/-- A factor that begins with a parenthesis is an expression in parentheses. -/
theorem eq_parenthesesBranch {rest : List UInt8}
    {branch : Grammar.Branch RuleName.Value Expression} {occurrences : List Grammar.Occurrence}
    (member : branch ∈ (grammar.rule .factor).branches)
    (reads : Reads grammar.Matches (Character.opening :: rest) previous branch 0 0 occurrences) :
    branch = parenthesesBranch := by
  have solid : Character.isBlank Character.opening = false := by decide
  have parts : branch ∈ (grammar.rule .factor).branches.take 5 ∨ branch = parenthesesBranch ∨
      branch = [nested .call fun _ call => call.expression] ∨
      branch = [nested .word fun _ name => .word name.text] := by
    rw [factor_branches] at member ⊢
    simpa [or_assoc, parenthesesBranch] using member
  rcases parts with earlier | same | rfl | rfl
  · exact absurd reads (not_reads_opening earlier occurrences)
  · exact same
  · exact absurd ((reads.last ⟨rfl, rfl⟩).matches_of_solid solid)
      (not_matches_call solid (by decide))
  · exact absurd (reads.last ⟨rfl, rfl⟩)
      (not_segment_word solid (by decide) (List.append_nil _).symm)

/-- An operand that begins with a parenthesis is a factor. -/
theorem factor_of_opening {rest : List UInt8}
    (matched : grammar.Matches .unary previous (Character.opening :: rest)) :
    grammar.Matches .factor previous (Character.opening :: rest) := by
  have starts : Character.opening ∈ operandStarts := by decide
  cases matched with
  | @branch _ _ _ branch occurrences member reads =>
    have listed := member
    rw [unary_branches] at member
    simp only [List.mem_cons, List.not_mem_nil, or_false] at member
    rcases member with rfl | rfl | rfl
    · exact absurd reads (not_reads_of_refuses listed ⟨rfl, rfl⟩ rfl
        (sign_refuses (.inl rfl) starts (by decide)) occurrences)
    · exact absurd reads (not_reads_of_refuses listed ⟨rfl, rfl⟩ rfl
        (sign_refuses (.inr rfl) starts (by decide)) occurrences)
    · exact (reads.last ⟨rfl, rfl⟩).matches_of_solid (by decide)

/-- What an operand in parentheses has between them. -/
theorem inside_of_enclosed {inner : List UInt8}
    (matched : grammar.Matches .unary previous (enclosed inner)) :
    ∃ text blanks, inner = text ++ blanks ∧
      (∀ character ∈ blanks, Character.isBlank character) ∧
      Segment grammar.Matches text (some Character.opening)
        (nested .expression replace : ElementOf Expression).pattern := by
  have solid : Character.isBlank Character.opening = false := by decide
  cases factor_of_opening matched with
  | branch member reads =>
    obtain rfl := eq_parenthesesBranch member reads
    obtain ⟨opened, rest, _, whole, openedText, reads⟩ := reads.single ⟨rfl, rfl⟩
    obtain ⟨text, closed, _, rfl, segment, reads⟩ := reads.single ⟨rfl, rfl⟩
    obtain ⟨others, rfl, otherBlank⟩ := symbol_text openedText characters_opening rfl (by decide)
    obtain ⟨blanks, rfl, blank⟩ :=
      symbol_text (reads.last ⟨rfl, rfl⟩) characters_closing rfl (by decide)
    have parts : [] ++ Character.opening :: (inner ++ [Character.closing]) =
        others ++ Character.opening :: (text ++ (blanks ++ [Character.closing])) := by
      simpa [enclosed] using whole
    obtain ⟨rfl, _, same⟩ :=
      Grammar.blanks_append_inj (by simp) solid otherBlank solid parts
    rw [← List.append_assoc] at same
    exact ⟨text, blanks, List.append_inj_left' same rfl, blank, segment⟩

/-- A name in front of parentheses is read as a negation only if they are around an expression. -/
theorem inside_of_not {inner : List UInt8} {occurrences : List Grammar.Occurrence}
    (word : ∀ character ∈ first :: name, Character.isAlphanumeric character)
    (reads : Reads grammar.Matches ((first :: name) ++ enclosed inner) previous notBranch 0 0
      occurrences) :
    ∃ text blanks, inner = text ++ blanks ∧
      (∀ character ∈ blanks, Character.isBlank character) ∧
      Segment grammar.Matches text (some Character.opening)
        (nested .expression replace : ElementOf Expression).pattern := by
  have solid := solid_of_isAlphanumeric first (word first List.mem_cons_self)
  have letters : (RomanString.encodeOrRaw "not").characters = [0x6E, 0x6F, 0x74] := by decide
  have alphanumeric : ∀ character, Character.toLower character ∈ [0x6E, 0x6F, 0x74] →
      Character.isAlphanumeric character = true := forall_byte (by decide)
  obtain ⟨left, right, _, whole, sign, reads⟩ := reads.single ⟨rfl, rfl⟩
  have operand := reads.last ⟨rfl, rfl⟩
  cases left with
  | nil => exact absurd rfl sign.ne_nil
  | cons head left =>
    obtain ⟨rfl, others⟩ := List.cons.inj whole
    have lower := map_toLower_of_segment sign rfl solid (by simp [letters]; decide)
    have signWord : ∀ character ∈ first :: left, Character.isAlphanumeric character := by
      intro character member
      refine alphanumeric character ?_
      have inside := List.mem_map_of_mem (f := Character.toLower) member
      rw [lower, letters] at inside
      exact inside
    have stops : ∀ next ∈ (enclosed inner).head?, Character.isAlphanumeric next = false := by
      simp [enclosed, show Character.isAlphanumeric Character.opening = false by decide]
    have begins : ∀ next ∈ right.head?, Character.isAlphanumeric next = false := by
      cases right with
      | nil => simp
      | cons next right =>
        rintro _ ⟨⟩
        by_contra inside
        have joined : (before previous (first :: left)).any Character.isAlphanumeric = true :=
          any_before (by simp) signWord
        exact not_segment_of_joined (fun _ same => by cases same) joined (by simpa using inside)
          operand
    obtain ⟨_, rfl⟩ := eq_of_append_eq
      (fun character member => word character (List.mem_cons_of_mem _ member))
      (fun character member => signWord character (List.mem_cons_of_mem _ member)) stops begins
      others
    exact inside_of_enclosed (operand.matches_of_solid (by decide))

/-- A call with parentheses in it that is not read as a negation is an expression. -/
theorem readable_of_call {rest : List UInt8} {call : PendingCall}
    (letter : Character.isLetter first) (opened : Character.opening ∈ rest)
    (positive : ∀ previous, Free previous → ∀ occurrences,
      ¬ Reads grammar.Matches (first :: rest) previous notBranch 0 0 occurrences)
    (denotes : ∀ previous, Free previous → grammar.Denotes .call previous (first :: rest) call) :
    Readable (first :: rest) call.expression := by
  have solid := solid_of_isLetter letter
  have plain : ∀ constant ∈ Expression.constants,
      ∀ character ∈ (RomanString.encodeOrRaw constant).characters,
        Scan.isPlain character = true := by decide +kernel
  refine readable_of_factor letter positive fun previous free => ?_
  have inner := denotes previous free
  refine Yields.denotes 6 rfl ?_ (.last ⟨rfl, rfl⟩ rfl
    (.of_matches solid (free.apart first) inner.matches) (.of_denotes solid inner))
  refine fun branch member => not_reads_before_call letter ?_ member
  intro constant listed update segment
  have inside := plain_of_segment segment (plain constant listed) Character.opening
    (List.mem_cons_of_mem _ opened)
  exact absurd inside (by decide)

/-- An argument in parentheses does not go on over a comma. -/
theorem length_argument_le {update : Value → Expression → Value} (blanks : List UInt8)
    {rest other : List UInt8} (readable : Readable text expression)
    (blank : ∀ character ∈ blanks, Character.isBlank character)
    (whole : (blanks ++ enclosed text) ++ Character.comma :: rest = other ++ tail)
    (segment : Segment grammar.Matches other previous
      (.nested .expression update : Grammar.Pattern RuleName.Value Value)) :
    other.length ≤ (blanks ++ enclosed text).length := by
  let scan : Scan := ⟨0, false, false, 0⟩
  have closes : (scan.past 0 previous (blanks ++ enclosed text)).quoted = false ∧
      (scan.past 0 previous (blanks ++ enclosed text)).closed = true ∧
      (scan.past 0 previous (blanks ++ enclosed text)).depth = scan.depth := by
    rw [Scan.past_append, Scan.past_blanks rfl blank]
    exact readable.past_enclosed rfl
  have refused : ∀ level : Level, ∀ entry ∈ level.operators, Grammar.Literal.refuses
      ⟨.encodeOrRaw entry.1, true, fun (value : Expression) _ => value⟩ Character.comma = true := by
    intro level
    cases level <;> decide +kernel
  have kind : Character.isAlphanumeric Character.comma = false := by decide
  have barred := @not_mayFollow_of_fails (before previous (blanks ++ enclosed text)) [] [] rest
    Character.comma (by simp) (by decide) (by simp [Character.joinsWord, kind]) (by decide)
    fun level entry listed => Grammar.Literal.fails_of_refuses (refused level entry listed) _ []
  exact length_le_of_not_mayFollow whole
    (orderly_of_nested (segment.mono fun _ _ _ => bounded_of_matches) rfl rfl)
    (solid_of_nested rfl segment) ⟨rfl, rfl⟩ closes (.inr barred)

/-- Arguments with a comma between them are no expression. -/
theorem not_segment_of_comma {update : Value → Expression → Value} {rest other blanks : List UInt8}
    (readable : Readable text expression)
    (blank : ∀ character ∈ blanks, Character.isBlank character)
    (whole : enclosed text ++ Character.comma :: rest = other ++ blanks) :
    ¬ Segment grammar.Matches other previous
      (.nested .expression update : Grammar.Pattern RuleName.Value Value) := by
  intro segment
  have bound : other.length ≤ (enclosed text).length :=
    length_argument_le [] readable (by simp) whole segment
  -- Since the expression ends before the comma, the comma would be one of the blanks.
  have inside : Character.comma ∈ blanks := by
    have after := congrArg (List.drop other.length) whole
    rw [List.drop_left, List.drop_append_of_le_length bound] at after
    rw [← after]
    simp
  exact absurd (blank Character.comma inside) (by decide)

/-- Parentheses around something that is in parentheses are not empty ones. -/
theorem not_reads_empty_call {inner : List UInt8} {update : Value → Spelling → Value}
    (word : ∀ character ∈ first :: name, Character.isAlphanumeric character)
    (occurrences : List Grammar.Occurrence) :
    ¬ Reads grammar.Matches ((first :: name) ++ enclosed (Character.opening :: inner)) previous
      [nested .word update, .literal "(", .literal ")"] 0 0 occurrences := by
  have solid : Character.isBlank Character.opening = false := by decide
  have closed : Character.isBlank Character.closing = false := by decide
  have kind : Character.isAlphanumeric Character.opening = false := by decide
  have none : ∀ character ∈ ([] : List UInt8), Character.isBlank character := by simp
  intro reads
  obtain ⟨gap, rest, _, _, same, gapBlank, reads⟩ :=
    reads_after_name word (by simp [enclosed, kind]) reads
  obtain ⟨blanks, rfl, blank⟩ :=
    symbol_text (reads.last ⟨rfl, rfl⟩) characters_closing rfl (by decide)
  obtain ⟨rfl, _, inner⟩ := Grammar.blanks_append_inj none solid gapBlank solid same
  obtain ⟨_, equal, _⟩ := Grammar.blanks_append_inj none solid blank closed inner
  exact absurd equal (by decide)

end Calls

section Arguments

variable {previous : Option UInt8} {first : UInt8} {name text : List UInt8}
  {expression : Expression}

/-- A further argument in parentheses, after a comma. -/
def furtherArgument (text : List UInt8) : List UInt8 :=
  Character.comma :: Character.space :: enclosed text

/-- The arguments after the first are printed one by one, each behind a comma. -/
theorem printedArguments_eq (arguments : List Expression) :
    Expression.printedArguments arguments =
      arguments.flatMap fun argument => furtherArgument argument.printed := by
  induction arguments with
  | nil => rfl
  | cons argument arguments ih =>
    rw [Expression.printedArguments, ih]
    rfl

/-- A further argument is read after its comma. -/
theorem furtherArgument_denotes (readable : Readable text expression) (free : Free previous) :
    grammar.Denotes .nextArgument previous (furtherArgument text) expression := by
  have divider : Character.isBlank Character.comma = false := by decide
  have solid : Character.isBlank Character.opening = false := by decide
  have argument := (readable.operand.readable (Nat.le_refl _)).denotes _ free_space
  change grammar.Denotes .nextArgument previous
    ([Character.comma] ++ Character.space :: enclosed text) expression
  exact Yields.denotes 0 rfl (by simp) (spaced_yields ⟨⟨rfl, rfl⟩, rfl, rfl⟩ rfl rfl
    characters_comma divider free solid argument rfl)

/-- A further argument is an expression after a comma. -/
theorem exists_comma_of_segment {Value : Type} {update : Value → Expression → Value}
    (segment : Segment grammar.Matches text previous
      (.nested .nextArgument update : Grammar.Pattern RuleName.Value Value)) :
    ∃ blanks right, text = blanks ++ Character.comma :: right ∧
      (∀ character ∈ blanks, Character.isBlank character) ∧
      Segment grammar.Matches right (some Character.comma)
        (nested .expression replace : ElementOf Expression).pattern := by
  cases segment with
  | @nested _ _ _ _ outer rest first outerBlank _ _ inner =>
    generalize whole : first :: rest = text at inner
    cases inner with
    | branch member reads =>
      obtain rfl := List.mem_singleton.mp member
      obtain ⟨comma, right, _, rfl, segment, reads⟩ := reads.single ⟨rfl, rfl⟩
      obtain ⟨blanks, rfl, blank⟩ := symbol_text segment characters_comma rfl (by decide)
      have argument := reads.last ⟨rfl, rfl⟩
      have passed : before (before previous outer) (blanks ++ [Character.comma]) =
          some Character.comma := by simp
      rw [passed] at argument
      refine ⟨outer ++ blanks, right, by simp, ?_, argument⟩
      intro character inside
      exact (List.mem_append.mp inside).elim (outerBlank character) (blank character)

/-- A further argument does not go on over the comma after it. -/
theorem length_furtherArgument_le {Value : Type} {update : Value → Expression → Value}
    {rest other tail : List UInt8} (readable : Readable text expression)
    (whole : furtherArgument text ++ Character.comma :: rest = other ++ tail)
    (segment : Segment grammar.Matches other previous
      (.nested .nextArgument update : Grammar.Pattern RuleName.Value Value)) :
    other.length ≤ (furtherArgument text).length := by
  have solid : Character.isBlank Character.comma = false := by decide
  have blank : ∀ character ∈ [Character.space], Character.isBlank character :=
    List.forall_mem_singleton.mpr (by decide)
  obtain ⟨blanks, right, rfl, otherBlank, argument⟩ := exists_comma_of_segment segment
  have parts : [] ++ Character.comma :: (([Character.space] ++ enclosed text) ++
      Character.comma :: rest) = blanks ++ Character.comma :: (right ++ tail) := by
    simpa [furtherArgument] using whole
  obtain ⟨rfl, _, same⟩ := Grammar.blanks_append_inj (by simp) solid otherBlank solid parts
  have bound := length_argument_le [Character.space] readable blank same argument
  simpa [furtherArgument] using bound

/-- The branch of a call for one argument or more. -/
def argumentsBranch : Grammar.Branch RuleName.Value PendingCall :=
  [nested .word .setName, .literal "(", nested .expression .addArgument,
    (nested .nextArgument .addArgument).many, .literal ")"]

/-- Further arguments are read one by one. -/
theorem arguments_proceed {arguments : List Expression}
    (readable : ∀ argument ∈ arguments, Readable argument.printed argument)
    (free : Free previous) (count position : Nat) (call : PendingCall) :
    grammar.Proceeds argumentsBranch (nested .nextArgument .addArgument).many [.literal ")"]
      ((arguments.flatMap fun argument => furtherArgument argument.printed) ++
        [Character.closing])
      previous 3 count position call (arguments.foldl PendingCall.addArgument call) := by
  induction arguments generalizing previous count position call with
  | nil =>
    refine .stop (Nat.zero_le _) (by simp [Grammar.Element.many, Grammar.Element.counts]) ?_
      (.last ⟨rfl, rfl⟩ rfl (Grammar.segment_literal_refl characters_closing (free.apart _))
        .literal)
    rintro _ ⟨left, right, _, whole, _, segment, _⟩
    obtain ⟨blanks, argument, rfl, _⟩ := exists_comma_of_segment segment
    rw [List.flatMap_nil, List.nil_append] at whole
    have inside : Character.comma ∈ [Character.closing] := by
      rw [whole]
      simp
    exact absurd inside (by decide)
  | cons argument arguments ih =>
    have here := readable argument List.mem_cons_self
    have others : ∀ argument ∈ arguments, Readable argument.printed argument :=
      fun other member => readable other (List.mem_cons_of_mem _ member)
    have denotes := furtherArgument_denotes here free
    have solid : Character.isBlank Character.comma = false := by decide
    have next : Free (before previous (furtherArgument argument.printed)) := by
      simp [furtherArgument, enclosed, Free]
      decide
    rw [List.flatMap_cons, List.append_assoc, List.foldl_cons]
    refine .more rfl (.of_matches solid (free.apart _) denotes.matches) (.of_denotes solid denotes)
      ?_ (ih others next _ _ _)
    rintro other tail whole segment ⟨_, continues⟩
    cases arguments with
    | nil =>
      -- The closing parenthesis takes the last character.
      have remains : tail ≠ [] := by
        rintro rfl
        rcases Grammar.continues_iff.mp continues with ⟨_, _, reads⟩ | begins
        · cases (Grammar.reads_nil_iff.mp reads).2
        · exact Grammar.not_begins_nil begins
      have lengths := congrArg List.length whole
      have positive := List.length_pos_iff.mpr remains
      simp only [List.flatMap_nil, List.nil_append, List.length_append, List.length_cons,
        List.length_nil] at lengths
      omega
    | cons second arguments =>
      rw [List.flatMap_cons, List.append_assoc] at whole
      exact length_furtherArgument_le here whole segment

end Arguments

section Names

variable {name : RomanString} {previous : Option UInt8} {first : UInt8} {rest : List UInt8}

/-- The name of a function: a word without capitals. -/
structure IsName (name : RomanString) : Prop where
  /-- It is a word. -/
  word : IsWord name
  /-- It has no capitals. -/
  small : ∀ character ∈ name.characters, Character.isCapital character = false

/-- A call of a name is spelled as the name. -/
theorem IsName.expression (isName : IsName name) (arguments : List Expression) :
    PendingCall.expression ⟨⟨name.characters.reverse⟩, arguments.reverse⟩ =
      .call name arguments := by
  have kept : name.characters.map Character.toLower = name.characters := by
    refine (List.map_congr_left fun character member => ?_).trans (List.map_id _)
    rw [Character.toLower, isName.small character member]
    rfl
  simp [PendingCall.expression, Spelling.text, RomanString.toLower, kept]

/-- Arguments are added in order. -/
theorem foldl_addArgument (arguments : List Expression) (call : PendingCall) :
    arguments.foldl PendingCall.addArgument call =
      ⟨call.name, arguments.reverse ++ call.reversedArguments⟩ := by
  induction arguments generalizing call with
  | nil => rfl
  | cons argument arguments ih =>
    rw [List.foldl_cons, ih]
    simp [PendingCall.addArgument]

/-- A name in front of a parenthesis is read as far as letters and digits go. -/
theorem name_yields (following : Grammar.Branch RuleName.Value PendingCall) (tail : List UInt8)
    {new : PendingCall} (letter : Character.isLetter first)
    (word : ∀ character ∈ rest, Character.isAlphanumeric character) (free : Free previous)
    (yields : ∀ position, grammar.Yields
      (nested .word .setName :: .literal "(" :: following) following tail
      (some Character.opening) 2 position ⟨⟨(first :: rest).reverse⟩, []⟩ new) :
    grammar.Yields (nested .word .setName :: .literal "(" :: following)
      (nested .word .setName :: .literal "(" :: following)
      ((first :: rest) ++ ([Character.opening] ++ tail)) previous 0 0 .empty new := by
  have kind : Character.isAlphanumeric Character.opening = false := by decide
  have solid := solid_of_isLetter letter
  have all := forall_isAlphanumeric letter word
  have denotes := @word_denotes previous _ _ letter word
  have apart : ∀ previous, Character.joinsWord previous Character.opening = false := by
    simp [Character.joinsWord, kind]
  have opened : ∀ previous, Segment grammar.Matches [Character.opening] previous
      (Grammar.Element.literal "(" : ElementOf PendingCall).pattern := fun previous =>
    Grammar.segment_literal_refl characters_opening (apart previous)
  refine .single ⟨rfl, rfl⟩ rfl (.of_matches solid (free.apart first) denotes.matches)
    (.of_denotes solid denotes) ?_ (.single ⟨rfl, rfl⟩ rfl (opened _) .literal ?_ ?_)
  · intro other tail whole segment _
    exact length_word_le [] (by simp) all (by simp [kind]) whole segment
  · intro other tail whole segment _
    have proper : Grammar.Literal.Proper
        (⟨.encodeOrRaw "(", false, fun value _ => value⟩ : Grammar.Literal PendingCall) :=
      ⟨_, _, characters_opening, by decide⟩
    exact (opened _).literal_length_le proper segment whole
  · exact yields _

/-- A name with empty parentheses is a call without arguments. -/
theorem readable_call_nil (isName : IsName name) :
    Readable (name.characters ++ enclosed []) (.call name []) := by
  obtain ⟨first, rest, characters, letter, word⟩ := isName.word
  have all := forall_isAlphanumeric letter word
  have expression := isName.expression []
  rw [characters] at expression ⊢
  rw [← expression]
  refine readable_of_call letter (by simp [enclosed]) ?_ fun previous free => ?_
  · intro previous _ occurrences reads
    obtain ⟨text, blanks, none, _, segment⟩ := inside_of_not all reads
    exact segment.ne_nil (List.append_eq_nil_iff.mp none.symm).1
  · refine Yields.denotes 0 rfl (by simp) (name_yields _ [Character.closing] letter word free
      fun position => ?_)
    exact .last ⟨rfl, rfl⟩ rfl (Grammar.segment_literal_refl characters_closing rfl) .literal

/-- The arguments between the parentheses are added to a call one by one. -/
theorem arguments_yield {argument second : Expression} {arguments : List Expression}
    (readable : ∀ other ∈ argument :: second :: arguments, Readable other.printed other)
    (position : Nat) (call : PendingCall) :
    grammar.Yields argumentsBranch (argumentsBranch.drop 2)
      ((enclosed argument.printed ++ Expression.printedArguments (second :: arguments)) ++
        [Character.closing])
      (some Character.opening) 2 position call
      ((argument :: second :: arguments).foldl PendingCall.addArgument call) := by
  have here := readable argument List.mem_cons_self
  have others : ∀ other ∈ second :: arguments, Readable other.printed other :=
    fun other member => readable other (List.mem_cons_of_mem _ member)
  have solid : Character.isBlank Character.opening = false := by decide
  have denotes := (here.operand.readable (Nat.le_refl _)).denotes _ free_opening
  have closed : Free (before (some Character.opening) (enclosed argument.printed)) := by
    simp [enclosed, Free]
    decide
  have proceeds := fun position =>
    arguments_proceed others closed 0 position (call.addArgument argument)
  rw [← printedArguments_eq] at proceeds
  rw [List.append_assoc, List.foldl_cons]
  refine .single ⟨rfl, rfl⟩ rfl (.of_matches solid rfl denotes.matches)
    (.of_denotes solid denotes) ?_ (proceeds _).yields
  intro other tail whole segment _
  rw [Expression.printedArguments] at whole
  exact length_argument_le [] here (by simp) whole segment

/-- A name with several arguments in parentheses is a call of them. -/
theorem readable_call_several {argument second : Expression} {arguments : List Expression}
    (isName : IsName name)
    (readable : ∀ other ∈ argument :: second :: arguments, Readable other.printed other) :
    Readable
      (name.characters ++ enclosed (enclosed argument.printed ++
        Expression.printedArguments (second :: arguments)))
      (.call name (argument :: second :: arguments)) := by
  obtain ⟨first, rest, characters, letter, word⟩ := isName.word
  have all := forall_isAlphanumeric letter word
  have expression := isName.expression (argument :: second :: arguments)
  rw [characters] at expression ⊢
  rw [← expression]
  refine readable_of_call letter (by simp [enclosed]) ?_ fun previous free => ?_
  · intro previous _ occurrences reads
    obtain ⟨text, blanks, whole, blank, segment⟩ := inside_of_not all reads
    rw [Expression.printedArguments] at whole
    exact not_segment_of_comma (readable argument List.mem_cons_self) blank whole segment
  · have added := foldl_addArgument (argument :: second :: arguments)
      ⟨⟨(first :: rest).reverse⟩, []⟩
    rw [List.append_nil] at added
    rw [← added]
    refine Yields.denotes 1 rfl ?_ (name_yields (argumentsBranch.drop 2) _ letter word free
      fun position => arguments_yield readable position _)
    intro branch member occurrences
    obtain rfl : branch = [nested .word .setName, .literal "(", .literal ")"] := by
      rw [call_branches] at member
      simpa using member
    exact not_reads_empty_call all occurrences

/-- The article before a name is not the name of a function that is called with parentheses. -/
theorem not_reads_article_call {tail : List UInt8}
    {following : Grammar.Branch RuleName.Value PendingCall} (letter : Character.isLetter first)
    (occurrences : List Grammar.Occurrence) :
    ¬ Reads grammar.Matches ([0x74, 0x68, 0x65] ++ (Character.space :: first :: tail)) previous
      (nested .word .setName :: .literal "(" :: following) 0 0 occurrences := by
  have blank : ∀ character ∈ [Character.space], Character.isBlank character :=
    List.forall_mem_singleton.mpr (by decide)
  intro reads
  obtain ⟨gap, more, _, _, same, gapBlank, _⟩ :=
    reads_after_name (by simp; decide) (by simp; decide) reads
  obtain ⟨_, rfl, _⟩ := Grammar.blanks_append_inj blank (solid_of_isLetter letter) gapBlank
    (by decide : Character.isBlank Character.opening = false) same
  exact absurd letter (by decide)

/-- The article, a name and an argument after the preposition denote a call of one argument. -/
theorem article_call_denotes {argument : Expression} (letter : Character.isLetter first)
    (word : ∀ character ∈ rest, Character.isAlphanumeric character) (free : Free previous)
    (readable : Readable argument.printed argument) :
    grammar.Denotes .call previous
      ([0x74, 0x68, 0x65] ++ ((Character.space :: first :: rest) ++
        ([Character.space, 0x6F, 0x66] ++ Character.space :: enclosed argument.printed)))
      ⟨⟨(first :: rest).reverse⟩, [argument]⟩ := by
  have article : (RomanString.encodeOrRaw "the").characters = [0x74, 0x68, 0x65] := by decide
  have preposition : (RomanString.encodeOrRaw "of").characters = [0x6F, 0x66] := by decide
  have properArticle : Grammar.Literal.Proper
      (⟨.encodeOrRaw "the", true, fun value _ => value⟩ : Grammar.Literal PendingCall) :=
    ⟨_, _, article, by decide⟩
  have properPreposition : Grammar.Literal.Proper
      (⟨.encodeOrRaw "of", true, fun value _ => value⟩ : Grammar.Literal PendingCall) :=
    ⟨_, _, preposition, by decide⟩
  have blank : ∀ character ∈ [Character.space], Character.isBlank character :=
    List.forall_mem_singleton.mpr (by decide)
  have solid := solid_of_isLetter letter
  have openingSolid : Character.isBlank Character.opening = false := by decide
  have articleSegment : Segment grammar.Matches [0x74, 0x68, 0x65] previous
      (Grammar.Element.keyword "the" : ElementOf PendingCall).pattern :=
    Grammar.segment_literal_refl article (free.apart _)
  have named := @word_denotes (some Character.space) _ _ letter word
  have factor := readable.factor free_space
  refine Yields.denotes 2 rfl ?_ (.present (Nat.zero_le _) rfl rfl articleSegment .literal ?_
    (.single ⟨rfl, rfl⟩ rfl (spaced_segment solid named.matches) (spaced_updates solid named) ?_
      (.single ⟨rfl, rfl⟩ rfl (spaced_literal preposition) .literal ?_
        (.last ⟨rfl, rfl⟩ rfl (spaced_segment openingSolid factor.matches)
          (spaced_updates openingSolid factor)))))
  · intro branch member occurrences
    rw [call_branches] at member
    simp only [List.take_succ_cons, List.take_zero, List.mem_cons, List.not_mem_nil, or_false]
      at member
    rcases member with rfl | rfl
    · exact not_reads_article_call letter occurrences
    · exact not_reads_article_call letter occurrences
  · intro other tail whole segment _
    exact articleSegment.literal_length_le properArticle segment whole
  · intro other tail whole segment _
    exact length_word_le [Character.space] blank (forall_isAlphanumeric letter word)
      (by simp; decide) whole segment
  · intro other tail whole segment _
    exact (spaced_literal preposition).literal_length_le properPreposition segment whole

/-- The article, a name and one argument in parentheses are a call of it. -/
theorem readable_call_single {argument : Expression} (isName : IsName name)
    (readable : Readable argument.printed argument) :
    Readable
      ((RomanString.encodeOrRaw "the ").characters ++ (name.characters ++
        ((RomanString.encodeOrRaw " of ").characters ++ enclosed argument.printed)))
      (.call name [argument]) := by
  have articleText : (RomanString.encodeOrRaw "the ").characters =
      [0x74, 0x68, 0x65, Character.space] := by decide
  have prepositionText : (RomanString.encodeOrRaw " of ").characters =
      [Character.space, 0x6F, 0x66, Character.space] := by decide
  obtain ⟨first, rest, characters, letter, word⟩ := isName.word
  have expression := isName.expression [argument]
  rw [articleText, prepositionText, characters]
  rw [characters] at expression
  rw [← expression]
  change Readable (0x74 :: ([0x68, 0x65] ++ ((Character.space :: first :: rest) ++
    ([Character.space, 0x6F, 0x66] ++ Character.space :: enclosed argument.printed)))) _
  refine readable_of_call (by decide) (by simp [enclosed]) ?_ fun previous free => ?_
  · intro previous _ occurrences
    have member : notBranch ∈ (grammar.rule .unary).branches :=
      List.mem_of_getElem? (i := 1) rfl
    exact not_reads_of_refuses member ⟨rfl, rfl⟩ rfl (by decide) occurrences
  · exact article_call_denotes letter word free readable

end Names

/-- A binary operator is written as it is printed. -/
theorem isSpelling_printed (operator : BinaryOperator) :
    IsSpelling operator operator.printed := by
  cases operator <;> decide

/-- A well-formed expression is read from its printed text. -/
theorem readable_printed {expression : Expression} (wellFormed : expression.WellFormed) :
    Readable expression.printed expression := by
  induction wellFormed with
  | string inside =>
    rw [Expression.printed]
    exact (operand_string inside).readable (Nat.le_refl _)
  | word word other =>
    rw [Expression.printed]
    exact readable_word word other
  | integer small =>
    rw [Expression.printed]
    exact (operand_integer small).readable (Nat.le_refl _)
  | boolean =>
    rw [Expression.printed]
    exact readable_boolean _
  | unary _ ih =>
    rw [Expression.printed]
    exact (operand_unary _ ih.operand).readable (Nat.le_refl _)
  | @binary operator _ _ _ _ leftIh rightIh =>
    rw [Expression.printed]
    have inside := operator.level.rank_lt
    have left := leftIh.operand.loosen (Nat.le_refl _) inside
    have right := rightIh.operand.loosen (Nat.le_refl _) inside
    have row := (Row.of_operand left).join (isSpelling_printed operator) right
    exact row.operand.readable (Nat.le_of_lt inside)
  | @call name arguments word small _ ih =>
    have isName : IsName name := ⟨word, small⟩
    match arguments with
    | [] =>
      rw [Expression.printed]
      exact readable_call_nil isName
    | [argument] =>
      rw [Expression.printed]
      exact readable_call_single isName (ih argument List.mem_cons_self)
    | argument :: second :: others =>
      rw [Expression.printed]
      exact readable_call_several isName ih

/-- **Printing.** What a text is read as, unless numbers in the binary format are in it, is well
formed, and its printed text is read as the same expression. -/
theorem parse_printed {text : RomanString} {expression : Expression}
    (parsed : parse .expression text = some expression) (whole : expression.hasReal = false) :
    expression.WellFormed ∧ parse .expression ⟨expression.printed⟩ = some expression := by
  have value := parsed
  rw [parse, Grammar.parse, Grammar.parse_go_eq] at value
  have denoted := (Grammar.settles grammar_proper _ _ _).denotes value
  have wellFormed : expression.WellFormed := sound_of_denotes denoted whole
  have readable := readable_printed wellFormed
  have free : Free none := rfl
  have part := readable.part free
  obtain ⟨first, rest, printed, solid⟩ := readable.starts
  refine ⟨wellFormed, Grammar.parse_eq_of_denotes grammar_proper ?_⟩
  rw [trimmed_eq_self (by simpa [printed] using solid) part.solid]
  exact readable.denotes none free

/-- A name that is a word of the language is read as a name again. -/
theorem parse_printed_reserved : ∃ expression,
    parse .expression (.encodeOrRaw "the OF of not(1, x)=empty") = some expression ∧
      expression.hasReal = false ∧
      expression.printed =
        (RomanString.encodeOrRaw "(the of of (not((1), (x)))) = (\"\")").characters ∧
      expression.WellFormed ∧ parse .expression ⟨expression.printed⟩ = some expression := by
  have checked : (parse .expression (.encodeOrRaw "the OF of not(1, x)=empty")).map
      (fun expression => (expression.hasReal, expression.printed)) =
        some (false,
          (RomanString.encodeOrRaw "(the of of (not((1), (x)))) = (\"\")").characters) := by
    decide +kernel
  obtain ⟨expression, parsed, same⟩ := Option.map_eq_some_iff.mp checked
  have whole : expression.hasReal = false := congrArg Prod.fst same
  have printed := congrArg Prod.snd same
  obtain ⟨wellFormed, again⟩ := parse_printed parsed whole
  exact ⟨expression, parsed, whole, printed, wellFormed, again⟩

end HyperTalk
end HyperCard
