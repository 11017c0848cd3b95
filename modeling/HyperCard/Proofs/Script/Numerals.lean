import HyperCard.Proofs.Script.Readable

/-!
# Numbers as expressions

The texts of numbers are rows of digits with at most one point among them and at least one digit,
and every such text is an expression by itself: nothing else that an expression may begin with
begins with a digit or a point. Digits alone are a whole number as long as their value fits, and
every other number has the binary format, so no number is ever taken for a word.
-/
namespace HyperCard.HyperTalk

open Grammar (Branch Reads)

/-- The texts of numbers. -/
inductive IsNumeral : List UInt8 → Prop
  /-- Digits alone. -/
  | whole {digits : List UInt8} (nonempty : digits ≠ [])
    (isDigit : ∀ character ∈ digits, Character.isDigit character) : IsNumeral digits
  /-- Digits and a point before, among or behind them. -/
  | pointed {digits places : List UInt8} (nonempty : digits ++ places ≠ [])
    (isDigit : ∀ character ∈ digits, Character.isDigit character)
    (isPlace : ∀ character ∈ places, Character.isDigit character) :
    IsNumeral (digits ++ Character.point :: places)

variable {text digits places : List UInt8} {previous : Option UInt8}

section Matching

variable {following : Branch RuleName.Value Spelling} {element : ElementOf Spelling}
  {least index position : Nat}

/-- Digits are read by the element for them, before what the other elements read. -/
theorem exists_reads_digits (isDigit : ∀ character ∈ digits, Character.isDigit character)
    (enough : least ≤ digits.length)
    (others : ∀ previous index position, ∃ occurrences,
      Reads grammar.Matches text previous following index position occurrences) :
    ∃ occurrences, Reads grammar.Matches (digits ++ text) previous
      ((Grammar.Element.character Character.isDigit .push).counts least none :: following) index
      position occurrences := by
  apply Reads.characters rfl isDigit enough
  · intro most found
    cases found
  · exact others _ _ _

/-- So is the point. -/
theorem exists_reads_point (others : ∀ previous index position, ∃ occurrences,
      Reads grammar.Matches text previous following index position occurrences) :
    ∃ occurrences, Reads grammar.Matches (Character.point :: text) previous
      (.character (· == Character.point) .push :: following) index position occurrences := by
  rw [← List.singleton_append]
  apply Reads.characters rfl (by simp) (Nat.le_refl 1)
  · intro most found
    exact Nat.le_of_eq (Option.some.inj found)
  · exact others _ _ _

/-- Digits with nothing behind them are read by the last element of a branch. -/
theorem exists_reads_last (isDigit : ∀ character ∈ digits, Character.isDigit character)
    (enough : least ≤ digits.length) :
    ∃ occurrences, Reads grammar.Matches digits previous
      ([(Grammar.Element.character Character.isDigit .push).counts least none] :
        Branch RuleName.Value Spelling) index position occurrences := by
  rw [← List.append_nil digits]
  exact exists_reads_digits isDigit enough fun _ _ _ => ⟨[], .nil⟩

/-- The rule for numbers matches the texts of numbers. -/
theorem matches_number_iff : grammar.Matches .number previous text ↔ IsNumeral text := by
  constructor
  · intro matched
    cases matched with
    | branch member reads =>
      obtain ⟨digits, places, isDigit, isPlace, nonempty, written⟩ := number_shape member reads
      rcases written with ⟨rfl, rfl⟩ | rfl
      · rw [List.append_nil] at nonempty
        exact .whole nonempty isDigit
      · exact .pointed nonempty isDigit isPlace
  · -- Each branch is named by its place among those of the rule.
    have matched : ∀ (number : Nat) (branch : Branch RuleName.Value Spelling),
        (grammar.rule .number).branches[number]? = some branch →
        (∃ occurrences, Reads grammar.Matches text previous branch 0 0 occurrences) →
        grammar.Matches .number previous text := by
      intro number branch found ⟨occurrences, reads⟩
      exact .branch (List.mem_of_getElem? found) reads
    intro numeral
    cases numeral with
    | whole nonempty isDigit =>
      apply matched 0 _ rfl
      exact exists_reads_last isDigit (List.length_pos_iff.mpr nonempty)
    | @pointed digits places nonempty isDigit isPlace =>
      by_cases empty : digits = []
      · subst empty
        apply matched 2 _ rfl
        apply exists_reads_point
        intro _ _ _
        exact exists_reads_last isPlace (List.length_pos_iff.mpr nonempty)
      · apply matched 1 _ rfl
        apply exists_reads_digits isDigit (List.length_pos_iff.mpr empty)
        intro _ _ _
        apply exists_reads_point
        intro _ _ _
        exact exists_reads_last isPlace (Nat.zero_le _)

end Matching

section Parsing

/-- A number is spelled as it is written. -/
theorem IsNumeral.exists_denotes (numeral : IsNumeral text) :
    ∃ number, grammar.Denotes .number previous text number ∧ number.text = ⟨text⟩ := by
  have settled := Grammar.settles grammar_proper .number previous text
  cases found : grammar.valueAfter (grammar.start .number previous) text with
  | none => exact absurd (matches_number_iff.mpr numeral) (settled.not_matches found)
  | some number =>
    have denotes := settled.denotes found
    exact ⟨number, denotes, number_spelled denotes⟩

/-- A number is not empty, and each of its characters is a digit or a point. -/
theorem IsNumeral.characters (numeral : IsNumeral text) :
    text ≠ [] ∧
      ∀ character ∈ text, Character.isDigit character || character == Character.point := by
  cases (@matches_number_iff text none).mpr numeral with
  | branch member reads => exact number_text member reads

/-- A number is an expression. -/
theorem IsNumeral.parse_eq (numeral : IsNumeral text) :
    parse .expression ⟨text⟩ = some (numberLiteral ⟨text⟩) := by
  have kind : ∀ character, (Character.isDigit character || character == Character.point) →
      Character.isBlank character = false ∧ ∀ sign ∈ ["-", "not"], Grammar.Literal.refuses
        ⟨.encodeOrRaw sign, true, fun (value : Expression) _ => value⟩ character = true :=
    forall_byte (by decide +kernel)
  obtain ⟨nonempty, characters⟩ := numeral.characters
  have solid : ∀ character ∈ text, Character.isBlank character = false :=
    fun character member => (kind character (characters character member)).1
  apply Grammar.parse_eq_of_denotes grammar_proper
  rw [trimmed_eq_self (fun first found => solid first (List.mem_of_mem_head? found))
    fun last found => solid last (List.mem_of_mem_getLast? found)]
  obtain ⟨number, denotes, spelled⟩ := @IsNumeral.exists_denotes text none numeral
  cases text with
  | nil => exact absurd rfl nonempty
  | cons first rest =>
    have here := kind first (characters first List.mem_cons_self)
    have free : Free none := rfl
    have factor := factor_of_number here.1 free denotes
    rw [spelled] at factor
    exact expression_of_unary here.1 free (unary_of_unsigned here.1 free here.2 factor)

end Parsing

section Values

/-- Every number has a value in the binary format. -/
theorem IsNumeral.exists_real (numeral : IsNumeral text) :
    ∃ value, Written.real? ⟨text⟩ = some value := by
  cases numeral with
  | whole nonempty isDigit =>
    have none : ∀ character ∈ ([] : List UInt8), Character.isDigit character := by simp
    apply HyperTalk.exists_real isDigit none
    · rw [List.append_nil]
      exact nonempty
    · exact .inl ⟨rfl, rfl⟩
  | pointed nonempty isDigit isPlace =>
    exact HyperTalk.exists_real isDigit isPlace nonempty (.inr rfl)

/-- A number is no word. -/
theorem IsNumeral.numberLiteral_ne_word (numeral : IsNumeral text) (name : RomanString) :
    numberLiteral ⟨text⟩ ≠ .word name := by
  obtain ⟨real, found⟩ := numeral.exists_real
  rw [numberLiteral, found]
  cases Written.whole? ⟨text⟩ with
  | some value => exact Expression.noConfusion
  | none => exact Expression.noConfusion

/-- A number with a point is not whole. -/
theorem whole?_pointed : Written.whole? ⟨digits ++ Character.point :: places⟩ = none := by
  have point : Character.isDigit Character.point = false := by decide
  rw [Written.whole?, List.all_append, List.all_cons, point, Bool.false_and, Bool.and_false,
    Bool.and_false]
  rfl

end Values

/-- **Numbers.** Digits alone are read as the whole number that they stand for, zeros in front
included, if it is not too great, and as a number in the binary format otherwise; so are digits with
a point. What the rule for numbers matches is never taken for a word. -/
theorem parse_numerals :
    (∀ digits : List UInt8, digits ≠ [] →
      (∀ character ∈ digits, Character.isDigit character) →
      (Written.decimalValue digits ≤ Written.greatestWhole →
        parse .expression ⟨digits⟩ = some (.integer (Written.decimalValue digits))) ∧
      (Written.greatestWhole < Written.decimalValue digits →
        ∃ value, Written.real? ⟨digits⟩ = some value ∧
          parse .expression ⟨digits⟩ = some (.real value))) ∧
    (∀ digits places : List UInt8, digits ++ places ≠ [] →
      (∀ character ∈ digits ++ places, Character.isDigit character) →
      ∃ value, Written.real? ⟨digits ++ Character.point :: places⟩ = some value ∧
        parse .expression ⟨digits ++ Character.point :: places⟩ = some (.real value)) ∧
    ∀ previous text number,
      (grammar.feedAll (grammar.start .number previous) text).value = some number →
      number.text = ⟨text⟩ ∧ ∀ name, numberLiteral number.text ≠ .word name := by
  refine ⟨fun digits nonempty isDigit => ?_, fun digits places nonempty isDigit => ?_,
    fun previous text number found => ?_⟩
  · have numeral : IsNumeral digits := .whole nonempty isDigit
    rw [numeral.parse_eq, numberLiteral, Written.whole?_eq nonempty isDigit]
    constructor
    · intro small
      rw [if_pos small]
    · intro great
      rw [if_neg (Nat.not_le_of_lt great)]
      obtain ⟨value, found⟩ := numeral.exists_real
      exact ⟨value, found, by rw [found]⟩
  · have numeral : IsNumeral (digits ++ Character.point :: places) :=
      .pointed nonempty (fun character member => isDigit character (List.mem_append_left _ member))
        fun character member => isDigit character (List.mem_append_right _ member)
    obtain ⟨value, found⟩ := numeral.exists_real
    refine ⟨value, found, ?_⟩
    rw [numeral.parse_eq, numberLiteral, whole?_pointed, found]
  · have denotes := (Grammar.settles grammar_proper .number previous text).denotes found
    have spelled := number_spelled denotes
    rw [spelled]
    exact ⟨rfl, (matches_number_iff.mp denotes.matches).numberLiteral_ne_word⟩

/-- Zeros in front do not make the greatest whole number too great, and the next number is. A point
may come first, and it may come last. -/
theorem parse_numerals_boundary :
    parse .expression ⟨[0x30, 0x30, 0x32, 0x31, 0x34, 0x37, 0x34, 0x38, 0x33, 0x36, 0x34, 0x37]⟩ =
      some (.integer 2147483647) ∧
    (∃ value, parse .expression ⟨[0x32, 0x31, 0x34, 0x37, 0x34, 0x38, 0x33, 0x36, 0x34, 0x38]⟩ =
      some (.real value)) ∧
    (∃ value, parse .expression ⟨[Character.point, 0x35]⟩ = some (.real value)) ∧
    (grammar.feedAll (grammar.start .number none) [0x35, Character.point]).value =
      some ⟨[Character.point, 0x35]⟩ ∧
    ∀ name, numberLiteral ⟨[0x35, Character.point]⟩ ≠ .word name := by
  have matched : (grammar.feedAll (grammar.start .number none) [0x35, Character.point]).value =
      some ⟨[Character.point, 0x35]⟩ := by decide +kernel
  refine ⟨?_, ?_, ?_, matched, (parse_numerals.2.2 none _ _ matched).2⟩
  · exact (parse_numerals.1 _ (by decide) (by decide +kernel)).1 (by decide +kernel)
  · obtain ⟨value, _, parsed⟩ :=
      (parse_numerals.1 [0x32, 0x31, 0x34, 0x37, 0x34, 0x38, 0x33, 0x36, 0x34, 0x38] (by decide)
        (by decide +kernel)).2 (by decide +kernel)
    exact ⟨value, parsed⟩
  · obtain ⟨value, _, parsed⟩ := parse_numerals.2.1 [] [0x35] (by decide) (by decide +kernel)
    exact ⟨value, parsed⟩

end HyperCard.HyperTalk
