import HyperCard.Proofs.Bytes.Window
import HyperCard.Proofs.Grammar.Denotation
import HyperCard.Proofs.Script.Proper

/-!
# Words, numbers and strings

The rules without nested rules match one character after another, so their texts can be said at
once: a word is a letter with letters and digits after it, a number is digits with at most one
point, and a string is anything between two quotes that is neither a quote nor the end of a line.
-/
namespace HyperCard.HyperTalk

open Grammar (Segment Pattern Reads Branch Yields Proceeds)

section Texts

variable {language : Grammar.Language RuleName} {text : List UInt8} {previous : Option UInt8}
  {index position : Nat} {occurrences : List Grammar.Occurrence}

/-- No letter or digit is a blank. -/
theorem solid_of_isAlphanumeric : ∀ character, Character.isAlphanumeric character →
    Character.isBlank character = false :=
  forall_byte (by decide)

/-- A letter may stand anywhere in a word. -/
theorem isAlphanumeric_of_isLetter : ∀ character, Character.isLetter character →
    Character.isAlphanumeric character = true :=
  forall_byte (by decide)

/-- A word has letters and digits only. -/
theorem forall_isAlphanumeric {first : UInt8} {rest : List UInt8}
    (letter : Character.isLetter first)
    (word : ∀ character ∈ rest, Character.isAlphanumeric character) :
    ∀ character ∈ first :: rest, Character.isAlphanumeric character = true := by
  intro character member
  rcases List.mem_cons.mp member with rfl | member
  · exact isAlphanumeric_of_isLetter _ letter
  · exact word character member

/-- A word is a letter, then letters and digits. -/
theorem word_text {branch : Branch RuleName.Value Spelling}
    (member : branch ∈ (grammar.rule .word).branches)
    (reads : Reads language text previous branch index position occurrences) :
    ∃ first rest, text = first :: rest ∧ Character.isLetter first ∧
      ∀ character ∈ rest, Character.isAlphanumeric character := by
  obtain rfl := List.mem_singleton.mp member
  obtain ⟨letter, rest, others, rfl, segment, reads⟩ := reads.single ⟨rfl, rfl⟩
  cases segment with
  | @character _ _ _ first accepted =>
    refine ⟨first, rest, rfl, accepted, reads.accepted fun element inside => ?_⟩
    obtain rfl := List.mem_singleton.mp inside
    exact ⟨_, rfl, fun _ accepted => accepted⟩

/-- Where a word is read there is a letter with letters and digits after it. -/
theorem exists_word_of_segment {Value : Type} {update : Value → Spelling → Value}
    (segment : Segment grammar.Matches text previous
      (.nested .word update : Pattern RuleName.Value Value)) :
    ∃ blanks first rest, text = blanks ++ first :: rest ∧
      (∀ character ∈ blanks, Character.isBlank character) ∧ Character.isLetter first ∧
      ∀ character ∈ first :: rest, Character.isAlphanumeric character := by
  cases segment with
  | nested blank _ _ inner =>
    cases inner with
    | branch member reads =>
      obtain ⟨first, rest, same, letter, word⟩ := word_text member reads
      exact ⟨_, first, rest, by rw [same], blank, letter, forall_isAlphanumeric letter word⟩

/-- The branches of a number. -/
theorem number_branches : (grammar.rule .number).branches =
    [[(Grammar.Element.character Character.isDigit .push).oneOrMore],
      [(Grammar.Element.character Character.isDigit .push).oneOrMore,
        .character (· == Character.point) .push,
        (Grammar.Element.character Character.isDigit .push).many],
      [.character (· == Character.point) .push,
        (Grammar.Element.character Character.isDigit .push).oneOrMore]] := rfl

/-- The elements of a number are digits and points. -/
theorem number_sets {branch : Branch RuleName.Value Spelling}
    (member : branch ∈ (grammar.rule .number).branches)
    {element : Grammar.Element RuleName.Value Spelling} (inside : element ∈ branch) :
    element.pattern = .character ⟨Character.isDigit, .push⟩ ∨
      element.pattern = .character ⟨(· == Character.point), .push⟩ := by
  have sets : ∀ branch ∈ (grammar.rule .number).branches, ∀ element ∈ branch,
      element.pattern = .character ⟨Character.isDigit, .push⟩ ∨
        element.pattern = .character ⟨(· == Character.point), .push⟩ := by
    rw [number_branches]
    simp [Grammar.Element.character, Grammar.Element.once, Grammar.Element.many,
      Grammar.Element.oneOrMore, Grammar.Element.counts]
  exact sets branch member element inside

/-- A number is not empty and has digits and points only. -/
theorem number_text {branch : Branch RuleName.Value Spelling}
    (member : branch ∈ (grammar.rule .number).branches)
    (reads : Reads language text previous branch index position occurrences) :
    text ≠ [] ∧ ∀ character ∈ text,
      Character.isDigit character || character == Character.point := by
  constructor
  · rintro rfl
    have ends := (Grammar.reads_nil_iff.mp reads).2
    rw [number_branches] at member
    simp only [List.mem_cons, List.not_mem_nil, or_false] at member
    rcases member with rfl | rfl | rfl <;> cases ends
  · refine reads.accepted fun element inside => ?_
    rcases number_sets member inside with pattern | pattern
    · exact ⟨_, pattern, fun _ (digit : Character.isDigit _ = true) => by simp [digit]⟩
    · exact ⟨_, pattern, fun _ (point : (_ == Character.point) = true) => by simp [point]⟩

/-- No quote stands inside a string. -/
theorem ne_quote_of_isStringCharacter {character : UInt8}
    (inside : isStringCharacter character = true) : character ≠ Character.quote := by
  simp only [isStringCharacter, Bool.and_eq_true, bne_iff_ne] at inside
  exact inside.1

/-- A string is a text between quotes. -/
theorem string_text {branch : Branch RuleName.Value Spelling}
    (member : branch ∈ (grammar.rule .string).branches)
    (reads : Reads language text previous branch index position occurrences) :
    ∃ content, text = Character.quote :: (content ++ [Character.quote]) ∧
      ∀ character ∈ content, isStringCharacter character := by
  obtain rfl := List.mem_singleton.mp member
  obtain ⟨mark, rest, others, rfl, segment, reads⟩ := reads.single ⟨rfl, rfl⟩
  cases segment with
  | @character _ _ _ first accepted =>
    obtain rfl : first = Character.quote := by simpa using accepted
    obtain ⟨content, final, others, rfl, _, inside, reads⟩ := reads.exists_characters rfl
    obtain ⟨mark, rest, others, rfl, segment, reads⟩ := reads.single ⟨rfl, rfl⟩
    obtain rfl := reads.eq_nil_of_nil
    cases segment with
    | @character _ _ _ last accepted =>
      obtain rfl : last = Character.quote := by simpa using accepted
      exact ⟨content, rfl, inside⟩

end Texts

section Denotations

variable {previous : Option UInt8}

/-- Characters pushed one by one are spelled in order. -/
theorem foldl_push (characters : List UInt8) (spelling : Spelling) :
    characters.foldl Spelling.push spelling = ⟨characters.reverse ++ spelling.reversed⟩ := by
  induction characters generalizing spelling with
  | nil => rfl
  | cons character characters ih =>
    rw [List.foldl_cons, ih]
    simp [Spelling.push]

/-- A row of digits is spelled by them. -/
theorem digits_denote {digits : List UInt8} (nonempty : digits ≠ [])
    (isDigit : ∀ character ∈ digits, Character.isDigit character) :
    grammar.Denotes .number previous digits ⟨digits.reverse⟩ := by
  let branch : Branch RuleName.Value Spelling :=
    [(Grammar.Element.character Character.isDigit .push).oneOrMore]
  have value : digits.foldl Spelling.push Spelling.empty = ⟨digits.reverse⟩ := by
    simp [foldl_push, Spelling.empty]
  have yields : grammar.Yields branch branch (digits ++ []) previous 0 0 Spelling.empty
      ⟨digits.reverse⟩ := by
    refine Proceeds.yields (.characters rfl rfl rfl isDigit (by simp) ?_ ?_)
    · have := List.length_pos_iff.mpr nonempty
      change 1 ≤ 0 + digits.length
      omega
    · rw [← value]
      exact .nil
  rw [List.append_nil] at yields
  exact Yields.denotes 0 rfl (by simp) yields

/-- A text between quotes is spelled by what is between them. -/
theorem quotes_denote {content : List UInt8}
    (inside : ∀ character ∈ content, isStringCharacter character) :
    grammar.Denotes .string previous (Character.quote :: (content ++ [Character.quote]))
      ⟨content.reverse⟩ := by
  let mark : ElementOf Spelling := .character (· == Character.quote) skip
  let branch : Branch RuleName.Value Spelling :=
    [mark, (Grammar.Element.character isStringCharacter .push).many, mark]
  have value : content.foldl Spelling.push Spelling.empty = ⟨content.reverse⟩ := by
    simp [foldl_push, Spelling.empty]
  have yields : grammar.Yields branch branch
      ([Character.quote] ++ (content ++ [Character.quote])) previous 0 0 Spelling.empty
      ⟨content.reverse⟩ := by
    refine .single ⟨rfl, rfl⟩ rfl (.character (by decide)) .character ?_ ?_
    · intro other tail _ segment _
      cases segment
      exact Nat.le_refl _
    · refine Proceeds.yields (.characters rfl rfl rfl inside ?_ (Nat.zero_le _) ?_)
      · simp only [List.head?_cons, Option.mem_some_iff]
        rintro _ rfl
        decide
      · refine .last ⟨rfl, rfl⟩ rfl (.character (by decide)) ?_
        change Grammar.Updates _ _ _ _ (content.foldl Spelling.push Spelling.empty) _
        rw [value]
        exact .character
  exact Yields.denotes 0 rfl (by simp) yields

end Denotations

end HyperCard.HyperTalk
