import HyperCard.Proofs.Script.Constants

/-!
# Scanning for operators

Where an expression ends is decided by the operators after it, so it must be known where a text
has operators between operands and how loose they are. A scan reads a text once from left to
right. It follows strings and parentheses, and it tells only two things apart: whether an operand
has just ended or not. After an operand any character but a parenthesis, a digit or a point begins
an operator, whose first character shows its level; before one, letters and signs belong to the
operand. The scan therefore knows nothing of the grammar, and what it finds in the texts of each
rule has to be proved.
-/
namespace HyperCard

namespace Character

/-- Opens a parenthesis. -/
abbrev opening : UInt8 := 0x28

/-- Closes a parenthesis. -/
abbrev closing : UInt8 := 0x29

/-- Divides the arguments of a function. -/
abbrev comma : UInt8 := 0x2C

end Character

namespace HyperTalk

open Grammar (before)

/-- The level of the operators that begin with a character, in any case. -/
def operatorLevel? (character : UInt8) : Option Level :=
  Level.all.find? fun level => level.operators.any fun entry =>
    (RomanString.encodeOrRaw entry.1).characters.head? == some (Character.toLower character)

/-- What a scan knows. -/
structure Scan where
  /-- How many parentheses are open. -/
  depth : Nat
  /-- Whether a string is open. -/
  quoted : Bool
  /-- Whether an operand has just ended. -/
  closed : Bool
  /-- How many operators outside parentheses were found. -/
  marks : Nat
  deriving DecidableEq, Repr

namespace Scan

/-- Read one character, and mark an operator of a level no tighter than the given one. -/
def step (tightest : Nat) (previous : Option UInt8) (scan : Scan) (character : UInt8) : Scan :=
  if scan.quoted then
    if character == Character.quote then { scan with quoted := false, closed := true } else scan
  else if Character.isBlank character || Character.joinsWord previous character then scan
  else if character == Character.quote then { scan with quoted := true }
  else if character == Character.opening then { scan with depth := scan.depth + 1, closed := false }
  else if character == Character.closing then { scan with depth := scan.depth - 1, closed := true }
  else if Character.isDigit character || character == Character.point then
    { scan with closed := true }
  else if scan.closed && scan.depth == 0 &&
      (operatorLevel? character).any (·.rank ≤ tightest) then
    { scan with closed := false, marks := scan.marks + 1 }
  else { scan with closed := false }

/-- Read a text. -/
def past (tightest : Nat) (previous : Option UInt8) (scan : Scan) : List UInt8 → Scan
  | [] => scan
  | character :: rest => past tightest (some character) (scan.step tightest previous character) rest

variable {tightest : Nat} {previous : Option UInt8} {scan : Scan}

/-- The empty text leaves a scan as it is. -/
@[simp] theorem past_nil : scan.past tightest previous [] = scan := rfl

/-- A text is read character by character. -/
theorem past_cons (character : UInt8) (rest : List UInt8) :
    scan.past tightest previous (character :: rest) =
      (scan.step tightest previous character).past tightest (some character) rest := rfl

/-- A text is read part by part. -/
theorem past_append (left right : List UInt8) :
    scan.past tightest previous (left ++ right) =
      (scan.past tightest previous left).past tightest (before previous left) right := by
  induction left generalizing scan previous with
  | nil => rfl
  | cons character left ih => exact ih

/-- Marks are never taken back. -/
theorem marks_le_step (character : UInt8) :
    scan.marks ≤ (scan.step tightest previous character).marks := by
  unfold step
  repeat' split
  all_goals simp

/-- Nor are they over a whole text. -/
theorem marks_le_past (text : List UInt8) :
    scan.marks ≤ (scan.past tightest previous text).marks := by
  induction text generalizing scan previous with
  | nil => exact Nat.le_refl _
  | cons character text ih => exact Nat.le_trans (marks_le_step character) ih

/-- Characters each of which leaves a scan as it is do so together. -/
theorem past_eq_self {keeps : Option UInt8 → Prop} (start : keeps previous) {text : List UInt8}
    (stays : ∀ character ∈ text, ∀ previous, keeps previous →
      scan.step tightest previous character = scan ∧ keeps (some character)) :
    scan.past tightest previous text = scan := by
  induction text generalizing previous with
  | nil => rfl
  | cons character text ih =>
    obtain ⟨same, kept⟩ := stays character (by simp) previous start
    rw [past_cons, same]
    exact ih kept fun other member => stays other (by simp [member])

/-- Blanks outside strings leave a scan as it is. -/
theorem past_blanks (unquoted : scan.quoted = false) {blanks : List UInt8}
    (blank : ∀ character ∈ blanks, Character.isBlank character) :
    scan.past tightest previous blanks = scan :=
  @past_eq_self _ _ _ (fun _ => True) trivial _ fun character member _ _ =>
    ⟨by simp [step, unquoted, blank character member], trivial⟩

/-- One space outside strings is passed over. -/
theorem past_space (unquoted : scan.quoted = false) (text : List UInt8) :
    scan.past tightest previous (Character.space :: text) =
      scan.past tightest (some Character.space) text := by
  have passed : scan.step tightest previous Character.space = scan := by
    simp [step, unquoted, Character.isBlank]
  rw [past_cons, passed]

/-- Whether a character neither is a parenthesis or a quote nor belongs to a number. -/
def isPlain (character : UInt8) : Bool :=
  !(character == Character.quote || character == Character.opening ||
    character == Character.closing || Character.isDigit character || character == Character.point)

/-- A blank is plain. -/
theorem isPlain_of_isBlank : ∀ character, Character.isBlank character →
    isPlain character = true :=
  forall_byte (by decide)

/-- Before an operand, plain characters leave a scan as it is. -/
theorem past_plain (unquoted : scan.quoted = false) (awaiting : scan.closed = false)
    {text : List UInt8} (plain : ∀ character ∈ text, isPlain character) :
    scan.past tightest previous text = scan := by
  refine @past_eq_self _ _ _ (fun _ => True) trivial _ fun character member _ _ => ⟨?_, trivial⟩
  have first := plain character member
  simp only [isPlain, Bool.not_eq_true', Bool.or_eq_false_iff] at first
  obtain ⟨depth, quoted, closed, marks⟩ := scan
  obtain rfl : quoted = false := unquoted
  obtain rfl : closed = false := awaiting
  simp [step, first]

/-- Letters and digits that go on with a word or number leave a scan as it is. -/
theorem past_joined (unquoted : scan.quoted = false)
    (joining : previous.any Character.isAlphanumeric) {text : List UInt8}
    (word : ∀ character ∈ text, Character.isAlphanumeric character) :
    scan.past tightest previous text = scan := by
  refine @past_eq_self _ _ _ (fun previous => previous.any Character.isAlphanumeric) joining _
    fun character member previous joining => ⟨?_, by simpa using word character member⟩
  simp [step, unquoted, Character.joinsWord, word character member, joining]

/-- Before an operand, a word leaves a scan as it is. -/
theorem past_word (unquoted : scan.quoted = false) (awaiting : scan.closed = false) {first : UInt8}
    {rest : List UInt8} (letter : Character.isLetter first)
    (word : ∀ character ∈ rest, Character.isAlphanumeric character) :
    scan.past tightest previous (first :: rest) = scan := by
  have plain : ∀ character, Character.isLetter character → isPlain character :=
    forall_byte (by decide)
  have begun : scan.past tightest previous [first] = scan :=
    past_plain unquoted awaiting (by simpa using plain first letter)
  rw [← List.singleton_append, past_append, begun]
  exact past_joined unquoted (by simpa using isAlphanumeric_of_isLetter first letter) word

/-- Characters between quotes leave a scan as it is. -/
theorem past_quoted (quoted : scan.quoted = true) {text : List UInt8}
    (inside : ∀ character ∈ text, character ≠ Character.quote) :
    scan.past tightest previous text = scan :=
  @past_eq_self _ _ _ (fun _ => True) trivial _ fun character member _ _ =>
    ⟨by simp [step, quoted, inside character member], trivial⟩

/-- Digits and points end as an operand. -/
theorem past_number (unquoted : scan.quoted = false) {first : UInt8} {rest : List UInt8}
    (apart : Character.joinsWord previous first = false)
    (number : ∀ character ∈ first :: rest,
      Character.isDigit character || character == Character.point) :
    scan.past tightest previous (first :: rest) = { scan with closed := true } := by
  have kind : ∀ character, (Character.isDigit character || character == Character.point) →
      Character.isBlank character = false ∧ (character == Character.quote) = false ∧
        (character == Character.opening) = false ∧ (character == Character.closing) = false :=
    forall_byte (by decide)
  have begun : scan.step tightest previous first = { scan with closed := true } := by
    have digit := number first (by simp)
    simp [step, unquoted, apart, kind first digit, digit]
  rw [past_cons, begun]
  refine @past_eq_self _ _ _ (fun _ => True) trivial _ fun character member _ _ => ⟨?_, trivial⟩
  have digit := number character (by simp [member])
  by_cases joined : Character.joinsWord previous character <;>
    simp [step, unquoted, kind character digit, digit]

/-- A quote opens a string. -/
theorem step_quote (unquoted : scan.quoted = false) :
    scan.step tightest previous Character.quote = { scan with quoted := true } := by
  have kind : Character.isBlank Character.quote = false ∧
      Character.isAlphanumeric Character.quote = false := by decide
  simp [step, unquoted, Character.joinsWord, kind]

/-- A string ends as an operand. -/
theorem past_string (unquoted : scan.quoted = false) {content : List UInt8}
    (inside : ∀ character ∈ content, character ≠ Character.quote) :
    scan.past tightest previous (Character.quote :: (content ++ [Character.quote])) =
      { scan with closed := true } := by
  rw [past_cons, step_quote unquoted, past_append, past_quoted rfl inside, past_cons, past_nil]
  simp [step, unquoted]

/-- An opening parenthesis. -/
theorem past_opening (unquoted : scan.quoted = false) :
    scan.past tightest previous [Character.opening] =
      { scan with depth := scan.depth + 1, closed := false } := by
  have kind : Character.isBlank Character.opening = false ∧
      Character.isAlphanumeric Character.opening = false ∧
      Character.opening ≠ Character.quote := by decide
  rw [past_cons, past_nil]
  simp only [step, unquoted, Character.joinsWord, kind, beq_eq_false_iff_ne.mpr, beq_self_eq_true,
    Bool.false_and, Bool.or_false, Bool.false_eq_true, ↓reduceIte, ne_eq, not_false_eq_true]

/-- A closing parenthesis ends as an operand. -/
theorem past_closing (unquoted : scan.quoted = false) :
    scan.past tightest previous [Character.closing] =
      { scan with depth := scan.depth - 1, closed := true } := by
  have kind : Character.isBlank Character.closing = false ∧
      Character.isAlphanumeric Character.closing = false ∧
      Character.closing ≠ Character.quote ∧ Character.closing ≠ Character.opening := by decide
  rw [past_cons, past_nil]
  simp only [step, unquoted, Character.joinsWord, kind, beq_eq_false_iff_ne.mpr, beq_self_eq_true,
    Bool.false_and, Bool.or_false, Bool.false_eq_true, ↓reduceIte, ne_eq, not_false_eq_true]

/-- After a comma an operand comes. -/
theorem past_comma (unquoted : scan.quoted = false) :
    scan.past tightest previous [Character.comma] = { scan with closed := false } := by
  have kind : Character.isBlank Character.comma = false ∧
      Character.isAlphanumeric Character.comma = false ∧
      Character.isDigit Character.comma = false ∧
      (Character.comma == Character.quote) = false ∧
      (Character.comma == Character.opening) = false ∧
      (Character.comma == Character.closing) = false ∧
      (Character.comma == Character.point) = false ∧
      operatorLevel? Character.comma = none := by decide +kernel
  rw [past_cons, past_nil]
  simp only [step, unquoted, Character.joinsWord, kind, Bool.false_and, Bool.or_self,
    Option.any_none, Bool.and_false, Bool.false_eq_true, ↓reduceIte]

/-- The first character of a loose operator after an operand is marked. -/
theorem marks_step_operator {symbol : UInt8} (unquoted : scan.quoted = false)
    (closed : scan.closed = true) (depth : scan.depth = 0)
    (solid : Character.isBlank symbol = false)
    (apart : Character.joinsWord previous symbol = false) (plain : isPlain symbol = true)
    (loose : (operatorLevel? symbol).any (·.rank ≤ tightest) = true) :
    (scan.step tightest previous symbol).marks = scan.marks + 1 := by
  simp only [isPlain, Bool.not_eq_true', Bool.or_eq_false_iff] at plain
  simp [step, unquoted, closed, depth, solid, apart, plain, loose]

end Scan
end HyperTalk
end HyperCard
