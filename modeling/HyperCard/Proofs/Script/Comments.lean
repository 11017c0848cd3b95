import HyperCard.Proofs.Script.Statements

/-!
# Comments that stay in statements

Comments are looked for in one line after the other: two hyphens begin a comment where an even
number of quotes stands before them in their line. A statement is the text of joined lines, in which
the quotes of the earlier lines count, too. So hyphens that stand within quotes in their line stand
outside of quotes in the statement where the earlier lines leave a quote open, and only there.
-/
namespace HyperCard

namespace Statement

/-- Whether a text ends within quotes, which it may also start in. -/
def quotedAfter (quoted : Bool) (text : List UInt8) : Bool :=
  (quoted.toNat + text.count Character.quote) % 2 == 1

/-- Whether two hyphens stand outside quotes in a text, which may start within quotes. -/
def HasComment (quoted : Bool) (text : List UInt8) : Prop :=
  ∃ index, commentsAt quoted text index = true

/-- Whether a line has two hyphens and the lines before it leave a quote open. -/
def UncoversHyphens (quoted : Bool) (codes : List (List UInt8)) : Prop :=
  ∃ before code after, codes = before ++ code :: after ∧
    quotedAfter quoted before.flatten = true ∧ [Character.hyphen, Character.hyphen] <:+: code

section Quotes

variable {quoted : Bool} {character : UInt8} {text : List UInt8}

/-- The empty text leaves quotes as they were. -/
theorem quotedAfter_nil (quoted : Bool) : quotedAfter quoted [] = quoted := by
  cases quoted <;> rfl

/-- A text after another starts within quotes if the first one ends within them. -/
theorem quotedAfter_append (quoted : Bool) (text rest : List UInt8) :
    quotedAfter quoted (text ++ rest) = quotedAfter (quotedAfter quoted text) rest := by
  have parity : (quotedAfter quoted text).toNat =
      (quoted.toNat + text.count Character.quote) % 2 := by
    unfold quotedAfter
    obtain even | odd := Nat.mod_two_eq_zero_or_one (quoted.toNat + text.count Character.quote)
    · rw [even]
      rfl
    · rw [odd]
      rfl
  rw [quotedAfter, quotedAfter, parity, List.count_append, ← Nat.add_assoc, Nat.mod_add_mod]

/-- A text that starts on the other side of a quote ends on the other side. -/
theorem quotedAfter_not (quoted : Bool) (text : List UInt8) :
    quotedAfter (!quoted) text = !quotedAfter quoted text := by
  have next : (1 + text.count Character.quote) % 2 = 1 - text.count Character.quote % 2 := by omega
  obtain even | odd := Nat.mod_two_eq_zero_or_one (text.count Character.quote)
  · cases quoted <;> simp [quotedAfter, next, even]
  · cases quoted <;> simp [quotedAfter, next, odd]

/-- A quote changes sides, and no other character does. -/
theorem quotedAfter_singleton :
    quotedAfter quoted [character] = if character == Character.quote then !quoted else quoted := by
  rw [quotedAfter, List.count_singleton]
  cases character == Character.quote <;> cases quoted <;> rfl

/-- A comment begins where an even number of quotes stands before two hyphens. -/
theorem commentsAt_eq (quoted : Bool) (text : List UInt8) (index : Nat) :
    commentsAt quoted text index = (text[index]? == some Character.hyphen &&
      text[index + 1]? == some Character.hyphen && !quotedAfter quoted (text.take index)) := by
  rw [commentsAt, quotedAfter]
  obtain even | odd :=
    Nat.mod_two_eq_zero_or_one (quoted.toNat + (text.take index).count Character.quote)
  · rw [even]
    rfl
  · rw [odd]
    rfl

end Quotes

section Texts

variable {quoted : Bool} {character : UInt8} {text rest : List UInt8}

/-- The empty text has no comment. -/
theorem not_hasComment_nil : ¬HasComment quoted [] :=
  fun ⟨_, comments⟩ => nomatch comments

/-- A comment begins a text if the text starts outside quotes with two hyphens. -/
theorem commentsAt_zero : commentsAt quoted (character :: text) 0 = true ↔
    quoted = false ∧ character = Character.hyphen ∧ text.head? = some Character.hyphen := by
  rw [commentsAt_eq, List.take_zero, quotedAfter_nil, List.head?_eq_getElem?]
  simp [and_comm]

/-- Two hyphens stand outside quotes at the start of a text or behind its first character. -/
theorem hasComment_cons : HasComment quoted (character :: text) ↔
    (quoted = false ∧ character = Character.hyphen ∧ text.head? = some Character.hyphen) ∨
      HasComment (quotedAfter quoted [character]) text := by
  rw [quotedAfter_singleton, ← commentsAt_zero]
  constructor
  · rintro ⟨index, comments⟩
    cases index with
    | zero => exact .inl comments
    | succ index => exact .inr ⟨index, commentsAt_succ index ▸ comments⟩
  · rintro (comments | ⟨index, comments⟩)
    · exact ⟨0, comments⟩
    · exact ⟨index + 1, (commentsAt_succ index).trans comments⟩

/-- What stands outside quotes in two texts one after the other, unless it stands in both. -/
theorem hasComment_append
    (apart : text.getLast? = some Character.hyphen → rest.head? ≠ some Character.hyphen) :
    HasComment quoted (text ++ rest) ↔
      HasComment quoted text ∨ HasComment (quotedAfter quoted text) rest := by
  induction text generalizing quoted with
  | nil =>
    rw [List.nil_append, quotedAfter_nil]
    exact (or_iff_right not_hasComment_nil).symm
  | cons character text ih =>
    have split : quotedAfter quoted (character :: text) =
        quotedAfter (quotedAfter quoted [character]) text :=
      quotedAfter_append quoted [character] text
    have head : character = Character.hyphen →
        ((text ++ rest).head? = some Character.hyphen ↔ text.head? = some Character.hyphen) := by
      rintro rfl
      cases text with
      | nil => exact iff_of_false (apart rfl) (nomatch ·)
      | cons next text => rfl
    have later := @ih (quotedAfter quoted [character]) fun last => by
      apply apart
      cases text with
      | nil => cases last
      | cons next text => exact last
    rw [List.cons_append, hasComment_cons, hasComment_cons, later, split, or_assoc]
    exact or_congr_left (and_congr_right fun _ => and_congr_right head)

/-- A character at the end that is no hyphen changes nothing. -/
theorem hasComment_concat (differs : character ≠ Character.hyphen) :
    HasComment quoted (text ++ [character]) ↔ HasComment quoted text := by
  have apart : [character].head? ≠ some Character.hyphen :=
    fun same => differs (Option.some.inj same)
  rw [hasComment_append fun _ => apart]
  apply or_iff_left
  rw [hasComment_cons]
  rintro (⟨_, same, _⟩ | later)
  · exact differs same
  · exact not_hasComment_nil later

/-- What a text begins with has two hyphens outside quotes only if the text has. -/
theorem HasComment.append_right (comments : HasComment quoted text) :
    HasComment quoted (text ++ rest) := by
  induction text generalizing quoted with
  | nil => exact absurd comments not_hasComment_nil
  | cons character text ih =>
    rw [List.cons_append, hasComment_cons]
    obtain ⟨outside, first, second⟩ | later := hasComment_cons.mp comments
    · exact .inl ⟨outside, first, by rw [List.head?_append, second]; rfl⟩
    · exact .inr (ih later)

/-- Two hyphens stand in a text. -/
theorem hyphens_iff : [Character.hyphen, Character.hyphen] <:+: text ↔
    ∃ index, text[index]? = some Character.hyphen ∧ text[index + 1]? = some Character.hyphen := by
  rw [List.infix_iff_getElem?]
  constructor
  · rintro ⟨index, _, each⟩
    have first := each 0 (by decide)
    have second := each 1 (by decide)
    rw [Nat.zero_add] at first
    rw [Nat.add_comm] at second
    exact ⟨index, first, second⟩
  · rintro ⟨index, first, second⟩
    obtain ⟨inside, _⟩ := List.getElem?_eq_some_iff.mp second
    refine ⟨index, by rw [Nat.add_comm]; exact inside, fun place less => ?_⟩
    obtain rfl | rfl : place = 0 ∨ place = 1 := by
      change place < 2 at less
      omega
    · rw [Nat.zero_add]
      exact first
    · rw [Nat.add_comm]
      exact second

/-- Where no hyphens stand outside quotes, those that there are stand inside. -/
theorem hasComment_iff (quiet : ¬HasComment false text) :
    HasComment quoted text ↔
      quoted = true ∧ [Character.hyphen, Character.hyphen] <:+: text := by
  cases quoted with
  | false => exact iff_of_false quiet (nomatch ·.1)
  | true =>
    rw [hyphens_iff]
    constructor
    · rintro ⟨index, comments⟩
      rw [commentsAt_eq, Bool.and_eq_true, Bool.and_eq_true, beq_iff_eq, beq_iff_eq] at comments
      exact ⟨rfl, index, comments.1⟩
    · rintro ⟨_, index, first, second⟩
      refine ⟨index, ?_⟩
      have inside : ¬commentsAt false text index = true := fun comments => quiet ⟨index, comments⟩
      have turned : quotedAfter true (text.take index) = !quotedAfter false (text.take index) :=
        quotedAfter_not false _
      rw [commentsAt_eq, first, second, beq_self_eq_true] at inside ⊢
      rw [turned]
      simpa using inside

/-- The code of a line has no hyphens outside its quotes. -/
theorem not_hasComment_beforeComment (quoted : Bool) (line : List UInt8) :
    ¬HasComment quoted (beforeComment quoted line) := by
  induction line generalizing quoted with
  | nil => exact not_hasComment_nil
  | cons character line ih =>
    rw [beforeComment_cons]
    split
    case isTrue => exact not_hasComment_nil
    case isFalse begins =>
      rw [hasComment_cons, ← quotedAfter_singleton]
      rintro (⟨outside, first, second⟩ | later)
      · rw [beforeComment_eq_take, List.head?_take] at second
        split at second
        · cases second
        · exact begins (commentsAt_zero.mpr ⟨outside, first, second⟩)
      · exact ih _ later

/-- Nor has it without the blanks at its end. -/
theorem not_hasComment_code (line : List UInt8) : ¬HasComment false (code line) := by
  intro comments
  obtain ⟨blanks, same⟩ := List.rdropWhile_prefix Character.isBlank
    (beforeComment false (dropLineFeed line))
  apply not_hasComment_beforeComment false (dropLineFeed line)
  rw [← same]
  exact comments.append_right

/-- A continuation mark has no part in this, nor has the space in its place. -/
theorem hasComment_spoken (quoted : Bool) (code : List UInt8) :
    HasComment quoted (spoken code) ↔ HasComment quoted code := by
  by_cases continued : isContinued code = true
  · obtain ⟨before, rfl⟩ := List.getLast?_eq_some_iff.mp (beq_iff_eq.mp continued)
    rw [spoken, if_pos continued, List.dropLast_concat, hasComment_concat (by decide),
      hasComment_concat (by decide)]
  · rw [spoken, if_neg continued]

/-- Nor have they a part in whether quotes are open. -/
theorem quotedAfter_spoken (quoted : Bool) (code : List UInt8) :
    quotedAfter quoted (spoken code) = quotedAfter quoted code := by
  by_cases continued : isContinued code = true
  · obtain ⟨before, rfl⟩ := List.getLast?_eq_some_iff.mp (beq_iff_eq.mp continued)
    rw [spoken, if_pos continued, List.dropLast_concat, quotedAfter_append, quotedAfter_append,
      quotedAfter_singleton, quotedAfter_singleton]
    rfl
  · rw [spoken, if_neg continued]

/-- Blanks before a text have no part in it. -/
theorem hasComment_dropWhile (text : List UInt8) :
    HasComment false (text.dropWhile Character.isBlank) ↔ HasComment false text := by
  induction text with
  | nil => rfl
  | cons character text ih =>
    rw [List.dropWhile_cons]
    split
    case isTrue blank =>
      have noHyphen : character ≠ Character.hyphen := by
        rintro rfl
        exact absurd blank (by decide)
      have noQuote : (character == Character.quote) = false := by
        apply beq_false_of_ne
        rintro rfl
        exact absurd blank (by decide)
      rw [ih, hasComment_cons, quotedAfter_singleton, noQuote]
      exact (or_iff_right fun comments => noHyphen comments.2.1).symm
    case isFalse => rfl

/-- Nor have blanks behind it. -/
theorem hasComment_rdropWhile (text : List UInt8) :
    HasComment quoted (text.rdropWhile Character.isBlank) ↔ HasComment quoted text := by
  induction text using List.reverseRecOn with
  | nil => rfl
  | append_singleton text character ih =>
    rw [List.rdropWhile_concat]
    split
    case isTrue blank =>
      have differs : character ≠ Character.hyphen := by
        rintro rfl
        exact absurd blank (by decide)
      rw [ih, hasComment_concat differs]
    case isFalse => rfl

end Texts

section Lines

variable {quoted : Bool} {code : List UInt8} {codes : List (List UInt8)}

/-- No lines at all have no hyphens to uncover. -/
theorem not_uncoversHyphens_nil : ¬UncoversHyphens quoted [] := by
  rintro ⟨before, _, _, same, _⟩
  cases before <;> cases same

/-- The first line has two hyphens and a quote is open, or the quotes of the first line count for
those behind it. -/
theorem uncoversHyphens_cons : UncoversHyphens quoted (code :: codes) ↔
    (quoted = true ∧ [Character.hyphen, Character.hyphen] <:+: code) ∨
      UncoversHyphens (quotedAfter quoted code) codes := by
  constructor
  · rintro ⟨before, line, after, same, leaves, hyphens⟩
    cases before with
    | nil =>
      cases same
      rw [List.flatten_nil, quotedAfter_nil] at leaves
      exact .inl ⟨leaves, hyphens⟩
    | cons first before =>
      cases same
      rw [List.flatten_cons, quotedAfter_append] at leaves
      exact .inr ⟨before, line, after, rfl, leaves, hyphens⟩
  · rintro (⟨leaves, hyphens⟩ | ⟨before, line, after, rfl, leaves, hyphens⟩)
    · refine ⟨[], code, codes, rfl, ?_, hyphens⟩
      rw [List.flatten_nil, quotedAfter_nil]
      exact leaves
    · refine ⟨code :: before, line, after, rfl, ?_, hyphens⟩
      rw [List.flatten_cons, quotedAfter_append]
      exact leaves

/-- The joined lines of a statement have two hyphens outside quotes where one of them uncovers
them. -/
theorem hasComment_span (quiet : ∀ code ∈ codes, ¬HasComment false code) :
    HasComment quoted ((span codes 0).flatMap spoken) ↔ UncoversHyphens quoted (span codes 0) := by
  induction codes generalizing quoted with
  | nil => exact iff_of_false not_hasComment_nil not_uncoversHyphens_nil
  | cons code codes ih =>
    have first := @hasComment_iff quoted code (quiet code List.mem_cons_self)
    have later := @ih (quotedAfter quoted code) fun other mem =>
      quiet other (List.mem_cons_of_mem _ mem)
    rw [span_cons_zero, List.flatMap_cons, uncoversHyphens_cons]
    by_cases continued : isContinued code = true
    · have apart : (spoken code).getLast? ≠ some Character.hyphen := by
        rw [spoken, if_pos continued, List.getLast?_concat]
        decide
      rw [if_pos continued, hasComment_append fun last => absurd last apart, hasComment_spoken,
        quotedAfter_spoken, first, later]
    · rw [if_neg continued, List.flatMap_nil, List.append_nil, hasComment_spoken, first]
      exact (or_iff_left not_uncoversHyphens_nil).symm

end Lines
end Statement

/-- **Where comments stay in statements.** The text of a statement has two hyphens outside quotes
exactly when one of its lines keeps two hyphens, which stand within quotes there, and the lines of
the statement before it have an odd number of quotes. So no statement of one line has any, nor has
one whose lines close all their quotes. -/
theorem RomanString.comment_stays_iff (script : RomanString) :
    ∀ statement ∈ script.statements,
      Statement.HasComment false statement.text.characters ↔
        Statement.UncoversHyphens false
          (Statement.span (Statement.codes script.characters) (statement.number - 1)) := by
  intro statement mem
  rw [Statement.statements_eq, List.mem_map] at mem
  obtain ⟨index, _, rfl⟩ := mem
  have quiet : ∀ code ∈ (Statement.codes script.characters).drop index,
      ¬Statement.HasComment false code := by
    intro code mem
    obtain ⟨line, _, rfl⟩ := List.mem_map.mp (List.mem_of_mem_drop mem)
    exact Statement.not_hasComment_code line
  rw [Statement.textAt, Statement.hasComment_rdropWhile, Statement.hasComment_dropWhile]
  exact Statement.hasComment_span quiet

/-- A string over two lines with a comment behind it. -/
def openScript : List UInt8 :=
  [0x70, 0x75, 0x74, 0x20, 0x22, 0x61, 0x20, 0xC2, 0x0D, 0x62, 0x22, 0x20, 0x69, 0x6E, 0x74, 0x6F,
    0x20, 0x78, 0x20, 0x2D, 0x2D, 0x20, 0x63]

/-- The comment stays in the statement. -/
theorem exists_comment_kept : ∃ statement ∈ RomanString.statements ⟨openScript⟩,
    Statement.HasComment false statement.text.characters :=
  ⟨⟨1, ⟨[0x70, 0x75, 0x74, 0x20, 0x22, 0x61, 0x20, 0x20, 0x62, 0x22, 0x20, 0x69, 0x6E, 0x74, 0x6F,
    0x20, 0x78, 0x20, 0x2D, 0x2D, 0x20, 0x63]⟩⟩, by decide +kernel, 18, by decide +kernel⟩

/-- The first line of the script leaves a quote open, and the second one has two hyphens. -/
theorem RomanString.comment_stays_iff_open :
    (∃ statement ∈ RomanString.statements ⟨openScript⟩, statement.number = 1 ∧
      Statement.HasComment false statement.text.characters) ∧
    Statement.UncoversHyphens false (Statement.span (Statement.codes openScript) 0) := by
  have found : ∃ statement ∈ RomanString.statements ⟨openScript⟩, statement.number = 1 ∧
      Statement.commentsAt false statement.text.characters 18 = true := by
    decide +kernel
  obtain ⟨statement, mem, number, comments⟩ := found
  have uncovers := (RomanString.comment_stays_iff ⟨openScript⟩ statement mem).mp ⟨18, comments⟩
  rw [number] at uncovers
  exact ⟨⟨statement, mem, number, 18, comments⟩, uncovers⟩

end HyperCard
