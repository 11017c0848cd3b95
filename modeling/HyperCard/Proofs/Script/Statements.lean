import HyperCard.Script.Statement
import Mathlib.Data.List.DropRight

/-!
# Scripts as lists of lines

What the statements of a script are, said of its physical lines by their places: where the comment
of a line begins, where a statement begins and up to which line it goes. Lines may be joined by
either kind of line end or by both together, and the statements are the same: the line end that is
looked for divides the script into the lines, but for the line feeds of pairs, which are dropped.
-/
namespace HyperCard

/-- What may stand between two lines of a script. -/
inductive LineEnd
  /-- A carriage return. -/
  | carriageReturn
  /-- A line feed. -/
  | lineFeed
  /-- A carriage return and a line feed. -/
  | both
  deriving DecidableEq, Repr

namespace LineEnd

/-- The character that ends a line. -/
def separator : LineEnd → UInt8
  | .carriageReturn | .both => Character.carriageReturn
  | .lineFeed => Character.lineFeed

/-- What follows this character before the next line. -/
def extra : LineEnd → List UInt8
  | .carriageReturn | .lineFeed => []
  | .both => [Character.lineFeed]

/-- Lines with line ends between them. -/
def joined (lineEnd : LineEnd) (lines : List (List UInt8)) : List UInt8 :=
  List.intercalate (lineEnd.separator :: lineEnd.extra) lines

end LineEnd

namespace Statement

/-- Whether a comment begins at an index of a line, which may start within quotes: two hyphens, with
an even number of quotes before them. -/
def commentsAt (quoted : Bool) (text : List UInt8) (index : Nat) : Bool :=
  text[index]? == some Character.hyphen && text[index + 1]? == some Character.hyphen &&
    (quoted.toNat + (text.take index).count Character.quote) % 2 == 0

/-- Where the code of a line ends: at its first comment, or with the line. -/
def codeEnd (quoted : Bool) (line : List UInt8) : Nat :=
  ((List.range line.length).find? (commentsAt quoted line)).getD line.length

/-- The code of a line, without blanks at its end. -/
def uncommented (line : List UInt8) : List UInt8 :=
  (line.take (codeEnd false line)).rdropWhile Character.isBlank

/-- Whether a statement begins with the line at an index: it is the first line, or the code of the
line before does not go on. -/
def beginsAt (codes : List (List UInt8)) : Nat → Bool
  | 0 => true
  | index + 1 => !isContinued (codes.getD index [])

/-- The indices of the lines with which statements begin, in order. -/
def starts (codes : List (List UInt8)) : List Nat :=
  (List.range codes.length).filter (beginsAt codes)

/-- The lines of the statement that begins at an index: up to the first one that does not go on, or
to the last one. -/
def span (codes : List (List UInt8)) (index : Nat) : List (List UInt8) :=
  (codes.drop index).take (((codes.drop index).takeWhile isContinued).length + 1)

/-- What a line adds to its statement: a space takes the place of the continuation mark. -/
def spoken (code : List UInt8) : List UInt8 :=
  if isContinued code then code.dropLast ++ [Character.space] else code

/-- The text of the statement that begins at an index, without blanks around it. -/
def textAt (codes : List (List UInt8)) (index : Nat) : List UInt8 :=
  (((span codes index).flatMap spoken).dropWhile Character.isBlank).rdropWhile Character.isBlank

/-- The statements of some lines: those that have a text, with the numbers of their first lines. -/
def ofLines (lines : List (List UInt8)) : List Statement :=
  let codes := lines.map uncommented
  ((starts codes).filter fun index => !(textAt codes index).isEmpty).map fun index =>
    ⟨index + 1, ⟨textAt codes index⟩⟩

section Comments

variable {quoted : Bool} {character : UInt8} {line : List UInt8}

/-- Behind a character, a comment begins where it begins in the rest of the line. -/
theorem commentsAt_succ (index : Nat) : commentsAt quoted (character :: line) (index + 1) =
    commentsAt (if character == Character.quote then !quoted else quoted) line index := by
  have parity : (quoted.toNat + (character :: line.take index).count Character.quote) % 2 =
      ((if character == Character.quote then !quoted else quoted).toNat +
        (line.take index).count Character.quote) % 2 := by
    rw [List.count_cons]
    by_cases quote : (character == Character.quote) = true
    · rw [if_pos quote, if_pos quote]
      cases quoted <;> simp only [Bool.toNat_true, Bool.toNat_false, Bool.not_true, Bool.not_false]
        <;> omega
    · rw [if_neg quote, if_neg quote, Nat.add_zero]
  rw [commentsAt, commentsAt, List.getElem?_cons_succ, List.getElem?_cons_succ,
    List.take_succ_cons, parity]

/-- The first character of a line begins a comment, or it belongs to the code. -/
theorem beforeComment_cons : beforeComment quoted (character :: line) =
    if commentsAt quoted (character :: line) 0 then []
    else character :: beforeComment
      (if character == Character.quote then !quoted else quoted) line := by
  have starts : commentsAt quoted (character :: line) 0 =
      (!quoted && character == Character.hyphen && line.head? == some Character.hyphen) := by
    rw [commentsAt, List.head?_eq_getElem?]
    cases quoted <;> simp
  rw [starts, beforeComment]
  by_cases quote : character == Character.quote
  · have differs : (Character.quote == Character.hyphen) = false := rfl
    rw [if_pos quote, if_pos quote, beq_iff_eq.mp quote, differs, Bool.and_false, Bool.false_and,
      if_neg Bool.false_ne_true]
  · rw [if_neg quote, if_neg quote]

/-- The code of a line ends at once, or one place behind its end in the rest of the line. -/
theorem codeEnd_cons : codeEnd quoted (character :: line) =
    if commentsAt quoted (character :: line) 0 then 0
    else codeEnd (if character == Character.quote then !quoted else quoted) line + 1 := by
  have later : (commentsAt quoted (character :: line) ∘ Nat.succ) =
      commentsAt (if character == Character.quote then !quoted else quoted) line :=
    funext commentsAt_succ
  rw [codeEnd, List.length_cons, List.range_succ_eq_map, List.find?_cons, List.find?_map, later,
    codeEnd]
  cases commentsAt quoted (character :: line) 0 with
  | true => rfl
  | false =>
    cases (List.range line.length).find?
      (commentsAt (if character == Character.quote then !quoted else quoted) line) <;> rfl

/-- The code of a line is what stands before its first comment. -/
theorem beforeComment_eq_take (quoted : Bool) (line : List UInt8) :
    beforeComment quoted line = line.take (codeEnd quoted line) := by
  induction line generalizing quoted with
  | nil => rfl
  | cons character line ih =>
    rw [beforeComment_cons, codeEnd_cons, ih]
    by_cases starts : commentsAt quoted (character :: line) 0 = true
    · rw [if_pos starts, if_pos starts, List.take_zero]
    · rw [if_neg starts, if_neg starts, List.take_succ_cons]

end Comments

section Splitting

/-- Lines are cut as the library cuts lists. -/
theorem split_eq_splitOn (separator : UInt8) (text : List UInt8) :
    split separator text = text.splitOn separator := by
  induction text with
  | nil => rfl
  | cons character text ih =>
    rw [split, List.splitOn_cons_eq_if_modifyHead, ih]
    cases shape : text.splitOn separator with
    | nil => exact absurd shape (List.splitOn_ne_nil separator text)
    | cons piece pieces => rfl

/-- What stands before joined lines belongs to the first of them. -/
theorem append_intercalate (separators first line : List UInt8) (lines : List (List UInt8)) :
    first ++ List.intercalate separators (line :: lines) =
      List.intercalate separators ((first ++ line) :: lines) := by
  cases lines with
  | nil => rw [List.intercalate_singleton, List.intercalate_singleton]
  | cons next lines => simp only [List.intercalate_cons_cons, List.append_assoc]

/-- What follows each separator may stand in front of the next line. -/
theorem intercalate_cons (separator : UInt8) (extra line : List UInt8)
    (lines : List (List UInt8)) : List.intercalate (separator :: extra) (line :: lines) =
      List.intercalate [separator] (line :: lines.map (extra ++ ·)) := by
  induction lines generalizing line with
  | nil => rfl
  | cons next lines ih =>
    rw [List.map_cons, List.intercalate_cons_cons, List.intercalate_cons_cons,
      ← append_intercalate, ← ih, List.append_assoc, List.append_assoc, List.cons_append,
      List.singleton_append]

/-- A character is in joined lines if it is in one of them, or if it is in the separators between
two of them. -/
theorem mem_intercalate {character : UInt8} {separators line : List UInt8}
    {lines : List (List UInt8)} : character ∈ List.intercalate separators (line :: lines) ↔
      (∃ other ∈ line :: lines, character ∈ other) ∨ lines ≠ [] ∧ character ∈ separators := by
  induction lines generalizing line with
  | nil => simp
  | cons next lines ih =>
    rw [List.intercalate_cons_cons, List.mem_append, List.mem_append, ih]
    simp only [List.mem_cons, exists_eq_or_imp, ne_eq, reduceCtorEq, not_false_eq_true, true_and]
    by_cases between : character ∈ separators
    · simp only [between, or_true, true_or]
    · simp only [between, or_false, and_false]

end Splitting

section Joining

variable {code : List UInt8} {codes : List (List UInt8)}

/-- The first line is where a statement begins, if there is one. -/
theorem starts_cons (code : List UInt8) (codes : List (List UInt8)) : starts (code :: codes) =
    0 :: ((List.range codes.length).filter (beginsAt (code :: codes) ∘ Nat.succ)).map Nat.succ := by
  rw [starts, List.length_cons, List.range_succ_eq_map, List.filter_cons_of_pos rfl,
    List.filter_map]

/-- Behind the first line, statements begin where they begin among the other lines; a first line
that goes on takes the place of the line that comes next. -/
theorem starts_cons_eq : starts (code :: codes) =
    0 :: (if isContinued code then (starts codes).tail else starts codes).map Nat.succ := by
  rw [starts_cons]
  congr 2
  cases codes with
  | nil => cases isContinued code <;> rfl
  | cons next codes =>
    have second : (beginsAt (code :: next :: codes) ∘ Nat.succ) 0 = !isContinued code := rfl
    have third : (beginsAt (code :: next :: codes) ∘ Nat.succ) ∘ Nat.succ =
        beginsAt (next :: codes) ∘ Nat.succ := rfl
    rw [starts_cons, List.length_cons, List.range_succ_eq_map, List.filter_cons, second,
      List.filter_map, third]
    cases isContinued code <;> rfl

/-- A statement at the first line has that line, and more of them if it goes on. -/
theorem span_cons_zero : span (code :: codes) 0 =
    code :: if isContinued code then span codes 0 else [] := by
  unfold span
  rw [List.drop_zero, List.drop_zero, List.takeWhile_cons]
  by_cases continued : isContinued code = true
  · rw [if_pos continued, if_pos continued, List.length_cons, List.take_succ_cons]
  · rw [if_neg continued, if_neg continued]
    rfl

/-- Lines that go on are joined with the next ones. -/
theorem join_mapIdx (first : Nat) (codes : List (List UInt8)) :
    join (codes.mapIdx fun index code => (index + first, code)) =
      (starts codes).map fun index => (index + first, (span codes index).flatMap spoken) := by
  -- The other lines are numbered from one number further on, and so are the places among them.
  induction codes generalizing first with
  | nil => rfl
  | cons code codes ih =>
    have shifted : (fun index code => (index + 1 + first, code)) =
        fun index (code : List UInt8) => (index + (first + 1), code) := by
      funext index code
      rw [Nat.add_assoc, Nat.add_comm 1]
    have later : (fun index => (index + first, (span (code :: codes) index).flatMap spoken)) ∘
        Nat.succ = fun index => (index + (first + 1), (span codes index).flatMap spoken) := by
      funext index
      show (index + 1 + first, (span codes index).flatMap spoken) = _
      rw [Nat.add_assoc, Nat.add_comm 1]
    rw [List.mapIdx_cons, shifted, starts_cons_eq, List.map_cons, List.map_map, later,
      span_cons_zero, List.flatMap_cons, Nat.zero_add, join]
    by_cases continued : isContinued code = true
    · rw [if_pos continued, if_pos continued, if_pos continued, spoken, if_pos continued, ih]
      cases codes with
      | nil =>
        have none : (span [] 0).flatMap spoken = [] := rfl
        rw [none, List.append_nil]
        rfl
      | cons next codes =>
        rw [starts_cons]
        rfl
    · rw [if_neg continued, if_neg continued, if_neg continued, spoken, if_neg continued, ih,
        List.flatMap_nil, List.append_nil]

end Joining

/-- The statements that begin at some lines are those that have a text. -/
theorem filterMap_ofJoined? (codes : List (List UInt8)) (indices : List Nat) :
    indices.filterMap (fun index => ofJoined? (index + 1) ((span codes index).flatMap spoken)) =
      (indices.filter fun index => !(textAt codes index).isEmpty).map fun index =>
        ⟨index + 1, ⟨textAt codes index⟩⟩ := by
  induction indices with
  | nil => rfl
  | cons index indices ih =>
    have made : ofJoined? (index + 1) ((span codes index).flatMap spoken) =
        if (textAt codes index).isEmpty then none else some ⟨index + 1, ⟨textAt codes index⟩⟩ := rfl
    rw [List.filterMap_cons, List.filter_cons, made, ih]
    cases (textAt codes index).isEmpty <;> rfl

/-- The codes of the physical lines of a script. -/
def codes (characters : List UInt8) : List (List UInt8) :=
  (split (separator characters) characters).map code

/-- The statements of a script have the texts of joined lines. -/
theorem statements_eq (characters : List UInt8) : RomanString.statements ⟨characters⟩ =
    ((starts (codes characters)).filter fun index =>
      !(textAt (codes characters) index).isEmpty).map fun index =>
        ⟨index + 1, ⟨textAt (codes characters) index⟩⟩ := by
  have numbered : Statement.lines characters =
      (codes characters).mapIdx fun index code => (index + 1, code) := by
    rw [Statement.lines, codes, List.mapIdx_eq_iff]
    intro index
    rw [List.getElem?_mapIdx, List.getElem?_map, Option.map_map]
    rfl
  rw [RomanString.statements, numbered, join_mapIdx, List.filterMap_map]
  exact filterMap_ofJoined? _ _

/-- Statements are found from the codes of the lines alone. -/
theorem statements_of_codes {lines : List (List UInt8)} {characters : List UInt8}
    (pieces : (split (separator characters) characters).map code = lines.map uncommented) :
    RomanString.statements ⟨characters⟩ = ofLines lines := by
  rw [statements_eq, codes, pieces, ofLines]

/-- The statements of lines are in the order of their numbers. -/
theorem pairwise_ofLines (lines : List (List UInt8)) :
    (ofLines lines).Pairwise (·.number < ·.number) := by
  rw [ofLines, List.pairwise_map]
  exact (List.pairwise_lt_range.filter _).filter _ |>.imp Nat.succ_lt_succ

/-- A line without line feeds has no line feed of a line end to drop. -/
theorem dropLineFeed_of_not_mem {line : List UInt8} (free : Character.lineFeed ∉ line) :
    dropLineFeed line = line := by
  cases line with
  | nil => rfl
  | cons character line =>
    rw [List.mem_cons, not_or] at free
    have differs : (character == Character.lineFeed) = false := beq_false_of_ne (Ne.symm free.1)
    rw [dropLineFeed, differs]
    rfl

/-- A line with no line feed in it is code up to its comment. -/
theorem code_of_not_mem {line : List UInt8} (free : Character.lineFeed ∉ line) :
    code line = uncommented line := by
  rw [code, dropLineFeed_of_not_mem free, beforeComment_eq_take]
  rfl

end Statement

/-- A line has neither of the characters that end lines. -/
def IsLine (line : List UInt8) : Prop :=
  Character.carriageReturn ∉ line ∧ Character.lineFeed ∉ line

instance : DecidablePred IsLine := fun line =>
  inferInstanceAs (Decidable (Character.carriageReturn ∉ line ∧ Character.lineFeed ∉ line))

namespace LineEnd

variable {lineEnd : LineEnd} {line : List UInt8} {lines : List (List UInt8)}

/-- Joined lines are cut at the separator of their line end; one line alone has none in it, and
would be cut at line feeds. -/
theorem separator_joined (plain : ∀ other ∈ line :: lines, Character.carriageReturn ∉ other) :
    Statement.separator (lineEnd.joined (line :: lines)) =
      if lines = [] then Character.lineFeed else lineEnd.separator := by
  have present : Character.carriageReturn ∈ lineEnd.joined (line :: lines) ↔
      lines ≠ [] ∧ Character.carriageReturn ∈ lineEnd.separator :: lineEnd.extra := by
    rw [joined, Statement.mem_intercalate]
    exact or_iff_right fun ⟨other, mem, held⟩ => plain other mem held
  rw [Statement.separator]
  by_cases alone : lines = []
  · rw [if_pos alone, if_neg fun found => (present.mp (List.contains_iff_mem.mp found)).1 alone]
  · rw [if_neg alone]
    cases lineEnd with
    | carriageReturn | both =>
      exact if_pos (List.contains_iff_mem.mpr (present.mpr ⟨alone, List.mem_cons_self⟩))
    | lineFeed =>
      have other : Character.carriageReturn ∉ [Character.lineFeed] := by decide
      exact if_neg fun found => other (present.mp (List.contains_iff_mem.mp found)).2

/-- No line has the separator in it, nor has what is left of a line end before it. -/
theorem separator_not_mem (plain : IsLine line) : lineEnd.separator ∉ lineEnd.extra ++ line := by
  rw [List.mem_append, not_or]
  cases lineEnd with
  | carriageReturn => exact ⟨List.not_mem_nil, plain.1⟩
  | lineFeed => exact ⟨List.not_mem_nil, plain.2⟩
  | both => exact ⟨by decide, plain.1⟩

/-- What is left of a line end before a line is no part of its code. -/
theorem code_append (plain : IsLine line) :
    Statement.code (lineEnd.extra ++ line) = Statement.uncommented line := by
  rw [← Statement.code_of_not_mem plain.2]
  cases lineEnd with
  | carriageReturn | lineFeed => rfl
  | both =>
    rw [Statement.code, Statement.code, Statement.dropLineFeed_of_not_mem plain.2]
    rfl

/-- The pieces between line ends have the codes of the lines. -/
theorem map_code_split (plain : ∀ other ∈ line :: lines, IsLine other) :
    (Statement.split (Statement.separator (lineEnd.joined (line :: lines)))
      (lineEnd.joined (line :: lines))).map Statement.code =
        (line :: lines).map Statement.uncommented := by
  have first := plain line List.mem_cons_self
  have rest : ∀ other ∈ lines, IsLine other :=
    fun other mem => plain other (List.mem_cons_of_mem _ mem)
  rw [separator_joined fun other mem => (plain other mem).1, Statement.split_eq_splitOn]
  by_cases alone : lines = []
  · rw [if_pos alone, alone, joined, List.intercalate_singleton, List.splitOn_eq_singleton first.2,
      List.map_singleton, List.map_singleton, Statement.code_of_not_mem first.2]
  · have apart : ∀ piece ∈ line :: lines.map (lineEnd.extra ++ ·), lineEnd.separator ∉ piece := by
      rw [List.forall_mem_cons, List.forall_mem_map]
      exact ⟨fun held => separator_not_mem first (List.mem_append_right _ held),
        fun other mem => separator_not_mem (rest other mem)⟩
    rw [if_neg alone, joined, Statement.intercalate_cons,
      List.splitOn_intercalate _ apart (List.cons_ne_nil _ _), List.map_cons, List.map_cons,
      List.map_map, Statement.code_of_not_mem first.2]
    exact congrArg _ (List.map_congr_left fun other mem => code_append (rest other mem))

end LineEnd

/-- Scripts of the same lines have the same statements, whatever stands between the lines: each
begins where the line before does not go on, and has the codes of its lines as its text. -/
theorem RomanString.statements_joined (lineEnd : LineEnd) {lines : List (List UInt8)}
    (plain : ∀ line ∈ lines, IsLine line) :
    RomanString.statements ⟨lineEnd.joined lines⟩ = Statement.ofLines lines ∧
      (Statement.ofLines lines).Pairwise (·.number < ·.number) := by
  refine ⟨?_, Statement.pairwise_ofLines lines⟩
  cases lines with
  | nil => rfl
  | cons line lines => exact Statement.statements_of_codes (LineEnd.map_code_split plain)

/-- Lines with hyphens in quotes, two continued lines, an empty line, a comment alone and a last
line that would go on. -/
def crookedLines : List (List UInt8) :=
  [[0x70, 0x75, 0x74, 0x20, 0x22, 0x2D, 0x2D, 0x22, 0x20, 0xC2, 0x20, 0x2D, 0x2D, 0x20, 0x31],
    [0x20, 0x20, 0xC2], [0x69, 0x6E, 0x74, 0x6F, 0x20, 0x78], [], [0x2D, 0x2D, 0x20, 0x32],
    [0x62, 0x65, 0x65, 0x70, 0x20, 0xC2]]

/-- Such a script has two statements, on the lines 1 and 6. -/
theorem RomanString.statements_joined_crooked : (∀ line ∈ crookedLines, IsLine line) ∧
    RomanString.statements ⟨LineEnd.both.joined crookedLines⟩ =
      [⟨1, ⟨[0x70, 0x75, 0x74, 0x20, 0x22, 0x2D, 0x2D, 0x22, 0x20, 0x20, 0x20, 0x20, 0x20,
          0x69, 0x6E, 0x74, 0x6F, 0x20, 0x78]⟩⟩,
        ⟨6, ⟨[0x62, 0x65, 0x65, 0x70]⟩⟩] := by
  have lines : ∀ line ∈ crookedLines, IsLine line := by decide
  refine ⟨lines, ?_⟩
  rw [(RomanString.statements_joined .both lines).1]
  decide

end HyperCard
