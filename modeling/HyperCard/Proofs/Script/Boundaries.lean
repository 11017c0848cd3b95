import HyperCard.Proofs.Script.Operators

/-!
# Where expressions can go on

A scan inside an expression never leaves the parentheses that were open at its start. Where an
operand has just ended at that depth, the expression ends or an operator comes next. So an
expression does not go on over a comma, nor over a word that begins no operator. As with the marks
of a scan, this is a property of all texts that the rules of expressions match.
-/
namespace HyperCard.HyperTalk

open Grammar (before Segment Reads Repeats Pattern)

/-- Whether an operator is written at the start of a text. -/
def OperatorAhead (previous : Option UInt8) (text : List UInt8) : Prop :=
  ∃ level : Level, ∃ entry ∈ level.operators, ∃ first rest, text = first ++ rest ∧
    Segment grammar.Matches first previous
      (.literal ⟨.encodeOrRaw entry.1, true, fun value _ => value⟩ :
        Pattern RuleName.Value Expression)

/-- Whether a text may come after an operand: it begins an operator or, where operands are divided,
a comma. Nothing is said of parentheses, quotes and what belongs to a number, nor of letters and
digits that go on with a word. -/
def MayFollow (divided : Prop) (previous : Option UInt8) (text : List UInt8) : Prop :=
  ∀ blanks symbol rest, text = blanks ++ symbol :: rest →
    (∀ character ∈ blanks, Character.isBlank character) → Character.isBlank symbol = false →
    Character.joinsWord (before previous blanks) symbol = false → Scan.isPlain symbol = true →
    divided ∧ symbol = Character.comma ∨ OperatorAhead previous text

/-- A text inside of which a scan stays at its depth or deeper, and goes on after operands only as
it may. -/
structure Orderly (follows : Bool) (divided : Prop) (previous : Option UInt8)
    (text : List UInt8) : Prop where
  /-- No parenthesis is closed that was open before. -/
  deep : ∀ scan : Scan, scan.quoted = false → (follows = false → scan.closed = false) →
    ∀ left right, text = left ++ right → scan.depth ≤ (scan.past 0 previous left).depth
  /-- After an operand comes what may come there. -/
  ahead : ∀ scan : Scan, scan.quoted = false → (follows = false → scan.closed = false) →
    ∀ left right, text = left ++ right → (scan.past 0 previous left).quoted = false →
      (scan.past 0 previous left).closed = true →
      (scan.past 0 previous left).depth = scan.depth →
      MayFollow divided (before previous left) right

/-- A text at every place of which a scan is as it was before an operand. -/
def Idle (previous : Option UInt8) (text : List UInt8) : Prop :=
  ∀ scan : Scan, scan.quoted = false → scan.closed = false →
    ∀ left right, text = left ++ right → scan.past 0 previous left = scan

section Parts

variable {follows : Bool} {divided : Prop} {previous : Option UInt8} {left right : List UInt8}

/-- An operand may have nothing after it. -/
theorem mayFollow_nil : MayFollow divided previous [] := by
  intro blanks symbol rest whole
  have lengths := congrArg List.length whole
  simp at lengths

/-- An operator that stands ahead is there whatever comes behind it. -/
theorem OperatorAhead.append (ahead : OperatorAhead previous left) :
    OperatorAhead previous (left ++ right) := by
  obtain ⟨level, entry, listed, first, rest, rfl, segment⟩ := ahead
  exact ⟨level, entry, listed, first, rest ++ right, by simp, segment⟩

/-- What comes after a text that ends in no blank does not matter inside it. -/
theorem MayFollow.append (may : MayFollow divided previous left) (nonempty : left ≠ [])
    (solid : ∀ last ∈ left.getLast?, Character.isBlank last = false) :
    MayFollow divided previous (left ++ right) := by
  intro blanks symbol rest whole blank symbolSolid apart plain
  rcases Grammar.exists_blanks left with all | ⟨others, first, more, rfl, otherBlank, firstSolid⟩
  · have last := List.getLast?_eq_some_getLast nonempty
    have none := solid _ last
    rw [all _ (List.getLast_mem nonempty)] at none
    cases none
  · have whole : others ++ first :: (more ++ right) = blanks ++ symbol :: rest := by
      simpa using whole
    obtain ⟨rfl, rfl, rfl⟩ :=
      Grammar.blanks_append_inj otherBlank firstSolid blank symbolSolid whole
    exact (may _ _ _ rfl blank symbolSolid apart plain).imp_right OperatorAhead.append

/-- An operator stands ahead across blanks too. -/
theorem OperatorAhead.blanks {blanks : List UInt8}
    (blank : ∀ character ∈ blanks, Character.isBlank character)
    (ahead : OperatorAhead (before previous blanks) left) :
    OperatorAhead previous (blanks ++ left) := by
  obtain ⟨level, entry, listed, first, rest, rfl, segment⟩ := ahead
  refine ⟨level, entry, listed, blanks ++ first, rest, by simp, ?_⟩
  cases segment with
  | literal otherBlank apart spells =>
    rw [← Grammar.before_append] at apart
    rw [← List.append_assoc]
    refine .literal (fun character member => ?_) apart spells
    exact (List.mem_append.mp member).elim (blank character) (otherBlank character)

/-- What may follow an operand may follow it after blanks. -/
theorem MayFollow.blanks {blanks : List UInt8}
    (blank : ∀ character ∈ blanks, Character.isBlank character)
    (may : MayFollow divided (before previous blanks) left) :
    MayFollow divided previous (blanks ++ left) := by
  intro others symbol rest whole otherBlank solid apart plain
  rcases List.append_eq_append_iff.mp whole with ⟨more, rfl, same⟩ | ⟨more, rfl, same⟩
  · rw [Grammar.before_append] at apart
    exact (may more symbol rest same (fun character member =>
      otherBlank character (List.mem_append_right _ member)) solid apart plain).imp_right
        (.blanks blank)
  · cases more with
    | nil =>
      rw [List.append_nil] at may blank ⊢
      exact (may [] symbol rest same.symm (by simp) solid apart plain).imp_right (.blanks blank)
    | cons next more =>
      have inside := blank next (by simp)
      obtain ⟨rfl, _⟩ := List.cons.inj same
      rw [solid] at inside
      cases inside

/-- A text stays orderly where commas may come after operands in more cases. -/
theorem Orderly.mono {more : Prop} (orderly : Orderly follows divided previous left)
    (weaker : divided → more) : Orderly follows more previous left :=
  ⟨orderly.deep, fun scan unquoted awaiting left right whole quoted closed depth blanks symbol rest
    same blank solid apart plain =>
    (orderly.ahead scan unquoted awaiting left right whole quoted closed depth blanks symbol rest
      same blank solid apart plain).imp_left (And.imp_left weaker)⟩

/-- An orderly part goes on with an orderly text that may follow an operand. -/
theorem Orderly.append {quiet : Nat → Prop} (first : Orderly follows divided previous left)
    (part : Part follows quiet previous left)
    (second : Orderly true divided (before previous left) right) :
    Orderly follows divided previous (left ++ right) := by
  have between : ∀ scan : Scan, scan.quoted = false → (follows = false → scan.closed = false) →
      (scan.past 0 previous left).quoted = false ∧
        (scan.past 0 previous left).depth = scan.depth := by
    intro scan unquoted awaiting
    have steady := part.steady 0 scan unquoted awaiting
    exact ⟨steady.unquoted, steady.depth⟩
  constructor
  · intro scan unquoted awaiting start rest whole
    rcases List.append_eq_append_iff.mp whole with ⟨more, rfl, same⟩ | ⟨more, same, _⟩
    · obtain ⟨inside, depth⟩ := between scan unquoted awaiting
      rw [Scan.past_append, ← depth]
      exact second.deep _ inside (by simp) more rest same
    · exact first.deep scan unquoted awaiting start more same
  · intro scan unquoted awaiting start rest whole quoted closed depth
    rcases List.append_eq_append_iff.mp whole with ⟨more, rfl, same⟩ | ⟨more, same, rfl⟩
    · obtain ⟨inside, here⟩ := between scan unquoted awaiting
      rw [Scan.past_append] at quoted closed depth
      rw [Grammar.before_append]
      exact second.ahead _ inside (by simp) more rest same quoted closed (depth.trans here.symm)
    · cases more with
      | nil =>
        -- The second text begins where the first one has just ended.
        rw [List.append_nil] at same
        subst same
        obtain ⟨inside, here⟩ := between scan unquoted awaiting
        exact second.ahead _ inside (by simp) [] right rfl quoted closed rfl
      | cons next more =>
        refine (first.ahead scan unquoted awaiting start (next :: more) same quoted closed
          depth).append (List.cons_ne_nil _ _) ?_
        have solid := part.solid
        rwa [same, List.getLast?_append, List.getLast?_eq_some_getLast (List.cons_ne_nil _ _)]
          at solid

/-- An orderly text may come behind one that a scan passes over. -/
theorem Idle.append (first : Idle previous left)
    (second : Orderly false divided (before previous left) right) :
    Orderly false divided previous (left ++ right) := by
  constructor
  · intro scan unquoted awaiting start rest whole
    rcases List.append_eq_append_iff.mp whole with ⟨more, rfl, same⟩ | ⟨more, same, _⟩
    · rw [Scan.past_append, first scan unquoted (awaiting rfl) left [] (by simp)]
      exact second.deep scan unquoted awaiting more rest same
    · exact Nat.le_of_eq (by rw [first scan unquoted (awaiting rfl) start more same])
  · intro scan unquoted awaiting start rest whole quoted closed depth
    rcases List.append_eq_append_iff.mp whole with ⟨more, rfl, same⟩ | ⟨more, same, _⟩
    · rw [Scan.past_append, first scan unquoted (awaiting rfl) left [] (by simp)]
        at quoted closed depth
      rw [Grammar.before_append]
      exact second.ahead scan unquoted awaiting more rest same quoted closed depth
    · rw [first scan unquoted (awaiting rfl) start more same, awaiting rfl] at closed
      cases closed

/-- Two such texts are passed over together. -/
theorem Idle.trans (first : Idle previous left) (second : Idle (before previous left) right) :
    Idle previous (left ++ right) := by
  intro scan unquoted awaiting start rest whole
  rcases List.append_eq_append_iff.mp whole with ⟨more, rfl, same⟩ | ⟨more, same, _⟩
  · rw [Scan.past_append, first scan unquoted awaiting left [] (by simp)]
    exact second scan unquoted awaiting more rest same
  · exact first scan unquoted awaiting start more same

/-- What is passed over has no operand, so nothing that could come after one. -/
theorem Idle.orderly (idle : Idle previous left) : Orderly false divided previous left := by
  constructor
  · intro scan unquoted awaiting start rest whole
    exact Nat.le_of_eq (by rw [idle scan unquoted (awaiting rfl) start rest whole])
  · intro scan unquoted awaiting start rest whole _ closed
    rw [idle scan unquoted (awaiting rfl) start rest whole, awaiting rfl] at closed
    cases closed

/-- Plain characters are passed over before an operand. -/
theorem idle_plain (plain : ∀ character ∈ left, Scan.isPlain character) : Idle previous left := by
  intro scan unquoted awaiting start rest whole
  refine Scan.past_plain unquoted awaiting fun character member => plain character ?_
  rw [whole]
  exact List.mem_append_left _ member

/-- A word is passed over, its digits included. -/
theorem idle_word {first : UInt8} {rest : List UInt8} (letter : Character.isLetter first)
    (word : ∀ character ∈ rest, Character.isAlphanumeric character) :
    Idle previous (first :: rest) := by
  intro scan unquoted awaiting start others whole
  cases start with
  | nil => rfl
  | cons character start =>
    obtain ⟨rfl, rfl⟩ := List.cons.inj whole
    exact Scan.past_word unquoted awaiting letter fun character member =>
      word character (List.mem_append_left _ member)

/-- So are blanks. -/
theorem idle_blanks (blank : ∀ character ∈ left, Character.isBlank character) :
    Idle previous left :=
  idle_plain fun character member => Scan.isPlain_of_isBlank character (blank character member)

/-- Inside a number there is no place for anything else. -/
theorem orderly_number (number : ∀ character ∈ left,
      Character.isDigit character || character == Character.point)
    (apart : ∀ first ∈ left.head?, Character.joinsWord previous first = false) :
    Orderly false divided previous left := by
  have kind : ∀ character, (Character.isDigit character || character == Character.point) →
      Character.isBlank character = false ∧ Scan.isPlain character = false :=
    forall_byte (by decide)
  constructor
  · intro scan unquoted awaiting start rest whole
    cases start with
    | nil => exact Nat.le_refl _
    | cons first start =>
      subst whole
      exact Nat.le_of_eq (by rw [Scan.past_number unquoted (apart first rfl) fun character member =>
        number character (List.mem_append_left _ member)])
  · intro scan _ _ start rest whole _ _ _
    cases rest with
    | nil => exact mayFollow_nil
    | cons next rest =>
      subst whole
      obtain ⟨solid, other⟩ := kind next (number next (by simp))
      intro blanks symbol more same blank symbolSolid _ plain
      rw [← List.nil_append (next :: rest)] at same
      obtain ⟨_, rfl, _⟩ := Grammar.blanks_append_inj (by simp) solid blank symbolSolid same
      rw [other] at plain
      cases plain

/-- Blanks may stand before a text. -/
theorem Orderly.blanks {blanks : List UInt8}
    (blank : ∀ character ∈ blanks, Character.isBlank character)
    (orderly : Orderly follows divided (before previous blanks) left) :
    Orderly follows divided previous (blanks ++ left) := by
  have passed : ∀ scan : Scan, scan.quoted = false → ∀ start more, blanks = start ++ more →
      scan.past 0 previous start = scan := by
    rintro scan unquoted start more rfl
    exact Scan.past_blanks unquoted fun character member =>
      blank character (List.mem_append_left _ member)
  constructor
  · intro scan unquoted awaiting start rest whole
    rcases List.append_eq_append_iff.mp whole with ⟨more, rfl, same⟩ | ⟨more, same, _⟩
    · rw [Scan.past_append, passed scan unquoted blanks [] (by simp)]
      exact orderly.deep scan unquoted awaiting more rest same
    · exact Nat.le_of_eq (by rw [passed scan unquoted start more same])
  · intro scan unquoted awaiting start rest whole quoted closed depth
    rcases List.append_eq_append_iff.mp whole with ⟨more, rfl, same⟩ | ⟨more, same, rfl⟩
    · rw [Scan.past_append, passed scan unquoted blanks [] (by simp)] at quoted closed depth
      rw [Grammar.before_append]
      exact orderly.ahead scan unquoted awaiting more rest same quoted closed depth
    · rw [passed scan unquoted start more same] at closed
      have may := orderly.ahead scan unquoted awaiting [] left rfl unquoted closed rfl
      subst same
      rw [Grammar.before_nil, Grammar.before_append] at may
      exact may.blanks fun character member => blank character (List.mem_append_right _ member)

/-- A scan is in a string, or in parentheses that were opened beyond a depth. -/
def Scan.IsInside (depth : Nat) (scan : Scan) : Prop :=
  depth ≤ scan.depth ∧ (scan.quoted = true ∨ depth < scan.depth)

/-- An operand goes on nowhere if everywhere between its ends something is open. -/
theorem orderly_of_isInside
    (places : ∀ scan : Scan, scan.quoted = false → ∀ start rest, left = start ++ rest →
      start = [] ∨ (scan.past 0 previous start).IsInside scan.depth ∨
        rest = [] ∧ (scan.past 0 previous start).depth = scan.depth) :
    Orderly false divided previous left := by
  constructor
  · intro scan unquoted _ start rest whole
    rcases places scan unquoted start rest whole with rfl | inside | ⟨_, same⟩
    · exact Nat.le_refl _
    · exact inside.1
    · exact Nat.le_of_eq same.symm
  · intro scan unquoted awaiting start rest whole quoted closed depth
    rcases places scan unquoted start rest whole with rfl | ⟨_, isOpen | deeper⟩ | ⟨rfl, _⟩
    · rw [Scan.past_nil, awaiting rfl] at closed
      cases closed
    · rw [isOpen] at quoted
      cases quoted
    · omega
    · exact mayFollow_nil

/-- A string is closed at its end only. -/
theorem orderly_string (inside : ∀ character ∈ left, isStringCharacter character) :
    Orderly false divided previous (Character.quote :: (left ++ [Character.quote])) := by
  have unquote : ∀ character ∈ left, character ≠ Character.quote := fun character member =>
    ne_quote_of_isStringCharacter (inside character member)
  refine orderly_of_isInside fun scan unquoted start rest whole => ?_
  cases start with
  | nil => exact .inl rfl
  | cons first start =>
    obtain ⟨rfl, others⟩ := List.cons.inj whole
    rcases rest.eq_nil_or_concat with rfl | ⟨more, last, rfl⟩
    · obtain rfl : left ++ [Character.quote] = start := by simpa using others
      exact .inr (.inr ⟨rfl, by rw [Scan.past_string unquoted unquote]⟩)
    · have ends : left ++ [Character.quote] = start ++ more ++ [last] := by simpa using others
      have parts : left = start ++ more := List.append_inj_left' ends rfl
      have passed : scan.past 0 previous (Character.quote :: start) =
          { scan with quoted := true } := by
        rw [Scan.past_cons, Scan.step_quote unquoted]
        exact Scan.past_quoted rfl fun character member =>
          unquote character (parts ▸ List.mem_append_left _ member)
      rw [passed]
      exact .inr (.inl ⟨Nat.le_refl _, .inl rfl⟩)

/-- Over blanks after a text that is never left, a scan stays inside. -/
theorem Scan.deep_of_blanks {scan : Scan} {inner blanks start rest : List UInt8}
    (blank : ∀ character ∈ blanks, Character.isBlank character)
    (unquoted : (scan.past 0 previous inner).quoted = false)
    (depth : (scan.past 0 previous inner).depth = scan.depth)
    (deep : ∀ left right, inner = left ++ right → scan.depth ≤ (scan.past 0 previous left).depth)
    (whole : inner ++ blanks = start ++ rest) :
    scan.depth ≤ (scan.past 0 previous start).depth := by
  rcases List.append_eq_append_iff.mp whole with ⟨more, rfl, rfl⟩ | ⟨more, same, _⟩
  · rw [Scan.past_append, Scan.past_blanks unquoted fun character member =>
      blank character (List.mem_append_left _ member)]
    exact Nat.le_of_eq depth.symm
  · exact deep start more same

/-- Inside parentheses everything is deeper than outside. -/
theorem orderly_parentheses {inner opened closed : List UInt8}
    (openedBlank : ∀ character ∈ opened, Character.isBlank character)
    (closedBlank : ∀ character ∈ closed, Character.isBlank character)
    (within : ∀ scan : Scan, scan.quoted = false → scan.closed = false →
      (scan.past 0 (some Character.opening) inner).quoted = false ∧
      (scan.past 0 (some Character.opening) inner).depth = scan.depth ∧
      ∀ left right, inner = left ++ right →
        scan.depth ≤ (scan.past 0 (some Character.opening) left).depth) :
    Orderly false divided previous
      (opened ++ ([Character.opening] ++ (inner ++ (closed ++ [Character.closing])))) := by
  refine .blanks openedBlank (orderly_of_isInside fun scan unquoted start rest whole => ?_)
  cases start with
  | nil => exact .inl rfl
  | cons first start =>
    obtain ⟨rfl, others⟩ := List.cons.inj whole
    let deeper : Scan := { scan with depth := scan.depth + 1, closed := false }
    have passed : scan.past 0 (before previous opened) (Character.opening :: start) =
        deeper.past 0 (some Character.opening) start := by
      rw [← List.singleton_append, Scan.past_append, Scan.past_opening unquoted]
      rfl
    obtain ⟨quoted, depth, deep⟩ := within deeper unquoted rfl
    rw [passed]
    rcases rest.eq_nil_or_concat with rfl | ⟨more, last, rfl⟩
    · obtain rfl : inner ++ (closed ++ [Character.closing]) = start := by simpa using others
      refine .inr (.inr ⟨rfl, ?_⟩)
      rw [Scan.past_append, Scan.past_append, Scan.past_blanks quoted closedBlank,
        Scan.past_closing quoted]
      simp only [depth, deeper, Nat.add_sub_cancel]
    · have ends : inner ++ closed ++ [Character.closing] = start ++ more ++ [last] := by
        simpa using others
      have parts : inner ++ closed = start ++ more := List.append_inj_left' ends rfl
      have inside : scan.depth + 1 ≤ (deeper.past 0 (some Character.opening) start).depth :=
        Scan.deep_of_blanks closedBlank quoted depth deep parts
      exact .inr (.inl ⟨Nat.le_of_lt inside, .inr inside⟩)

/-- A plain character that begins something new is no end of an operand. -/
theorem Scan.step_plain {tightest : Nat} {scan : Scan} {character : UInt8}
    (unquoted : scan.quoted = false) (solid : Character.isBlank character = false)
    (apart : Character.joinsWord previous character = false)
    (plain : Scan.isPlain character = true) :
    (scan.step tightest previous character).quoted = false ∧
      (scan.step tightest previous character).closed = false ∧
      (scan.step tightest previous character).depth = scan.depth := by
  simp only [Scan.isPlain, Bool.not_eq_true', Bool.or_eq_false_iff] at plain
  simp only [Scan.step, unquoted, solid, apart, plain, Bool.or_self, Bool.false_eq_true, ↓reduceIte]
  split <;> exact ⟨rfl, rfl, rfl⟩

/-- A plain word after which an operand comes may follow an operand if it is one that may. -/
theorem Orderly.after {others : List UInt8} {first : UInt8}
    (solid : Character.isBlank first = false)
    (apart : Character.joinsWord previous first = false)
    (plain : ∀ character ∈ first :: others, Scan.isPlain character)
    (may : MayFollow divided previous (first :: others ++ right))
    (second : Orderly false divided (before previous (first :: others)) right) :
    Orderly true divided previous (first :: others ++ right) := by
  have begun : ∀ scan : Scan, scan.quoted = false → ∀ start more, others = start ++ more →
      (scan.past 0 previous (first :: start)).quoted = false ∧
        (scan.past 0 previous (first :: start)).closed = false ∧
        (scan.past 0 previous (first :: start)).depth = scan.depth := by
    rintro scan unquoted start more rfl
    obtain ⟨here, awaiting, depth⟩ :=
      @Scan.step_plain _ 0 scan _ unquoted solid apart (plain first List.mem_cons_self)
    rw [Scan.past_cons, Scan.past_plain here awaiting fun character member =>
      plain character (List.mem_cons_of_mem _ (List.mem_append_left _ member))]
    exact ⟨here, awaiting, depth⟩
  -- A scan is before the word, inside it, or behind it.
  have places : ∀ start rest, first :: others ++ right = start ++ rest →
      (start = [] ∧ rest = first :: others ++ right) ∨
      (∃ inside more, start = first :: inside ∧ others = inside ++ more) ∨
      ∃ more, start = first :: others ++ more ∧ right = more ++ rest := by
    intro start rest whole
    cases start with
    | nil => exact .inl ⟨rfl, whole.symm⟩
    | cons next start =>
      obtain ⟨rfl, after⟩ := List.cons.inj whole
      rcases List.append_eq_append_iff.mp after with ⟨more, rfl, same⟩ | ⟨more, same, _⟩
      · exact .inr (.inr ⟨more, rfl, same⟩)
      · exact .inr (.inl ⟨start, more, rfl, same⟩)
  constructor
  · intro scan unquoted _ start rest whole
    rcases places start rest whole with ⟨rfl, _⟩ | ⟨inside, more, rfl, same⟩ | ⟨more, rfl, same⟩
    · exact Nat.le_refl _
    · exact Nat.le_of_eq (begun scan unquoted inside more same).2.2.symm
    · obtain ⟨here, awaiting, depth⟩ := begun scan unquoted others [] (by simp)
      rw [Scan.past_append, ← depth]
      exact second.deep _ here (fun _ => awaiting) more rest same
  · intro scan unquoted _ start rest whole quoted closed depth
    rcases places start rest whole with ⟨rfl, rfl⟩ | ⟨inside, more, rfl, same⟩ | ⟨more, rfl, same⟩
    · exact may
    · rw [(begun scan unquoted inside more same).2.1] at closed
      cases closed
    · obtain ⟨here, awaiting, same_depth⟩ := begun scan unquoted others [] (by simp)
      rw [Scan.past_append] at quoted closed depth
      rw [Grammar.before_append]
      exact second.ahead _ here (fun _ => awaiting) more rest same quoted closed
        (depth.trans same_depth.symm)

/-- An operator and an operand may follow an operand. -/
theorem orderly_operator {level : Level} {entry : String × BinaryOperator}
    {Value : Type} {update : Value → RomanString → Value} {language : Grammar.Language RuleName}
    (listed : entry ∈ level.operators)
    (segment : Segment language left previous
      (.literal ⟨.encodeOrRaw entry.1, true, update⟩ : Pattern RuleName.Value Value))
    (second : Orderly false divided (before previous left) right) :
    Orderly true divided previous (left ++ right) := by
  obtain ⟨plain, expected, more, characters, expectedSolid, _⟩ := operator_characters listed
  cases segment with
  | @literal _ _ _ blanks others first blank apart spells =>
    have written := plain_of_spells spells (by simpa using plain)
    have solid : Character.isBlank first = false := by
      have same := spells
      rw [characters] at same
      rw [← (same.head_same expectedSolid).isBlank_eq, expectedSolid]
    rw [Grammar.before_append] at second
    rw [List.append_assoc]
    refine .blanks blank (.after solid apart written ?_ second)
    intro _ _ _ _ _ _ _ _
    exact .inr ⟨level, entry, listed, [] ++ first :: others, right, rfl,
      .literal (by simp) apart spells⟩

/-- A comma and an operand may follow an operand where operands are divided. -/
theorem orderly_comma {blanks : List UInt8}
    (blank : ∀ character ∈ blanks, Character.isBlank character) (allowed : divided)
    (second : Orderly false divided (before previous (blanks ++ [Character.comma])) right) :
    Orderly true divided previous (blanks ++ [Character.comma] ++ right) := by
  have kind : Character.isBlank Character.comma = false ∧
      Character.isAlphanumeric Character.comma = false ∧
      Scan.isPlain Character.comma = true := by decide
  rw [Grammar.before_append] at second
  rw [List.append_assoc]
  refine .blanks blank
    (.after kind.1 (by simp [Character.joinsWord, kind]) (by simp [kind]) ?_ second)
  intro others symbol rest same otherBlank solid _ _
  have parts : [] ++ Character.comma :: right = others ++ symbol :: rest := same
  obtain ⟨_, rfl, _⟩ := Grammar.blanks_append_inj (by simp) kind.1 otherBlank solid parts
  exact .inl ⟨allowed, rfl⟩

end Parts

/-- What is known of where the texts of a rule of expressions can go on. -/
def Arranged : Grammar.Language RuleName := fun name previous text =>
  inExpressions name → text ≠ [] →
    (∀ first ∈ text.head?, Character.joinsWord previous first = false) →
    Orderly (mayFollow name) (name = .nextArgument) previous text

/-- The texts of a rule, with where they can go on. -/
def Bounded : Grammar.Language RuleName := fun name previous text =>
  grammar.Matches name previous text ∧ Arranged name previous text

section Rules

variable {previous : Option UInt8} {text : List UInt8} {occurrences : List Grammar.Occurrence}
  {divided : Prop} {Value : Type}

/-- A text of a rule is known as part of an expression, wherever it can go on. -/
theorem Bounded.known {name : RuleName} (bounded : Bounded name previous text) :
    Known name previous text :=
  known_of_matches bounded.1

/-- An occurrence of a nested rule that begins as operands do. -/
theorem orderly_of_nested {rule : RuleName} {update : Value → rule.Value → Value}
    (segment : Segment Bounded text previous (.nested rule update : Pattern RuleName.Value Value))
    (inside : inExpressions rule) (begins : mayFollow rule = false) :
    Orderly false divided previous text := by
  cases segment with
  | nested blank _ apart inner =>
    have orderly := inner.2 inside (by simp) (by simpa using apart)
    rw [begins] at orderly
    have single : rule ≠ .nextArgument := by
      rintro rfl
      cases begins
    exact .blanks blank (orderly.mono fun same => absurd same single)

/-- An occurrence of a rule whose texts may follow an operand. -/
theorem orderly_of_following {rule : RuleName} {update : Value → rule.Value → Value}
    (segment : Segment Bounded text previous (.nested rule update : Pattern RuleName.Value Value))
    (inside : inExpressions rule) (follows : mayFollow rule = true) :
    Orderly true (rule = .nextArgument) previous text := by
  cases segment with
  | @nested _ _ _ _ blanks rest first blank _ apart inner =>
    have orderly := inner.2 inside (by simp) (by simpa using apart)
    rw [follows] at orderly
    exact .blanks blank orderly

/-- A word or a sign is passed over before an operand. -/
theorem idle_of_literal {literal : Grammar.Literal Value}
    (segment : Segment Bounded text previous (.literal literal : Pattern RuleName.Value Value))
    (plain : ∀ character ∈ literal.text.characters, Scan.isPlain character) :
    Idle previous text := by
  cases segment with
  | literal blank _ spells =>
    exact (idle_blanks blank).trans (idle_plain (plain_of_spells spells plain))

/-- A word after blanks is passed over before an operand. -/
theorem idle_of_word {update : Value → Spelling → Value}
    (segment : Segment Bounded text previous
      (.nested .word update : Pattern RuleName.Value Value)) :
    Idle previous text := by
  obtain ⟨blanks, first, rest, rfl, blank, letter, word⟩ :=
    exists_word_of_segment (segment.mono fun _ _ _ bounded => bounded.1)
  exact (idle_blanks blank).trans (idle_word letter fun character member =>
    word character (List.mem_cons_of_mem _ member))

/-- An operand of a level is orderly where an operand is awaited. -/
theorem orderly_of_operand {level : Level} {update : Value → Expression → Value}
    (segment : Segment Bounded text previous (operand update level).pattern) :
    Orderly false divided previous text := by
  cases level <;> exact orderly_of_nested segment rfl rfl

/-- An operator and its right operand may follow an operand. -/
theorem orderly_tail {level : Level}
    {branch : Grammar.Branch RuleName.Value (BinaryOperator × Expression)}
    (member : branch ∈ (grammar.rule (.tail level)).branches)
    (reads : Reads Bounded text previous branch 0 0 occurrences) :
    Orderly true divided previous text := by
  obtain ⟨entry, listed, first, rest, rfl, operator, right⟩ := tail_text member reads
  exact orderly_operator listed operator (orderly_of_operand right)

/-- A text goes on with any number of texts that may follow an operand. -/
theorem Orderly.append_repeats {follows : Bool} {quiet : Nat → Prop} {left right : List UInt8}
    {start : Option UInt8} {pattern : Pattern RuleName.Value Value} {index count position : Nat}
    (repeats : Repeats Bounded right start pattern index count position occurrences)
    (each : ∀ {text previous}, Segment Bounded text previous pattern →
      Orderly true divided previous text ∧ Part true quiet previous text)
    (orderly : Orderly follows divided previous left) (part : Part follows quiet previous left)
    (next : before previous left = start) :
    Orderly follows divided previous (left ++ right) := by
  induction repeats generalizing left with
  | none => rwa [List.append_nil]
  | @more _ _ start first rest _ _ _ _ segment _ ih =>
    obtain ⟨following, partFollowing⟩ := each (next ▸ segment)
    rw [← List.append_assoc]
    exact ih each (orderly.append part following) (part.append partFollowing) (by simp [next])

/-- A row of operands is orderly: each operator comes where one may come. -/
theorem orderly_level {level : Level} {branch : Grammar.Branch RuleName.Value Expression}
    (member : branch ∈ (grammar.rule (.level level)).branches)
    (reads : Reads Bounded text previous branch 0 0 occurrences) :
    Orderly false divided previous text := by
  obtain rfl := List.mem_singleton.mp member
  have single : (operand replace level).IsSingle := by cases level <;> exact ⟨rfl, rfl⟩
  obtain ⟨first, rest, others, rfl, segment, reads⟩ := reads.single single
  have known : ∀ {text previous} {pattern : Pattern RuleName.Value Expression},
      Segment Bounded text previous pattern → Segment Known text previous pattern :=
    fun segment => segment.mono fun _ _ _ => Bounded.known
  have head : Part false (· < level.rank) previous first :=
    (part_of_operand (known segment)).mono fun _ => Nat.le_of_lt
  cases reads with
  | cons repeats _ _ reads =>
    obtain rfl := reads.eq_nil_of_nil
    rw [List.append_nil]
    refine (orderly_of_operand segment).append_repeats repeats (fun segment => ⟨?_, ?_⟩) head rfl
    · exact (orderly_of_following segment rfl rfl).mono fun same => by cases same
    · exact part_of_nested (known segment) rfl

/-- A comma and an argument follow an operand where arguments are divided. -/
theorem orderly_nextArgument {branch : Grammar.Branch RuleName.Value Expression}
    (member : branch ∈ (grammar.rule .nextArgument).branches)
    (reads : Reads Bounded text previous branch 0 0 occurrences) :
    Orderly true True previous text := by
  obtain rfl := List.mem_singleton.mp member
  obtain ⟨comma, rest, others, rfl, segment, reads⟩ := reads.single ⟨rfl, rfl⟩
  obtain ⟨blanks, rfl, blank⟩ := symbol_text segment characters_comma rfl (by decide)
  exact orderly_comma blank trivial (orderly_of_nested (reads.last ⟨rfl, rfl⟩) rfl rfl)

/-- A text in parentheses is orderly if what is between them is. -/
theorem orderly_of_parentheses {opened inner closed : List UInt8} {next : Option UInt8}
    (openedText : Segment Bounded opened previous (Grammar.Element.literal "(" :
      ElementOf Value).pattern)
    (closedText : Segment Bounded closed next (Grammar.Element.literal ")" :
      ElementOf Value).pattern)
    (orderly : inner = [] ∨ Orderly false True (before previous opened) inner ∧
      ∃ quiet, Part false quiet (before previous opened) inner) :
    Orderly false divided previous (opened ++ (inner ++ closed)) := by
  obtain ⟨openedBlanks, rfl, openedBlank⟩ :=
    symbol_text openedText characters_opening rfl (by decide)
  obtain ⟨closedBlanks, rfl, closedBlank⟩ :=
    symbol_text closedText characters_closing rfl (by decide)
  rw [List.append_assoc]
  refine orderly_parentheses openedBlank closedBlank fun scan unquoted awaiting => ?_
  have start : before previous (openedBlanks ++ [Character.opening]) = some Character.opening := by
    simp
  rw [start] at orderly
  rcases orderly with rfl | ⟨orderly, part⟩
  · refine ⟨unquoted, rfl, fun left right whole => ?_⟩
    obtain ⟨rfl, rfl⟩ := List.append_eq_nil_iff.mp whole.symm
    exact Nat.le_refl _
  · obtain ⟨quiet, part⟩ := part
    have steady := part.steady 0 scan unquoted fun _ => awaiting
    exact ⟨steady.unquoted, steady.depth, orderly.deep scan unquoted fun _ => awaiting⟩

/-- A sign is passed over, and the operand behind it is orderly. -/
theorem orderly_unary {branch : Grammar.Branch RuleName.Value Expression}
    (member : branch ∈ (grammar.rule .unary).branches)
    (reads : Reads Bounded text previous branch 0 0 occurrences) :
    Orderly false divided previous text := by
  rw [unary_branches] at member
  simp only [List.mem_cons, List.not_mem_nil, or_false] at member
  rcases member with rfl | rfl | rfl
  · obtain ⟨sign, rest, others, rfl, segment, reads⟩ := reads.single ⟨rfl, rfl⟩
    exact (idle_of_literal segment (by decide +kernel)).append
      (orderly_of_nested (reads.last ⟨rfl, rfl⟩) rfl rfl)
  · obtain ⟨sign, rest, others, rfl, segment, reads⟩ := reads.single ⟨rfl, rfl⟩
    exact (idle_of_literal segment (by decide +kernel)).append
      (orderly_of_nested (reads.last ⟨rfl, rfl⟩) rfl rfl)
  · exact orderly_of_nested (reads.last ⟨rfl, rfl⟩) rfl rfl

/-- A factor is orderly, whether it is a constant, a call, a word or in parentheses. -/
theorem orderly_factor {branch : Grammar.Branch RuleName.Value Expression}
    (member : branch ∈ (grammar.rule .factor).branches)
    (reads : Reads Bounded text previous branch 0 0 occurrences) :
    Orderly false divided previous text := by
  rw [factor_branches] at member
  simp only [List.mem_cons, List.not_mem_nil, or_false] at member
  rcases member with rfl | rfl | rfl | rfl | rfl | rfl | rfl | rfl
  · exact orderly_of_nested (reads.last ⟨rfl, rfl⟩) rfl rfl
  · exact orderly_of_nested (reads.last ⟨rfl, rfl⟩) rfl rfl
  · exact (idle_of_literal (reads.last ⟨rfl, rfl⟩) (by decide +kernel)).orderly
  · exact (idle_of_literal (reads.last ⟨rfl, rfl⟩) (by decide +kernel)).orderly
  · exact (idle_of_literal (reads.last ⟨rfl, rfl⟩) (by decide +kernel)).orderly
  · obtain ⟨opened, rest, others, rfl, openedText, reads⟩ := reads.single ⟨rfl, rfl⟩
    obtain ⟨inner, closed, others, rfl, segment, reads⟩ := reads.single ⟨rfl, rfl⟩
    exact orderly_of_parentheses openedText (reads.last ⟨rfl, rfl⟩)
      (.inr ⟨orderly_of_nested segment rfl rfl, _,
        part_of_nested (segment.mono fun _ _ _ => Bounded.known) rfl⟩)
  · exact orderly_of_nested (reads.last ⟨rfl, rfl⟩) rfl rfl
  · exact (idle_of_word (reads.last ⟨rfl, rfl⟩)).orderly

/-- Where a call is divided by commas it is inside parentheses. -/
theorem orderly_call {branch : Grammar.Branch RuleName.Value PendingCall}
    (member : branch ∈ (grammar.rule .call).branches)
    (reads : Reads Bounded text previous branch 0 0 occurrences) :
    Orderly false divided previous text := by
  rw [call_branches] at member
  simp only [List.mem_cons, List.not_mem_nil, or_false] at member
  have known : ∀ {text previous} {pattern : Pattern RuleName.Value PendingCall},
      Segment Bounded text previous pattern → Segment Known text previous pattern :=
    fun segment => segment.mono fun _ _ _ => Bounded.known
  rcases member with rfl | rfl | rfl | rfl
  · obtain ⟨name, rest, others, rfl, nameText, reads⟩ := reads.single ⟨rfl, rfl⟩
    obtain ⟨opened, closed, others, rfl, openedText, reads⟩ := reads.single ⟨rfl, rfl⟩
    rw [← List.nil_append closed]
    exact (idle_of_word nameText).append
      (orderly_of_parentheses openedText (reads.last ⟨rfl, rfl⟩) (.inl rfl))
  · obtain ⟨name, rest, others, rfl, nameText, reads⟩ := reads.single ⟨rfl, rfl⟩
    obtain ⟨opened, rest, others, rfl, openedText, reads⟩ := reads.single ⟨rfl, rfl⟩
    obtain ⟨argument, rest, others, rfl, segment, reads⟩ := reads.single ⟨rfl, rfl⟩
    cases reads with
    | @cons _ _ _ _ arguments closed _ _ _ _ _ repeats _ _ reads =>
      have part : Part false (fun _ => False) _ argument := part_of_nested (known segment) rfl
      have first : Orderly false True _ argument := orderly_of_nested segment rfl rfl
      have orderly := first.append_repeats repeats (fun segment =>
        ⟨(orderly_of_following segment rfl rfl).mono fun _ => trivial,
          part_of_nested (known segment) rfl⟩) part rfl
      have parts : Part false (fun _ => False) _ (argument ++ arguments) :=
        part.append_repeats (repeats.mono fun _ _ _ => Bounded.known)
          (fun segment => part_of_nested segment rfl) rfl
      rw [← List.append_assoc argument]
      exact (idle_of_word nameText).append (orderly_of_parentheses openedText
        (reads.last ⟨rfl, rfl⟩) (.inr ⟨orderly, _, parts⟩))
  · have named : ∀ {text previous index position occurrences},
        Reads Bounded text previous
          ([nested .word .setName, .keyword "of", nested .factor .addArgument] :
            Grammar.Branch RuleName.Value PendingCall)
          index position occurrences → Orderly false divided previous text := by
      intro text previous index position occurrences reads
      obtain ⟨name, rest, others, rfl, nameText, reads⟩ := reads.single ⟨rfl, rfl⟩
      obtain ⟨word, rest, others, rfl, wordText, reads⟩ := reads.single ⟨rfl, rfl⟩
      exact (idle_of_word nameText).append ((idle_of_literal wordText (by decide +kernel)).append
        (orderly_of_nested (reads.last ⟨rfl, rfl⟩) rfl rfl))
    rcases reads.optional rfl with reads | ⟨article, rest, others, rfl, articleText, reads⟩
    · exact named reads
    · exact (idle_of_literal articleText (by decide +kernel)).append (named reads)
  · obtain ⟨article, rest, others, rfl, articleText, reads⟩ := reads.single ⟨rfl, rfl⟩
    exact (idle_of_literal articleText (by decide +kernel)).append
      (idle_of_word (reads.last ⟨rfl, rfl⟩)).orderly

end Rules

/-- Where the texts of the rules of expressions can go on. -/
theorem bounded_of_matches {name : RuleName} {previous : Option UInt8} {text : List UInt8}
    (matched : grammar.Matches name previous text) : Bounded name previous text := by
  refine ⟨matched, ?_⟩
  refine Grammar.Matches.induction (motive := Arranged) ?_ matched
  intro name previous text branch occurrences member reads inside nonempty apart
  cases name with
  | word =>
    obtain ⟨first, rest, rfl, letter, word⟩ := word_text member reads
    exact (idle_word letter word).orderly
  | number => exact orderly_number (number_text member reads).2 apart
  | string =>
    obtain ⟨content, rfl, inside⟩ := string_text member reads
    exact orderly_string inside
  | expression =>
    obtain rfl := List.mem_singleton.mp member
    exact orderly_of_nested (reads.last ⟨rfl, rfl⟩) rfl rfl
  | factor => exact orderly_factor member reads
  | call => exact orderly_call member reads
  | nextArgument => exact (orderly_nextArgument member reads).mono fun _ => rfl
  | unary => exact orderly_unary member reads
  | level level => exact orderly_level member reads
  | tail level => exact orderly_tail member reads
  | _ => cases inside

/-- What begins with something else than an operator does not follow an operand. -/
theorem not_mayFollow_of_fails {previous : Option UInt8} {blanks others rest : List UInt8}
    {symbol : UInt8} (blank : ∀ character ∈ blanks, Character.isBlank character)
    (solid : Character.isBlank symbol = false)
    (apart : Character.joinsWord (before previous blanks) symbol = false)
    (plain : Scan.isPlain symbol = true)
    (fails : ∀ level : Level, ∀ entry ∈ level.operators, Grammar.Literal.fails
      ⟨.encodeOrRaw entry.1, true, fun (value : Expression) _ => value⟩ (.awaiting previous)
      (blanks ++ symbol :: others) = true) :
    ¬ MayFollow False previous (blanks ++ symbol :: others ++ rest) := by
  intro may
  rcases may blanks symbol (others ++ rest) (by simp) blank solid apart plain with
    ⟨none, _⟩ | ⟨level, entry, listed, first, tail, whole, segment⟩
  · exact none
  · obtain ⟨_, expected, more, characters, proper, _⟩ := operator_characters listed
    exact Grammar.not_segment_of_fails ⟨expected, more, characters, proper⟩
      (fails level entry listed) whole segment

/-- An expression that begins like another text which ends in an operand does not go on beyond it
over what may not follow. -/
theorem length_le_of_not_mayFollow {previous : Option UInt8} {text rest other tail : List UInt8}
    {scan : Scan} (whole : text ++ rest = other ++ tail)
    (orderly : Orderly false False previous other)
    (solid : ∀ last ∈ other.getLast?, Character.isBlank last = false)
    (awaiting : scan.quoted = false ∧ scan.closed = false)
    (closes : (scan.past 0 previous text).quoted = false ∧
      (scan.past 0 previous text).closed = true ∧
      (scan.past 0 previous text).depth = scan.depth)
    (barred : rest = [] ∨ ¬ MayFollow False (before previous text) rest) :
    other.length ≤ text.length := by
  rcases List.append_eq_append_iff.mp whole with ⟨more, rfl, rfl⟩ | ⟨more, rfl, _⟩
  · cases more with
    | nil => simp
    | cons next more =>
      have may := orderly.ahead scan awaiting.1 (fun _ => awaiting.2) text (next :: more) rfl
        closes.1 closes.2.1 closes.2.2
      rw [List.getLast?_append, List.getLast?_eq_some_getLast (List.cons_ne_nil _ _)] at solid
      rcases barred with empty | barred
      · cases empty
      · exact absurd (may.append (List.cons_ne_nil _ _) solid) barred
  · simp

end HyperCard.HyperTalk
