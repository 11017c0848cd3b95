import HyperCard.Proofs.Script.Precedence

/-!
# Outside of strings

A string is open where a scan is quoted, which depends on the quotes before and on nothing else.
The characters of a text outside its strings are those that words and symbols can be read from. A
tree of operators writes no word there but those of operators, and none of them has the letter that
begins the word before replies.
-/
namespace HyperCard.HyperTalk

/-- Whether a string is open after a text. -/
def opens (quoted : Bool) : List UInt8 → Bool
  | [] => quoted
  | character :: rest => opens (if character == Character.quote then !quoted else quoted) rest

/-- The characters of a text outside its strings. -/
def outside (quoted : Bool) : List UInt8 → List UInt8
  | [] => []
  | character :: rest =>
    if character == Character.quote then outside (!quoted) rest
    else if quoted then outside quoted rest
    else character :: outside quoted rest

section Texts

variable {quoted : Bool} {text left right : List UInt8}

/-- A text after another begins inside a string if the first one leaves it open. -/
theorem opens_append : opens quoted (left ++ right) = opens (opens quoted left) right := by
  induction left generalizing quoted with
  | nil => rfl
  | cons character left ih => exact ih

/-- What is outside the strings is so part by part. -/
theorem outside_append :
    outside quoted (left ++ right) = outside quoted left ++ outside (opens quoted left) right := by
  induction left generalizing quoted with
  | nil => rfl
  | cons character left ih =>
    rw [List.cons_append, outside, outside, opens]
    by_cases isQuote : character == Character.quote
    · simp only [isQuote, ↓reduceIte, ih]
    · cases quoted <;> simp [isQuote, ih]

/-- Where there is no quote nothing changes. -/
theorem opens_of_forall (unquote : ∀ character ∈ text, character ≠ Character.quote) :
    opens quoted text = quoted := by
  induction text with
  | nil => rfl
  | cons character text ih =>
    have other := unquote character List.mem_cons_self
    rw [opens, if_neg (by simpa using other)]
    exact ih fun next member => unquote next (List.mem_cons_of_mem _ member)

/-- A text with no quote is outside its strings as a whole, or not at all. -/
theorem outside_of_forall (unquote : ∀ character ∈ text, character ≠ Character.quote) :
    outside quoted text = if quoted then [] else text := by
  induction text with
  | nil => cases quoted <;> rfl
  | cons character text ih =>
    have other := unquote character List.mem_cons_self
    rw [outside, if_neg (by simpa using other),
      ih fun next member => unquote next (List.mem_cons_of_mem _ member)]
    cases quoted <;> rfl

/-- A scan is quoted where a string is open. -/
theorem Scan.quoted_past {tightest : Nat} {previous : Option UInt8} {scan : Scan} :
    (scan.past tightest previous text).quoted = opens scan.quoted text := by
  induction text generalizing scan previous with
  | nil => rfl
  | cons character text ih =>
    have step : (scan.step tightest previous character).quoted =
        if character == Character.quote then !scan.quoted else scan.quoted := by
      have kind : Character.isBlank Character.quote = false ∧
          Character.isAlphanumeric Character.quote = false := by decide
      by_cases isQuote : character = Character.quote
      · subst isQuote
        cases quoted : scan.quoted <;> simp [Scan.step, quoted, Character.joinsWord, kind]
      · unfold Scan.step
        repeat' split
        all_goals simp_all
    rw [Scan.past_cons, ih, step, opens]

end Texts

/-- The small letter that begins the word before replies. -/
abbrev repliesLetter : UInt8 := 0x77

/-- A text that closes its strings and has no word before replies outside of them. -/
structure Calm (text : List UInt8) : Prop where
  /-- No string is open at the end. -/
  closed : opens false text = false
  /-- The letter is not written outside of strings. -/
  silent : ∀ character ∈ outside false text, Character.toLower character ≠ repliesLetter

section Calm

variable {text left right : List UInt8}

/-- Calm texts stay calm one after the other. -/
theorem Calm.append (first : Calm left) (second : Calm right) : Calm (left ++ right) where
  closed := by rw [opens_append, first.closed, second.closed]
  silent := by
    intro character member
    rw [outside_append, first.closed] at member
    exact (List.mem_append.mp member).elim (first.silent character) (second.silent character)

/-- Whether a character is no quote and not the letter that begins the word before replies. -/
def isCalm (character : UInt8) : Bool :=
  character != Character.quote && Character.toLower character != repliesLetter

/-- A text of calm characters is calm. -/
theorem calm_of_forall (calm : ∀ character ∈ text, isCalm character) : Calm text := by
  simp only [isCalm, Bool.and_eq_true, bne_iff_ne] at calm
  have unquote : ∀ character ∈ text, character ≠ Character.quote :=
    fun character member => (calm character member).1
  refine ⟨opens_of_forall unquote, fun character member => ?_⟩
  rw [outside_of_forall unquote] at member
  exact (calm character member).2

/-- A calm character may stand in front. -/
theorem calm_cons {first : UInt8} (calm : isCalm first = true) (others : Calm text) :
    Calm (first :: text) := by
  have head : Calm [first] := calm_of_forall (by simpa using calm)
  exact head.append others

/-- A string in quotes is calm, whatever is in it. -/
theorem calm_string {content : List UInt8}
    (inside : ∀ character ∈ content, isStringCharacter character) :
    Calm (Character.quote :: (content ++ [Character.quote])) := by
  have unquote : ∀ character ∈ content, character ≠ Character.quote := fun character member =>
    ne_quote_of_isStringCharacter (inside character member)
  constructor
  · rw [opens, opens_append, opens_of_forall unquote]
    rfl
  · rw [outside, outside_append, opens_of_forall unquote, outside_of_forall unquote]
    simp [outside]

/-- No operator is spelled with the letter that begins the word before replies. -/
theorem calm_spelling {operator : BinaryOperator} {spelling : String}
    (spelled : IsSpelling operator spelling) :
    Calm (RomanString.encodeOrRaw spelling).characters := by
  have checked : ∀ level : Level, ∀ entry ∈ level.operators,
      ∀ character ∈ (RomanString.encodeOrRaw entry.1).characters, isCalm character = true := by
    intro level
    cases level <;> decide +kernel
  exact calm_of_forall (checked operator.level (spelling, operator) spelled.1)

/-- A tree of operators writes the word before replies in strings only. -/
theorem calm_of_renders {rank : Nat} {expression : Expression}
    (renders : Renders rank expression text) (tree : IsOperatorTree expression) : Calm text := by
  have space : isCalm Character.space = true := by decide
  induction renders with
  | @integer _ value =>
    have digit : ∀ character, Character.isDigit character → isCalm character = true :=
      forall_byte (by decide)
    exact calm_of_forall fun character member =>
      digit character (Written.isDigit_decimal value character member)
  | string => exact calm_string tree
  | @unary _ operator _ _ _ ih =>
    have sign : Calm (RomanString.encodeOrRaw (sign operator)).characters :=
      calm_of_forall (by cases operator <;> decide +kernel)
    exact sign.append (calm_cons space (ih tree))
  | binary _ spelled _ _ leftIh rightIh =>
    exact (leftIh tree.1).append (calm_cons space
      ((calm_spelling spelled).append (calm_cons space (rightIh tree.2))))
  | parentheses _ _ ih =>
    have ends : Calm [Character.space, Character.closing] :=
      calm_of_forall (by simp; decide)
    exact calm_cons (by decide) (calm_cons space ((ih tree).append ends))

end Calm

end HyperCard.HyperTalk
