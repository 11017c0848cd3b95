import HyperCard.Grammar.Literal

/-!
# Matching character by character

A matcher keeps every partial interpretation of its input alive at once. Each attempt follows
one branch of the rule and stands in one occurrence of one element. When that occurrence is
complete, attempts for its repetition and for the elements after it follow the attempt, which
itself stays as long as the occurrence may still become longer. Attempts are kept in order of
preference: earlier branches first, and within a branch longer occurrences first. The value of
a matcher is that of its first attempt that completes the branch with the last character.

A nested rule starts at the first character that is not blank. That character may start several
rules, one inside the other, before it is matched; a rule that does not begin with itself is
entered at most once on the way, so the number of rules bounds their number.
-/
namespace HyperCard.Grammar

variable {ι : Type}

/-- Where an attempt stands in its branch. -/
structure Place (Val : ι → Type) (Value : Type) where
  /-- The value of the completed occurrences. -/
  value : Value
  /-- The position of the branch in its rule. -/
  branch : Nat
  /-- The position of the current element in the branch. -/
  index : Nat
  /-- How many occurrences of that element are complete. -/
  occurrence : Nat
  /-- The current element. -/
  element : Element Val Value
  /-- The elements after it. -/
  following : Branch Val Value

mutual

/-- A live interpretation of the input as a branch of the rule `i`. -/
inductive Attempt (Val : ι → Type) : ι → Type
  /-- Inside a text. -/
  | literal {i : ι} (place : Place Val (Val i)) (literal : Literal (Val i))
      (progress : LiteralProgress) : Attempt Val i
  /-- Before a single character. -/
  | character {i : ι} (place : Place Val (Val i)) (set : CharacterSet (Val i)) : Attempt Val i
  /-- Before the first character of a nested rule, with the character just before. -/
  | pending {i : ι} (place : Place Val (Val i)) (rule : ι) (update : Val i → Val rule → Val i)
      (previous : Option UInt8) : Attempt Val i
  /-- Inside a nested rule. -/
  | inside {i : ι} (place : Place Val (Val i)) (rule : ι) (update : Val i → Val rule → Val i)
      (attempts : Attempts Val rule) : Attempt Val i

/-- Attempts in order of preference. -/
inductive Attempts (Val : ι → Type) : ι → Type
  /-- No attempt. -/
  | nil {i : ι} : Attempts Val i
  /-- The most preferred attempt and the others. -/
  | cons {i : ι} (head : Attempt Val i) (tail : Attempts Val i) : Attempts Val i

end

namespace Attempts

variable {Val : ι → Type} {i : ι}

/-- The attempts as a list. -/
def toList : {i : ι} → Attempts Val i → List (Attempt Val i)
  | _, .nil => []
  | _, .cons head tail => head :: tail.toList

/-- Attempts from a list. -/
def ofList (attempts : List (Attempt Val i)) : Attempts Val i := attempts.foldr .cons .nil

/-- Attempts, then other attempts. -/
def append : {i : ι} → Attempts Val i → Attempts Val i → Attempts Val i
  | _, .nil, right => right
  | _, .cons head tail, right => .cons head (tail.append right)

instance : Append (Attempts Val i) := ⟨append⟩

/-- Whether there is no attempt. -/
def isEmpty : Attempts Val i → Bool
  | .nil => true
  | .cons _ _ => false

end Attempts

/-- The attempts that are alive after some input, and the value of that input. -/
structure Matcher (Val : ι → Type) (i : ι) where
  /-- The live attempts. -/
  attempts : Attempts Val i
  /-- The value of the preferred complete match, if there is one. -/
  value : Option (Val i)

namespace Matcher

variable {Val : ι → Type} {i : ι}

/-- No attempt and no value. -/
def dead : Matcher Val i := ⟨.nil, none⟩

/-- The attempts of both, with the value of the first that has one. -/
def merge (left right : Matcher Val i) : Matcher Val i :=
  ⟨left.attempts ++ right.attempts, left.value <|> right.value⟩

/-- Whether any interpretation is alive. -/
def canContinue (matcher : Matcher Val i) : Bool := !matcher.attempts.isEmpty

/-- The number of live interpretations. -/
def attemptCount (matcher : Matcher Val i) : Nat := matcher.attempts.toList.length

end Matcher

/-- An attempt at one more occurrence of the current element. -/
def Place.attempt {Val : ι → Type} {i : ι} (place : Place Val (Val i)) (previous : Option UInt8) :
    Attempt Val i :=
  match place.element.pattern with
  | .literal literal => .literal place literal (.awaiting previous)
  | .character set => .character place set
  | .nested rule update => .pending place rule update previous

/-- Attempts at the first occurrence of each element that may come next: the elements that may
be absent and the first one that may not. -/
def seed {Val : ι → Type} {i : ι} (value : Val i) (branch : Nat) (previous : Option UInt8) :
    Nat → Branch Val (Val i) → Attempts Val i
  | _, [] => .nil
  | index, element :: following =>
    let first := Place.attempt ⟨value, branch, index, 0, element, following⟩ previous
    if element.minimum == 0 then
      .cons first (seed value branch previous (index + 1) following)
    else .cons first .nil

/-- What follows when an occurrence is complete with a character, given the new value: attempts
at its repetition and at the elements after it, and the value if the branch may end there. -/
def Place.complete {Val : ι → Type} {i : ι} (place : Place Val (Val i)) (value : Val i)
    (character : UInt8) : Matcher Val i :=
  let count := place.occurrence + 1
  let repetition :=
    if place.element.allowsRepeat count then
      .cons (Place.attempt { place with value, occurrence := count } (some character)) .nil
    else .nil
  if place.element.minimum ≤ count then
    ⟨repetition ++ seed value place.branch (some character) (place.index + 1) place.following,
      if canEnd place.following then some value else none⟩
  else ⟨repetition, none⟩

/-- What becomes of an attempt inside a nested rule, given what became of the rule: it stays
while the rule may go on, and it is complete whenever the rule has a value. -/
def Place.nest {Val : ι → Type} {i : ι} (place : Place Val (Val i)) (rule : ι)
    (update : Val i → Val rule → Val i) (inner : Matcher Val rule) (character : UInt8) :
    Matcher Val i :=
  let completed :=
    match inner.value with
    | some value => place.complete (update place.value value) character
    | none => .dead
  if inner.attempts.isEmpty then completed
  else ⟨.cons (.inside place rule update inner.attempts) completed.attempts, completed.value⟩

mutual

/-- What becomes of an attempt with one more character, where `enter` starts a nested rule with
that character. -/
def Attempt.step {Val : ι → Type}
    (enter : (rule : ι) → Option UInt8 → UInt8 → Matcher Val rule) (character : UInt8) :
    {i : ι} → Attempt Val i → Matcher Val i
  | _, .literal place literal progress =>
    match literal.advance progress character with
    | none => .dead
    | some (.inside _ [] matched) =>
      place.complete (literal.update place.value ⟨matched.reverse⟩) character
    | some advanced => ⟨.cons (.literal place literal advanced) .nil, none⟩
  | _, .character place set =>
    if set.accepts character then place.complete (set.update place.value character) character
    else .dead
  | _, .pending place rule update previous =>
    if Character.isBlank character then
      ⟨.cons (.pending place rule update (some character)) .nil, none⟩
    else if Character.joinsWord previous character then .dead
    else place.nest rule update (enter rule previous character) character
  | _, .inside place rule update attempts =>
    place.nest rule update (attempts.step enter character) character

/-- What becomes of attempts with one more character; the first value counts. -/
def Attempts.step {Val : ι → Type}
    (enter : (rule : ι) → Option UInt8 → UInt8 → Matcher Val rule) (character : UInt8) :
    {i : ι} → Attempts Val i → Matcher Val i
  | _, .nil => .dead
  | _, .cons head tail => (head.step enter character).merge (tail.step enter character)

end

variable {Val : ι → Type}

/-- Attempts at the branches of a rule, numbered from the given one. -/
def seedBranches {i : ι} (initial : Val i) (previous : Option UInt8) :
    Nat → List (Branch Val (Val i)) → Attempts Val i
  | _, [] => .nil
  | index, branch :: later =>
    seed initial index previous 0 branch ++ seedBranches initial previous (index + 1) later

/-- A matcher of a rule before any character, right after the character given. -/
def start (grammar : Grammar Val) (name : ι) (previous : Option UInt8) : Matcher Val name :=
  let rule := grammar.rule name
  ⟨seedBranches rule.initial previous 0 rule.branches,
    if rule.branches.any canEnd then some rule.initial else none⟩

/-- Start a rule with a character that may start at most `depth` rules one inside the other. -/
def enter (grammar : Grammar Val) : (depth : Nat) → (name : ι) → Option UInt8 → UInt8 →
    Matcher Val name
  | 0, _, _, _ => .dead
  | depth + 1, name, previous, character =>
    (grammar.start name previous).attempts.step (grammar.enter depth) character

/-- A matcher after one more character. -/
def feed (grammar : Grammar Val) {name : ι} (matcher : Matcher Val name) (character : UInt8) :
    Matcher Val name :=
  matcher.attempts.step (grammar.enter grammar.size) character

/-- A matcher after more characters. -/
def feedAll (grammar : Grammar Val) {name : ι} (matcher : Matcher Val name)
    (characters : List UInt8) : Matcher Val name :=
  characters.foldl grammar.feed matcher

/-- A matcher before any character and after each one. -/
def trace (grammar : Grammar Val) {name : ι} (matcher : Matcher Val name) :
    List UInt8 → List (Matcher Val name)
  | [] => [matcher]
  | character :: rest => matcher :: grammar.trace (grammar.feed matcher character) rest

/-- The value of a whole line, blanks around it ignored. -/
def parse (grammar : Grammar Val) (name : ι) (text : RomanString) : Option (Val name) :=
  go (grammar.start name none) text.trimmed.characters
where
  /-- The value of the rest of the line; once no interpretation is alive there is none. -/
  go (matcher : Matcher Val name) : List UInt8 → Option (Val name)
    | [] => matcher.value
    | character :: rest =>
      if matcher.canContinue then go (grammar.feed matcher character) rest else none

end HyperCard.Grammar
