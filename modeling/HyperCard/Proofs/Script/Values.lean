import HyperCard.Proofs.Script.Operators
import Mathlib.Data.List.TakeDrop

/-!
# Which expressions texts denote

Not every tree is the value of some text. A whole number fits 31 bits, a string has no quote and no
end of a line, a variable is a word but none of the words for constants, because a constant is
preferred to a variable, and the name of a function is a word in small letters. This holds of all
values of the rules of expressions, by induction on what their texts denote.
-/
namespace HyperCard

/-- Whether a text is a letter with letters and digits after it. -/
def IsWord (text : RomanString) : Prop :=
  ∃ first rest, text.characters = first :: rest ∧ Character.isLetter first ∧
    ∀ character ∈ rest, Character.isAlphanumeric character

namespace Expression

/-- The words that are constants in any case. -/
def constants : List String := ["true", "false", "empty"]

mutual

/-- Whether a number in the binary format is in an expression. -/
def hasReal : Expression → Bool
  | .real _ => true
  | .unary _ operand => operand.hasReal
  | .binary _ left right => left.hasReal || right.hasReal
  | .call _ arguments => anyHasReal arguments
  | .string _ | .word _ | .integer _ | .boolean _ => false

/-- Whether a number in the binary format is in one of some expressions. -/
def anyHasReal : List Expression → Bool
  | [] => false
  | argument :: arguments => argument.hasReal || anyHasReal arguments

end

/-- The expressions that can be written without numbers in the binary format. -/
inductive WellFormed : Expression → Prop
  /-- A string has no quote and no end of a line. -/
  | string {content : RomanString}
      (inside : ∀ character ∈ content.characters, HyperTalk.isStringCharacter character) :
      WellFormed (.string content)
  /-- A variable is no constant. -/
  | word {name : RomanString} (word : IsWord name)
      (other : ∀ constant ∈ constants, name.toLower ≠ .encodeOrRaw constant) :
      WellFormed (.word name)
  /-- A whole number has 31 bits. -/
  | integer {value : Nat} (small : value ≤ Written.greatestWhole) : WellFormed (.integer value)
  /-- A truth value. -/
  | boolean {value : Bool} : WellFormed (.boolean value)
  /-- An operator and its operand. -/
  | unary {operator : UnaryOperator} {operand : Expression} (inner : WellFormed operand) :
      WellFormed (.unary operator operand)
  /-- An operator and its operands. -/
  | binary {operator : BinaryOperator} {left right : Expression} (first : WellFormed left)
      (second : WellFormed right) : WellFormed (.binary operator left right)
  /-- A call has a name in small letters. -/
  | call {name : RomanString} {arguments : List Expression} (word : IsWord name)
      (small : ∀ character ∈ name.characters, Character.isCapital character = false)
      (inner : ∀ argument ∈ arguments, WellFormed argument) : WellFormed (.call name arguments)

end Expression

namespace HyperTalk

open Grammar (Reads Branch Segment Updates Applies)

/-- What holds of an expression in which no number has the binary format. -/
def Sane (expression : Expression) : Prop :=
  expression.hasReal = false → expression.WellFormed

section Texts

variable {meaning : Grammar.Meaning RuleName.Value} {language : Grammar.Language RuleName}
  {text : List UInt8} {previous : Option UInt8} {index position : Nat}
  {occurrences : List Grammar.Occurrence}

/-- A branch of single characters collects its text. -/
theorem collected_of_applies {Value : Type} {branch : Branch RuleName.Value Value}
    {old new : Value} (collected : Value → List UInt8)
    (collects : ∀ element ∈ branch, ∃ set, element.pattern = .character set ∧
      ∀ value character, collected (set.update value character) = character :: collected value)
    (applies : Applies meaning text previous branch position occurrences old new) :
    collected new = text.reverse ++ collected old := by
  induction applies with
  | nil => rfl
  | cons found update _ ih =>
    obtain ⟨set, pattern, step⟩ := collects _ (List.mem_of_getElem? found)
    rw [pattern] at update
    cases update with
    | character =>
      rw [ih collected collects, step]
      simp

/-- A word is spelled by its text. -/
theorem word_value {value : Spelling} (denotes : grammar.Denotes .word previous text value) :
    value.text = ⟨text⟩ ∧ IsWord ⟨text⟩ := by
  obtain ⟨reading, branch, preferred, found, applies⟩ := denotes.exists_reading
  have member := List.mem_of_getElem? found
  refine ⟨?_, word_text member (preferred.reads found)⟩
  obtain rfl := List.mem_singleton.mp member
  have spelled := collected_of_applies Spelling.reversed (fun element inside => by
    rcases List.mem_cons.mp inside with rfl | inside
    · exact ⟨_, rfl, fun _ _ => rfl⟩
    · obtain rfl := List.mem_singleton.mp inside
      exact ⟨_, rfl, fun _ _ => rfl⟩) applies
  rw [Spelling.text, spelled]
  simp [grammar, rule, wordRule, define, Spelling.empty]

/-- The texts of numbers. -/
theorem number_shape {branch : Branch RuleName.Value Spelling}
    (member : branch ∈ (grammar.rule .number).branches)
    (reads : Reads language text previous branch 0 0 occurrences) :
    ∃ digits places, (∀ character ∈ digits, Character.isDigit character) ∧
      (∀ character ∈ places, Character.isDigit character) ∧ digits ++ places ≠ [] ∧
      (text = digits ∧ places = [] ∨ text = digits ++ Character.point :: places) := by
  have point : ∀ {text : List UInt8} {previous : Option UInt8}, Segment language text previous
      (Grammar.Element.character (· == Character.point) .push : ElementOf Spelling).pattern →
      text = [Character.point] := by
    intro text previous segment
    cases segment with
    | character accepted => rw [eq_of_beq accepted]
  rw [number_branches] at member
  simp only [List.mem_cons, List.not_mem_nil, or_false] at member
  rcases member with rfl | rfl | rfl
  · obtain ⟨digits, rest, _, rfl, enough, accepted, reads⟩ := reads.exists_characters rfl
    obtain rfl := reads.eq_nil_of_nil
    have nonempty : digits ≠ [] := List.ne_nil_of_length_pos enough
    exact ⟨digits, [], accepted, by simp, by simpa using nonempty, .inl (by simp)⟩
  · obtain ⟨digits, rest, _, rfl, enough, accepted, reads⟩ := reads.exists_characters rfl
    have nonempty : digits ≠ [] := List.ne_nil_of_length_pos enough
    obtain ⟨mark, rest, _, rfl, segment, reads⟩ := reads.single ⟨rfl, rfl⟩
    obtain rfl := point segment
    obtain ⟨places, rest, _, rfl, _, inside, reads⟩ := reads.exists_characters rfl
    obtain rfl := reads.eq_nil_of_nil
    exact ⟨digits, places, accepted, inside, by simp [nonempty], .inr (by simp)⟩
  · obtain ⟨mark, rest, _, rfl, segment, reads⟩ := reads.single ⟨rfl, rfl⟩
    obtain rfl := point segment
    obtain ⟨places, rest, _, rfl, enough, accepted, reads⟩ := reads.exists_characters rfl
    obtain rfl := reads.eq_nil_of_nil
    have nonempty : places ≠ [] := List.ne_nil_of_length_pos enough
    exact ⟨[], places, by simp, accepted, by simpa using nonempty, .inr (by simp)⟩

/-- What a number is written like has a value in the binary format. -/
theorem exists_real {digits places : List UInt8}
    (isDigit : ∀ character ∈ digits, Character.isDigit character)
    (isPlace : ∀ character ∈ places, Character.isDigit character) (nonempty : digits ++ places ≠ [])
    (written : text = digits ∧ places = [] ∨ text = digits ++ Character.point :: places) :
    ∃ value, Written.real? ⟨text⟩ = some value := by
  have span : ∀ rest : List UInt8, (∀ next ∈ rest.head?, Character.isDigit next = false) →
      (digits ++ rest).span Character.isDigit = (digits, rest) := by
    intro rest stops
    rw [List.span_eq_takeWhile_dropWhile, List.takeWhile_append_of_pos isDigit,
      List.dropWhile_append_of_pos isDigit]
    cases rest with
    | nil => simp
    | cons next rest =>
      have stop : ¬ Character.isDigit next = true := by simp [stops next rfl]
      rw [List.takeWhile_cons_of_neg stop, List.dropWhile_cons_of_neg stop, List.append_nil]
  rcases written with ⟨rfl, rfl⟩ | rfl
  · have whole := span [] (by simp)
    rw [List.append_nil] at whole nonempty
    rw [Written.real?, whole]
    simp [nonempty]
  · have whole := span (Character.point :: places) (by simp; decide)
    have all : places.all Character.isDigit = true := List.all_eq_true.mpr isPlace
    have filled : ¬(digits = [] ∧ places = []) := fun none => nonempty (by simp [none])
    rw [Written.real?, whole]
    simp [all, filled]

/-- A number is spelled by its text. -/
theorem number_spelled {value : Spelling}
    (denotes : grammar.Denotes .number previous text value) : value.text = ⟨text⟩ := by
  obtain ⟨reading, branch, preferred, found, applies⟩ := denotes.exists_reading
  have member := List.mem_of_getElem? found
  have collected := collected_of_applies Spelling.reversed (fun element inside => by
    rcases number_sets member inside with pattern | pattern <;>
      exact ⟨_, pattern, fun _ _ => rfl⟩) applies
  rw [Spelling.text, collected]
  simp [grammar, rule, numberRule, define, Spelling.empty]

/-- A number is whole or has the binary format. -/
theorem number_value {value : Spelling}
    (denotes : grammar.Denotes .number previous text value) : Sane (numberLiteral value.text) := by
  have spelled := number_spelled denotes
  obtain ⟨reading, branch, preferred, found, applies⟩ := denotes.exists_reading
  obtain ⟨digits, places, isDigit, isPlace, nonempty, written⟩ :=
    number_shape (List.mem_of_getElem? found) (preferred.reads found)
  obtain ⟨real, isReal⟩ := exists_real isDigit isPlace nonempty written
  intro whole
  rw [spelled, numberLiteral] at whole ⊢
  cases number : Written.whole? ⟨text⟩ with
  | some value =>
    have small : value ≤ Written.greatestWhole := by
      unfold Written.whole? at number
      split at number
      · dsimp only at number
        split at number
        · rename_i fits
          rw [Bool.and_eq_true, decide_eq_true_eq, decide_eq_true_eq] at fits
          rw [← Option.some.inj number]
          exact fits.2
        · cases number
      · cases number
    exact .integer small
  | none =>
    rw [number, isReal] at whole
    cases whole

/-- A string is spelled by what is between its quotes. -/
theorem string_value {value : Spelling}
    (denotes : grammar.Denotes .string previous text value) :
    ∀ character ∈ value.text.characters, isStringCharacter character := by
  obtain ⟨reading, branch, preferred, found, _⟩ := denotes.exists_reading
  obtain ⟨content, rfl, inside⟩ := string_text (List.mem_of_getElem? found) (preferred.reads found)
  rw [(quotes_denote inside).unique denotes, Spelling.text, List.reverse_reverse]
  exact inside

end Texts

/-- What is claimed of the values of the rules of expressions. -/
def Sound : (name : RuleName) → name.Value → Prop
  | .expression, value | .factor, value | .nextArgument, value | .unary, value
  | .level _, value => Sane value
  | .call, value => IsWord value.name.text ∧ ∀ argument ∈ value.reversedArguments, Sane argument
  | .tail _, value => Sane value.2
  | _, _ => True

/-- What texts denote, with what is claimed of it. -/
def Meant : Grammar.Meaning RuleName.Value := fun name previous text value =>
  grammar.Denotes name previous text value ∧ Sound name value

section Rules

variable {text : List UInt8} {previous : Option UInt8} {position : Nat}
  {occurrences : List Grammar.Occurrence}

/-- The value that rules of expressions start with is a string, and it is empty. -/
theorem sane_emptyText : Sane .emptyText := fun _ => .string (by simp [RomanString.empty])

/-- A sign before a well-formed tree gives one. -/
theorem sane_unary {operator : UnaryOperator} {operand : Expression} (sane : Sane operand) :
    Sane (.unary operator operand) := fun whole => .unary (sane whole)

/-- So does an operator between two. -/
theorem sane_binary {operator : BinaryOperator} {left right : Expression} (first : Sane left)
    (second : Sane right) : Sane (.binary operator left right) := by
  intro whole
  rw [Expression.hasReal, Bool.or_eq_false_iff] at whole
  exact .binary (first whole.1) (second whole.2)

/-- Arguments have no number in the binary format if none of them has one. -/
theorem anyHasReal_eq_false {arguments : List Expression} :
    Expression.anyHasReal arguments = false ↔
      ∀ argument ∈ arguments, argument.hasReal = false := by
  induction arguments with
  | nil => simp [Expression.anyHasReal]
  | cons argument arguments ih => simp [Expression.anyHasReal, ih]

/-- A word in small letters is a word. -/
theorem isWord_toLower {name : RomanString} (word : IsWord name) : IsWord name.toLower := by
  have letter : ∀ character, Character.isLetter character →
      Character.isLetter (Character.toLower character) := forall_byte (by decide)
  have alphanumeric : ∀ character, Character.isAlphanumeric character →
      Character.isAlphanumeric (Character.toLower character) := forall_byte (by decide)
  obtain ⟨first, rest, characters, isLetter, others⟩ := word
  refine ⟨Character.toLower first, rest.map Character.toLower, ?_, letter first isLetter, ?_⟩
  · rw [RomanString.toLower, characters]
    rfl
  · intro character member
    obtain ⟨other, inside, rfl⟩ := List.mem_map.mp member
    exact alphanumeric other (others other inside)

/-- A call whose arguments are well formed is so, with its name in small letters. -/
theorem sane_call {call : PendingCall} (sound : Sound .call call) : Sane call.expression := by
  have small : ∀ character, Character.isCapital (Character.toLower character) = false :=
    forall_byte (by decide)
  intro whole
  refine .call (isWord_toLower sound.1) ?_ ?_
  · intro character member
    obtain ⟨other, _, rfl⟩ := List.mem_map.mp member
    exact small other
  · intro argument member
    have each := anyHasReal_eq_false.mp whole argument member
    exact sound.2 argument (List.mem_reverse.mp member) each

/-- A row of well-formed operands is well formed. -/
theorem sane_level {level : Level} {branch : Branch RuleName.Value Expression} {value : Expression}
    (member : branch ∈ (grammar.rule (.level level)).branches)
    (applies : Applies Meant text previous branch position occurrences
      (grammar.rule (.level level)).initial value) : Sane value := by
  obtain rfl := List.mem_singleton.mp member
  refine applies.preserves Sane (fun element inside => ?_) sane_emptyText
  intro text previous old new updates sane
  rcases List.mem_cons.mp inside with rfl | inside
  · cases level <;>
      (obtain ⟨_, _, _, meant, rfl⟩ := updates.of_nested
       exact meant.2)
  · obtain rfl := List.mem_singleton.mp inside
    obtain ⟨_, _, _, meant, rfl⟩ := updates.of_nested
    exact sane_binary sane meant.2

/-- The right operand of an operator is well formed. -/
theorem sane_tail {level : Level}
    {branch : Branch RuleName.Value (BinaryOperator × Expression)}
    {value : BinaryOperator × Expression}
    (member : branch ∈ (grammar.rule (.tail level)).branches)
    (applies : Applies Meant text previous branch position occurrences
      (grammar.rule (.tail level)).initial value) : Sane value.2 := by
  obtain ⟨entry, _, rfl⟩ := List.mem_map.mp member
  refine applies.preserves (fun tail => Sane tail.2) (fun element inside => ?_) sane_emptyText
  intro text previous old new updates sane
  rcases List.mem_cons.mp inside with rfl | inside
  · obtain ⟨_, rfl⟩ := updates.of_literal
    exact sane
  · obtain rfl := List.mem_singleton.mp inside
    cases level <;>
      (obtain ⟨_, _, _, meant, rfl⟩ := updates.of_nested
       exact meant.2)

/-- An operand with or without a sign is well formed. -/
theorem sane_signed {branch : Branch RuleName.Value Expression} {value : Expression}
    (member : branch ∈ (grammar.rule .unary).branches)
    (applies : Applies Meant text previous branch position occurrences
      (grammar.rule .unary).initial value) : Sane value := by
  rw [unary_branches] at member
  simp only [List.mem_cons, List.not_mem_nil, or_false] at member
  refine applies.preserves Sane (fun element inside => ?_) sane_emptyText
  intro text previous old new updates sane
  rcases member with rfl | rfl | rfl
  · rcases List.mem_cons.mp inside with rfl | inside
    · obtain ⟨_, rfl⟩ := updates.of_literal
      exact sane
    · obtain rfl := List.mem_singleton.mp inside
      obtain ⟨_, _, _, meant, rfl⟩ := updates.of_nested
      exact sane_unary meant.2
  · rcases List.mem_cons.mp inside with rfl | inside
    · obtain ⟨_, rfl⟩ := updates.of_literal
      exact sane
    · obtain rfl := List.mem_singleton.mp inside
      obtain ⟨_, _, _, meant, rfl⟩ := updates.of_nested
      exact sane_unary meant.2
  · obtain rfl := List.mem_singleton.mp inside
    obtain ⟨_, _, _, meant, rfl⟩ := updates.of_nested
    exact meant.2

/-- The name of a function is a word, and no argument has been read. -/
theorem sound_name {old new : PendingCall}
    (updates : Updates Meant text previous
      (nested .word PendingCall.setName : ElementOf PendingCall).pattern old new) :
    Sound .call new := by
  obtain ⟨_, _, value, meant, rfl⟩ := updates.of_nested
  obtain ⟨spelled, word⟩ := word_value meant.1
  rw [← spelled] at word
  exact ⟨word, by simp [PendingCall.setName]⟩

/-- After the name of a function arguments come. -/
theorem sound_arguments {branch : Branch RuleName.Value PendingCall} {old new : PendingCall}
    (member : branch ∈ (grammar.rule .call).branches)
    (applies : Applies Meant text previous branch position occurrences old new)
    (sound : Sound .call old) : Sound .call new := by
  have added : ∀ {call : PendingCall} {argument : Expression}, Sound .call call →
      Sane argument → Sound .call (call.addArgument argument) := by
    intro call argument sound sane
    refine ⟨sound.1, fun other inside => ?_⟩
    rcases List.mem_cons.mp inside with rfl | inside
    · exact sane
    · exact sound.2 other inside
  have patterns : ∀ branch ∈ (grammar.rule .call).branches, ∀ element ∈ branch,
      (∃ text ignoresCase, element.pattern = .literal ⟨text, ignoresCase, fun call _ => call⟩) ∨
      element.pattern = .nested .word .setName ∨
      element.pattern = .nested .expression .addArgument ∨
      element.pattern = .nested .nextArgument .addArgument ∨
      element.pattern = .nested .factor .addArgument := by
    simp [grammar, rule, callRule, define, Grammar.Rule.branches, nested,
      Grammar.Element.literal, Grammar.Element.keyword, Grammar.Element.nested,
      Grammar.Element.once, Grammar.Element.many, Grammar.Element.optional,
      Grammar.Element.counts]
  refine applies.preserves (Sound .call) (fun element inside => ?_) sound
  intro text previous old new updates sound
  rcases patterns branch member element inside with
    ⟨_, _, pattern⟩ | pattern | pattern | pattern | pattern
  · rw [pattern] at updates
    obtain ⟨_, rfl⟩ := updates.of_literal
    exact sound
  · rw [pattern] at updates
    exact sound_name updates
  · rw [pattern] at updates
    obtain ⟨_, _, value, meant, rfl⟩ := updates.of_nested
    exact added sound meant.2
  · rw [pattern] at updates
    obtain ⟨_, _, value, meant, rfl⟩ := updates.of_nested
    exact added sound meant.2
  · rw [pattern] at updates
    obtain ⟨_, _, value, meant, rfl⟩ := updates.of_nested
    exact added sound meant.2

/-- Every call has a name. -/
theorem sound_call {branch : Branch RuleName.Value PendingCall} {value : PendingCall}
    (member : branch ∈ (grammar.rule .call).branches)
    (reads : Reads grammar.Matches text previous branch 0 position occurrences)
    (applies : Applies Meant text previous branch position occurrences
      (grammar.rule .call).initial value) : Sound .call value := by
  have listed := member
  rw [call_branches] at listed
  simp only [List.mem_cons, List.not_mem_nil, or_false] at listed
  rcases listed with rfl | rfl | rfl | rfl
  · obtain ⟨_, _, _, _, _, _, update, _, applies⟩ := applies.single ⟨rfl, rfl⟩ rfl reads
    exact sound_arguments member applies (sound_name update)
  · obtain ⟨_, _, _, _, _, _, update, _, applies⟩ := applies.single ⟨rfl, rfl⟩ rfl reads
    exact sound_arguments member applies (sound_name update)
  · rcases applies.optional rfl rfl reads with
      reads | ⟨_, _, _, _, _, _, _, reads, applies⟩
    · obtain ⟨_, _, _, _, _, _, update, _, applies⟩ := applies.single ⟨rfl, rfl⟩ rfl reads
      exact sound_arguments member applies (sound_name update)
    · obtain ⟨_, _, _, _, _, _, update, _, applies⟩ := applies.single ⟨rfl, rfl⟩ rfl reads
      exact sound_arguments member applies (sound_name update)
  · obtain ⟨_, _, _, _, _, _, _, reads, applies⟩ := applies.single ⟨rfl, rfl⟩ rfl reads
    obtain ⟨_, _, _, _, _, _, update, _, applies⟩ := applies.single ⟨rfl, rfl⟩ rfl reads
    exact sound_arguments member applies (sound_name update)

/-- In any case the same letters are written. -/
theorem spells_of_toLower {text input : List UInt8}
    (small : ∀ character ∈ text,
      Character.isBlank character = false ∧ Character.toLower character = character)
    (same : input.map Character.toLower = text) : Grammar.Spells true text input := by
  induction input generalizing text with
  | nil =>
    subst same
    exact .nil
  | cons character input ih =>
    subst same
    obtain ⟨solid, fixed⟩ := small _ List.mem_cons_self
    exact .character solid fixed
      (ih (fun other member => small other (List.mem_cons_of_mem _ member)) rfl)

/-- Where a constant is written, a factor is no variable. -/
theorem not_constant {reading : Grammar.Reading} {blanks word : List UInt8} {constant : String}
    (preferred : grammar.Preferred .factor previous (blanks ++ word) reading)
    (found : (grammar.rule .factor).branches[reading.branch]? =
      some [nested .word fun _ name => .word name.text])
    (segment : ∀ update : Expression → RomanString → Expression,
      Segment grammar.Matches (blanks ++ word) previous
        (.literal ⟨.encodeOrRaw constant, true, update⟩ :
          Grammar.Pattern RuleName.Value Expression)) :
    constant ∉ Expression.constants := by
  have late : 5 ≤ reading.branch := by
    rw [factor_branches] at found
    match number : reading.branch with
    | 0 | 1 | 2 | 3 | 4 =>
      rw [number] at found
      simp [nested, Grammar.Element.nested, Grammar.Element.keywordWith, Grammar.Element.once]
        at found
    | number + 5 => omega
  have refuted : ∀ number < 5, ∀ update : Expression → RomanString → Expression,
      (grammar.rule .factor).branches[number]? = some [.keywordWith constant update] → False := by
    intro number less update there
    obtain ⟨occurrences, reads⟩ := @Grammar.Reads.of_segment _ _ _ _
      (.keywordWith constant update) _ _ 0 0 ⟨rfl, rfl⟩ (segment update)
    exact preferred.not_reads (Nat.lt_of_lt_of_le less late) there reads
  intro listed
  rcases List.mem_cons.mp listed with rfl | listed
  · exact refuted 2 (by decide) _ rfl
  rcases List.mem_cons.mp listed with rfl | listed
  · exact refuted 3 (by decide) _ rfl
  · obtain rfl := List.mem_singleton.mp listed
    exact refuted 4 (by decide) _ rfl

/-- A word that is a variable is none of the words for constants, which would be preferred. -/
theorem sane_word {reading : Grammar.Reading} {value : Expression}
    (preferred : grammar.Preferred .factor previous text reading)
    (found : (grammar.rule .factor).branches[reading.branch]? =
      some [nested .word fun _ name => .word name.text])
    (applies : Applies Meant text previous [nested .word fun _ name => .word name.text] 0
      reading.occurrences (grammar.rule .factor).initial value) : Sane value := by
  obtain ⟨segment, update⟩ := applies.last ⟨rfl, rfl⟩ rfl (preferred.reads found)
  cases update with
  | @nested _ _ _ _ blanks rest first _ name blank solid inner =>
    have apart : Character.joinsWord (Grammar.before previous blanks) first = false := by
      generalize whole : blanks ++ first :: rest = text at segment
      cases segment with
      | nested otherBlank otherSolid apart _ =>
        obtain ⟨rfl, rfl, _⟩ :=
          Grammar.blanks_append_inj blank solid otherBlank otherSolid whole
        exact apart
    obtain ⟨spelled, word⟩ := word_value inner.1
    rw [← spelled] at word
    refine fun _ => .word word fun constant listed same => ?_
    have small : ∀ constant ∈ Expression.constants,
        ∀ character ∈ (RomanString.encodeOrRaw constant).characters,
          Character.isBlank character = false ∧ Character.toLower character = character := by
      decide +kernel
    have characters : (first :: rest).map Character.toLower =
        (RomanString.encodeOrRaw constant).characters := by
      rw [← same, spelled]
      rfl
    exact not_constant preferred found (fun update =>
      .literal blank apart (spells_of_toLower (small constant listed) characters)) listed

/-- A factor is a constant, a variable, a call or an expression. -/
theorem sane_factor {reading : Grammar.Reading} {branch : Branch RuleName.Value Expression}
    {value : Expression} (preferred : grammar.Preferred .factor previous text reading)
    (found : (grammar.rule .factor).branches[reading.branch]? = some branch)
    (applies : Applies Meant text previous branch 0 reading.occurrences
      (grammar.rule .factor).initial value) : Sane value := by
  have member := List.mem_of_getElem? found
  rw [factor_branches] at member
  simp only [List.mem_cons, List.not_mem_nil, or_false] at member
  have reads := preferred.reads found
  rcases member with rfl | rfl | rfl | rfl | rfl | rfl | rfl | rfl
  · obtain ⟨_, update⟩ := applies.last ⟨rfl, rfl⟩ rfl reads
    obtain ⟨_, _, _, meant, rfl⟩ := update.of_nested
    exact number_value meant.1
  · obtain ⟨_, update⟩ := applies.last ⟨rfl, rfl⟩ rfl reads
    obtain ⟨_, _, _, meant, rfl⟩ := update.of_nested
    exact fun _ => .string (string_value meant.1)
  · obtain ⟨_, update⟩ := applies.last ⟨rfl, rfl⟩ rfl reads
    obtain ⟨_, rfl⟩ := update.of_literal
    exact fun _ => .boolean
  · obtain ⟨_, update⟩ := applies.last ⟨rfl, rfl⟩ rfl reads
    obtain ⟨_, rfl⟩ := update.of_literal
    exact fun _ => .boolean
  · obtain ⟨_, update⟩ := applies.last ⟨rfl, rfl⟩ rfl reads
    obtain ⟨_, rfl⟩ := update.of_literal
    exact sane_emptyText
  · obtain ⟨_, _, _, _, _, _, _, reads, applies⟩ := applies.single ⟨rfl, rfl⟩ rfl reads
    obtain ⟨_, _, _, _, _, _, update, reads, applies⟩ := applies.single ⟨rfl, rfl⟩ rfl reads
    obtain ⟨_, _, _, meant, rfl⟩ := update.of_nested
    obtain ⟨_, update⟩ := applies.last ⟨rfl, rfl⟩ rfl reads
    obtain ⟨_, rfl⟩ := update.of_literal
    exact meant.2
  · obtain ⟨_, update⟩ := applies.last ⟨rfl, rfl⟩ rfl reads
    obtain ⟨_, _, _, meant, rfl⟩ := update.of_nested
    exact sane_call meant.2
  · exact sane_word preferred found applies

end Rules

/-- The values of the rules of expressions. -/
theorem sound_of_denotes {name : RuleName} {previous : Option UInt8} {text : List UInt8}
    {value : name.Value} (denotes : grammar.Denotes name previous text value) :
    Sound name value := by
  refine Grammar.Denotes.induction (motive := fun name _ _ value => Sound name value) ?_ denotes
  intro name previous text reading branch value preferred found applies
  have member := List.mem_of_getElem? found
  cases name with
  | expression =>
    obtain rfl := List.mem_singleton.mp member
    obtain ⟨_, update⟩ := applies.last ⟨rfl, rfl⟩ rfl (preferred.reads found)
    obtain ⟨_, _, _, meant, rfl⟩ := update.of_nested
    exact meant.2
  | factor => exact sane_factor preferred found applies
  | call => exact sound_call member (preferred.reads found) applies
  | nextArgument =>
    obtain rfl := List.mem_singleton.mp member
    obtain ⟨_, _, _, _, _, _, _, reads, applies⟩ :=
      applies.single ⟨rfl, rfl⟩ rfl (preferred.reads found)
    obtain ⟨_, update⟩ := applies.last ⟨rfl, rfl⟩ rfl reads
    obtain ⟨_, _, _, meant, rfl⟩ := update.of_nested
    exact meant.2
  | unary => exact sane_signed member applies
  | level level => exact sane_level member applies
  | tail level => exact sane_tail member applies
  | _ => trivial

end HyperTalk
end HyperCard
