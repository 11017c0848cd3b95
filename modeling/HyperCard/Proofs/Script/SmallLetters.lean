import HyperCard.Proofs.Grammar.Folding
import HyperCard.Proofs.Script.Proper
import Mathlib.Data.List.TakeDrop
import Mathlib.Data.List.TakeWhile

/-!
# Scripts in small letters

The words of the language may be written in any case, and no symbol of it is a letter. So a text in
small letters is read as the text is, and what it stands for differs in the texts that come from it
only: strings, words, names of functions, of variables and of effects are in small letters. Numbers
have no letters, and a name of a function is in small letters already.
-/
namespace HyperCard

/-- A spelling in small letters. -/
def Spelling.toLower (spelling : Spelling) : Spelling :=
  ⟨spelling.reversed.map Character.toLower⟩

mutual

/-- An expression with all its texts in small letters. -/
def Expression.toLower : Expression → Expression
  | .string text => .string text.toLower
  | .word text => .word text.toLower
  | .integer value => .integer value
  | .real value => .real value
  | .boolean value => .boolean value
  | .unary operator operand => .unary operator operand.toLower
  | .binary operator left right => .binary operator left.toLower right.toLower
  | .call name arguments => .call name.toLower (Expression.allToLower arguments)

/-- Expressions with all their texts in small letters. -/
def Expression.allToLower : List Expression → List Expression
  | [] => []
  | argument :: arguments => argument.toLower :: Expression.allToLower arguments

end

/-- A call that is still being read, in small letters. -/
def PendingCall.toLower (call : PendingCall) : PendingCall :=
  ⟨call.name.toLower, call.reversedArguments.map Expression.toLower⟩

/-- A position in small letters. -/
def Ordinal.toLower : Ordinal → Ordinal
  | .number position => .number position.toLower
  | .last => .last
  | .middle => .middle
  | .any => .any

/-- A choice among siblings in small letters. -/
def Identification.toLower : Identification → Identification
  | .ordinal position => .ordinal position.toLower
  | .identifier number => .identifier number.toLower
  | .name text => .name text.toLower

/-- A card or a background in small letters. -/
def LayerReference.toLower : LayerReference → LayerReference
  | .relative position => .relative position
  | .absolute which => .absolute which.toLower

/-- A card, perhaps of a background, in small letters. -/
def CardReference.toLower (reference : CardReference) : CardReference :=
  ⟨reference.card.toLower, reference.background.map LayerReference.toLower⟩

/-- A part in small letters. -/
def PartReference.toLower (part : PartReference) : PartReference :=
  { part with which := part.which.toLower, card := part.card.map CardReference.toLower }

/-- A stack in small letters. -/
def StackReference.toLower : StackReference → StackReference
  | .current => .current
  | .named name => .named name.toLower

/-- An object in small letters. -/
def ObjectReference.toLower : ObjectReference → ObjectReference
  | .me => .me
  | .hyperCard => .hyperCard
  | .stack reference => .stack reference.toLower
  | .background reference => .background reference.toLower
  | .card reference => .card reference.toLower
  | .part reference => .part reference.toLower

/-- A destination in small letters. -/
def Destination.toLower : Destination → Destination
  | .card reference => .card reference.toLower
  | .background reference => .background reference.toLower
  | .stack reference => .stack reference.toLower

/-- A container in small letters. -/
def Container.toLower : Container → Container
  | .variable name => .variable name.toLower
  | .part reference => .part reference.toLower
  | .messageBox => .messageBox

/-- A command in small letters. -/
def Command.toLower : Command → Command
  | .go destination => .go destination.toLower
  | .put value preposition container => .put value.toLower preposition container.toLower
  | .answer prompt replies => .answer prompt.toLower (replies.map Expression.toLower)
  | .beep count => .beep (count.map Expression.toLower)
  | .visual effect => .visual effect.toLower

/-- The value of a rule with all its texts in small letters. -/
def RuleName.toLower : (name : RuleName) → name.Value → name.Value
  | .word | .number | .string | .words => Spelling.toLower
  | .call => PendingCall.toLower
  | .expression | .factor | .nextArgument | .unary | .level _ | .otherReply => Expression.toLower
  | .tail _ => Prod.map id Expression.toLower
  | .ordinal => Ordinal.toLower
  | .relative | .layer | .partKind => id
  | .cardLayer | .background | .ofBackground => LayerReference.toLower
  | .card | .ofCard => CardReference.toLower
  | .part => PartReference.toLower
  | .stack => StackReference.toLower
  | .object => ObjectReference.toLower
  | .destination => Destination.toLower
  | .container => Container.toLower
  | .putTarget => Prod.map id Container.toLower
  | .go | .put | .answer | .beep | .visual | .command => Command.toLower

section Texts

variable {text : RomanString}

/-- Small letters stay small. -/
@[simp] theorem RomanString.toLower_toLower (text : RomanString) :
    text.toLower.toLower = text.toLower := by
  simp [toLower]

/-- A text of small letters is its own text in small letters. -/
theorem RomanString.toLower_eq_self
    (small : ∀ character ∈ text.characters, Character.toLower character = character) :
    text.toLower = text := by
  rw [toLower, List.map_congr_left small, List.map_id']

/-- A spelling in small letters has the text in small letters. -/
@[simp] theorem Spelling.text_toLower (spelling : Spelling) :
    spelling.toLower.text = spelling.text.toLower := by
  simp [toLower, text, RomanString.toLower]

/-- The empty text has no letters. -/
@[simp] theorem RomanString.toLower_empty : empty.toLower = empty := rfl

/-- Spellings are joined in small letters as they are. -/
theorem Spelling.toLower_append (left right : Spelling) :
    (left ++ right).toLower = left.toLower ++ right.toLower :=
  congrArg Spelling.mk List.map_append

/-- So they are with a further character. -/
@[simp] theorem Spelling.toLower_push (spelling : Spelling) (character : UInt8) :
    (spelling.push character).toLower = spelling.toLower.push (Character.toLower character) := rfl

/-- Small letters come to each of the arguments of a call. -/
theorem Expression.allToLower_eq_map (arguments : List Expression) :
    Expression.allToLower arguments = arguments.map Expression.toLower := by
  induction arguments with
  | nil => rfl
  | cons argument arguments ih => rw [allToLower, ih, List.map_cons]

/-- A call in small letters is the expression in small letters. -/
theorem PendingCall.expression_toLower (call : PendingCall) :
    call.toLower.expression = call.expression.toLower := by
  simp [expression, toLower, Expression.toLower, Expression.allToLower_eq_map]

/-- Small letters do not change how an object is chosen. -/
theorem Identification.ofExpression_toLower (expression : Expression) :
    ofExpression expression.toLower = (ofExpression expression).toLower := by
  cases expression <;> rfl

end Texts

namespace HyperTalk

/-- Whether a character may be part of a number. -/
def isNumeric (character : UInt8) : Bool :=
  Character.isDigit character || character == Character.point

/-- What has another character is no number. -/
theorem numberLiteral_eq_word {text : RomanString}
    (other : ¬ ∀ character ∈ text.characters, isNumeric character = true) :
    numberLiteral text = .word text := by
  have whole : Written.whole? text = none := by
    unfold Written.whole?
    rw [if_neg]
    intro digits
    rw [Bool.and_eq_true, List.all_eq_true] at digits
    exact other fun character member => by simp [isNumeric, digits.2 character member]
  have real : Written.real? text = none := by
    unfold Written.real?
    rw [List.span_eq_takeWhile_dropWhile]
    have parts := List.takeWhile_append_dropWhile (p := Character.isDigit) (l := text.characters)
    have digits : ∀ character ∈ text.characters.takeWhile Character.isDigit,
        Character.isDigit character = true := fun _ => List.mem_takeWhile_imp
    generalize text.characters.takeWhile Character.isDigit = front at parts digits
    generalize text.characters.dropWhile Character.isDigit = fraction at parts
    rw [← parts] at other
    cases fraction with
    | nil =>
      refine absurd (fun character member => ?_) other
      rw [List.append_nil] at member
      simp [isNumeric, digits character member]
    | cons mark places =>
      have not : ¬ (mark == Character.point && places.all Character.isDigit) = true := by
        intro point
        rw [Bool.and_eq_true, List.all_eq_true, beq_iff_eq] at point
        refine other fun character member => ?_
        rcases List.mem_append.mp member with before | after
        · simp [isNumeric, digits character before]
        · rcases List.mem_cons.mp after with rfl | after
          · simp [isNumeric, point.1]
          · simp [isNumeric, point.2 character after]
      simp only [not, Bool.false_eq_true, ↓reduceIte]
  rw [numberLiteral, whole, real]

/-- A number has no letters, so a text is a number in small letters if it is one, and the same. -/
theorem numberLiteral_toLower (text : RomanString) :
    numberLiteral text.toLower = (numberLiteral text).toLower := by
  have fixed : ∀ character, isNumeric character = true → Character.toLower character = character :=
    forall_byte (by decide)
  have kind : ∀ character, isNumeric (Character.toLower character) = isNumeric character :=
    forall_byte (by decide)
  by_cases numeric : ∀ character ∈ text.characters, isNumeric character = true
  · have same : text.toLower = text :=
      RomanString.toLower_eq_self fun character member => fixed character (numeric character member)
    rw [same]
    unfold numberLiteral
    cases Written.whole? text with
    | some value => rfl
    | none =>
      cases Written.real? text with
      | some value => rfl
      | none => exact congrArg Expression.word same.symm
  · have other : ¬ ∀ character ∈ text.toLower.characters, isNumeric character = true := by
      intro all
      refine numeric fun character member => ?_
      rw [← kind]
      exact all _ (List.mem_map_of_mem member)
    rw [numberLiteral_eq_word numeric, numberLiteral_eq_word other]
    rfl

section Updates

variable (command : Command) (value : Expression)

/-- A command takes up its value in small letters as it is. -/
theorem setValue_toLower :
    setValue command.toLower value.toLower = (setValue command value).toLower := by
  cases command <;> rfl

/-- It takes up its target in the same way, where the preposition has no letters to change. -/
theorem setTarget_toLower (preposition : Preposition) (container : Container) :
    setTarget command.toLower (preposition, container.toLower) =
      (setTarget command (preposition, container)).toLower := by
  cases command <;> rfl

/-- It takes up its prompt in the same way. -/
theorem setPrompt_toLower :
    setPrompt command.toLower value.toLower = (setPrompt command value).toLower := by
  cases command <;> rfl

/-- It takes up each reply in the same way. -/
theorem addReply_toLower :
    addReply command.toLower value.toLower = (addReply command value).toLower := by
  cases command with
  | answer prompt replies => simp [addReply, Command.toLower]
  | _ => rfl

/-- Words are joined in small letters as they are, since spaces do not change. -/
theorem addWord_toLower (words next : Spelling) :
    addWord words.toLower next.toLower = (addWord words next).toLower := by
  obtain ⟨reversed⟩ := words
  cases reversed with
  | nil => exact (Spelling.toLower_append .empty next).symm
  | cons last others =>
    exact (Spelling.toLower_append (.push ⟨last :: others⟩ Character.space) next).symm

end Updates

section Rules

open Grammar.Element hiding nested

/-- A nested rule is read alike in small letters if its value is taken up alike. -/
@[simp] theorem folds_nested {Value : Type} {lower : Value → Value} {rule : RuleName}
    {update : Value → rule.Value → Value} :
    (nested rule update : ElementOf Value).Folds RuleName.toLower lower ↔
      ∀ old value, update (lower old) (rule.toLower value) = lower (update old value) :=
  Grammar.Element.folds_nested

/-- A letter stays a letter, and nothing becomes one. -/
@[simp] theorem isLetter_toLower :
    ∀ character, Character.isLetter (Character.toLower character) = Character.isLetter character :=
  forall_byte (by decide)

/-- No digit is changed, and nothing becomes one. -/
@[simp] theorem isDigit_toLower :
    ∀ character, Character.isDigit (Character.toLower character) = Character.isDigit character :=
  forall_byte (by decide)

/-- What may stand in a string stays so. -/
@[simp] theorem isStringCharacter_toLower :
    ∀ character, isStringCharacter (Character.toLower character) = isStringCharacter character :=
  forall_byte (by decide)

/-- No symbol of the language is a letter. -/
@[simp] theorem folds_symbol {Value : Type} {lower : Value → Value} {symbol : String}
    (listed : symbol ∈ ["(", ")", ","]) :
    (literal symbol : ElementOf Value).Folds RuleName.toLower lower := by
  have caseless : ∀ symbol ∈ ["(", ")", ","], ∀ character ∈
      (RomanString.encodeOrRaw symbol).characters, Character.isCaseless character = true := by
    decide +kernel
  exact folds_literal.mpr (caseless symbol listed)

/-- A rule is read alike in small letters if each element of its branches is. -/
theorem folds_define {Value : Type} {lower : Value → Value} {name : String} {initial : Value}
    {branches : List (List (ElementOf Value))} (first : lower initial = initial)
    (elements : ∀ branch ∈ branches, ∀ element ∈ branch, element.Folds RuleName.toLower lower) :
    (define name initial branches).Folds RuleName.toLower lower :=
  ⟨first, elements⟩

/-- An operand of a level is read alike if its value is taken up alike. -/
theorem folds_operand {Value : Type} {lower : Value → Value}
    (update : Value → Expression → Value)
    (lowers : ∀ old value, update (lower old) (Expression.toLower value) =
      lower (update old value)) (level : Level) :
    (operand update level).Folds RuleName.toLower lower := by
  cases level <;> exact folds_nested.mpr lowers

/-- The rows of a level are read alike in small letters. -/
theorem folds_level (level : Level) :
    (levelRule level).Folds RuleName.toLower Expression.toLower := by
  apply folds_define rfl
  have first : (operand replace level : ElementOf Expression).Folds RuleName.toLower
      Expression.toLower := folds_operand replace (fun _ _ => rfl) level
  simp [first, RuleName.toLower, Expression.toLower]

/-- So are the operators of a level with their right operands. -/
theorem folds_tail (level : Level) :
    (tailRule level).Folds RuleName.toLower (RuleName.tail level).toLower := by
  apply folds_define rfl
  intro branch member
  obtain ⟨entry, _, rfl⟩ := List.mem_map.mp member
  have right : (operand (fun tail right => (tail.1, right)) level :
      ElementOf (BinaryOperator × Expression)).Folds RuleName.toLower
        (Prod.map id Expression.toLower) :=
    folds_operand (fun tail right => (tail.1, right)) (fun _ _ => rfl) level
  simp [right, RuleName.toLower]

/-- So are the words for ordinals. -/
theorem folds_ordinal : ordinalRule.Folds RuleName.toLower Ordinal.toLower := by
  apply folds_define rfl
  intro branch member
  have word : ∀ (spelling : String) (ordinal : Ordinal), ordinal.toLower = ordinal →
      ∀ element ∈ [(keywordWith spelling fun _ _ => ordinal : ElementOf Ordinal)],
        element.Folds RuleName.toLower Ordinal.toLower := by
    intro spelling ordinal same
    rw [List.forall_mem_singleton]
    exact folds_keywordWith.mpr fun _ _ => same.symm
  rcases List.mem_append.mp member with numbered | named
  · obtain ⟨index, _, rfl⟩ := List.mem_mapIdx.mp numbered
    exact word _ _ rfl
  · simp only [List.mem_cons, List.not_mem_nil, or_false] at named
    rcases named with rfl | rfl | rfl | rfl <;> exact word _ _ rfl

/-- So are the references to a layer, for any words for it. -/
theorem folds_layer (name : String) (words : List String) :
    (layerRule name words).Folds RuleName.toLower LayerReference.toLower := by
  apply folds_define rfl
  intro branch member
  obtain ⟨word, _, listed⟩ := List.mem_flatMap.mp member
  clear member
  revert branch
  simp [RuleName.toLower, LayerReference.toLower, Identification.toLower,
    Identification.ofExpression_toLower]

/-- Every rule takes small letters to values in small letters. -/
theorem folds_rule (name : RuleName) : (rule name).Folds RuleName.toLower name.toLower := by
  have point : ∀ character, Character.toLower character = Character.point ↔
      character = Character.point := Character.toLower_eq_iff (by decide)
  have quote : ∀ character, Character.toLower character = Character.quote ↔
      character = Character.quote := Character.toLower_eq_iff (by decide)
  cases name with
  | word | relative | putTarget => exact folds_define rfl (by simp [RuleName.toLower])
  | number => exact folds_define rfl (by simp [RuleName.toLower, point])
  | string => exact folds_define rfl (by simp [RuleName.toLower, quote, skip])
  | expression | nextArgument | ofBackground | ofCard | otherReply | command =>
    exact folds_define rfl (by simp [RuleName.toLower, replace])
  | factor =>
    exact folds_define rfl (by simp [RuleName.toLower, replace, Expression.toLower,
      numberLiteral_toLower, PendingCall.expression_toLower, Expression.emptyText])
  | call =>
    exact folds_define rfl (by simp [RuleName.toLower, PendingCall.toLower, PendingCall.setName,
      PendingCall.addArgument])
  | unary => exact folds_define rfl (by simp [RuleName.toLower, replace, Expression.toLower])
  | level level => exact folds_level level
  | tail level => exact folds_tail level
  | ordinal => exact folds_ordinal
  | cardLayer => exact folds_layer "card layer" cardWords
  | background => exact folds_layer "background" backgroundWords
  | card => exact folds_define rfl (by simp [RuleName.toLower, CardReference.toLower])
  | layer => exact folds_define rfl (by simp [RuleName.toLower, cardWords, backgroundWords])
  | partKind => exact folds_define rfl (by simp [RuleName.toLower, partWords])
  | part =>
    exact folds_define rfl (by simp [RuleName.toLower, PartReference.toLower, setKind,
      Identification.toLower, Identification.ofExpression_toLower])
  | stack => exact folds_define rfl (by simp [RuleName.toLower, StackReference.toLower])
  | object => exact folds_define rfl (by simp [RuleName.toLower, ObjectReference.toLower])
  | destination =>
    exact folds_define rfl (by simp [RuleName.toLower, Destination.toLower,
      CardReference.toLower, LayerReference.toLower])
  | container => exact folds_define rfl (by simp [RuleName.toLower, Container.toLower])
  | put =>
    exact folds_define rfl (by simp [RuleName.toLower, setValue_toLower, setTarget_toLower])
  | answer =>
    exact folds_define rfl (by simp [RuleName.toLower, setPrompt_toLower, addReply_toLower])
  | go | beep | visual => exact folds_define rfl (by simp [RuleName.toLower, Command.toLower])
  | words => exact folds_define rfl (by simp [RuleName.toLower, addWord_toLower])

end Rules

/-- A line in small letters has a value if the line has one, and has it with all its texts in small
letters. -/
theorem parse_toLower (name : RuleName) (line : RomanString) :
    parse name line.toLower = (parse name line).map name.toLower :=
  Grammar.parse_map_toLower grammar_proper folds_rule name line

end HyperTalk
end HyperCard
