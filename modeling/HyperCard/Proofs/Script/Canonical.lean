import HyperCard.Proofs.Script.Precedence
import HyperCard.Proofs.Script.Values

/-!
# Canonical texts of objects and commands

Of the many ways to refer to an object or to write a command one is canonical: the long words, an
explicit layer for every part, identifiers after their word, and a preposition before every
container. Expressions in it are trees of operators, with parentheses where a factor is expected
unless they are a number or a string. What can be said in this way is canonical itself: positions
are no bare strings, and names are.
-/
namespace HyperCard

/-- Whether an expression is a text between quotes. -/
def Expression.isString : Expression → Bool
  | .string _ => true
  | _ => false

/-- Whether an expression is a number or a text between quotes. -/
def Expression.isLiteral : Expression → Bool
  | .string _ | .integer _ => true
  | _ => false

/-- The word for a position beside the current object. -/
def RelativePosition.spoken : RelativePosition → String
  | .current => "this"
  | .next => "next"
  | .previous => "previous"

/-- The word for a position, if it is not counted. -/
def Ordinal.spoken? : Ordinal → Option String
  | .number _ => none
  | .last => some "last"
  | .middle => some "middle"
  | .any => some "any"

/-- The words of positions that are not counted. -/
def Ordinal.spokenWords : List String := ["last", "middle", "any"]

/-- The long word for a layer. -/
def Layer.spoken : Layer → String
  | .card => "card"
  | .background => "background"

/-- The long word for a kind of parts. -/
def PartKind.spoken : PartKind → String
  | .button => "button"
  | .field => "field"
  | .part => "part"

/-- The word for how a value goes into a container. -/
def Preposition.spoken : Preposition → String
  | .into => "into"
  | .after => "after"
  | .before => "before"

namespace HyperTalk

/-- The characters of a word of the language. -/
def letters (word : String) : List UInt8 := (RomanString.encodeOrRaw word).characters

/-- Texts in order with a space between each two. -/
def phrase : List (List UInt8) → List UInt8
  | [] => []
  | [part] => part
  | part :: next :: others => part ++ Character.space :: phrase (next :: others)

/-- Two texts stand around one space. -/
theorem phrase_pair (left right : List UInt8) :
    phrase [left, right] = left ++ Character.space :: right := rfl

/-- Three texts have two spaces between them. -/
theorem phrase_triple (first second third : List UInt8) :
    phrase [first, second, third] =
      first ++ (Character.space :: second ++ Character.space :: third) := rfl

/-- More words go on after a space. -/
theorem phrase_cons (first second third : List UInt8) (others : List (List UInt8)) :
    phrase (first :: second :: third :: others) =
      first ++ (Character.space :: second ++ Character.space :: phrase (third :: others)) := rfl

/-- How a tree of operators is written where a factor is expected. -/
inductive FactorRenders : Expression → List UInt8 → Prop
  /-- A number by its digits. -/
  | integer {value} : FactorRenders (.integer value) (Written.decimal value)
  /-- A string between quotes. -/
  | string {content} : FactorRenders (.string content)
      (Character.quote :: (content.characters ++ [Character.quote]))
  /-- Anything else in parentheses. -/
  | parentheses {expression text} : expression.isLiteral = false → Renders 0 expression text →
      FactorRenders expression
        (Character.opening :: (Character.space :: text ++ [Character.space, Character.closing]))

/-- Canonical texts of one card or background among all. -/
inductive LayerRenders (layer : Layer) : LayerReference → List UInt8 → Prop
  /-- Beside the current one. -/
  | relative {position} : LayerRenders layer (.relative position)
      (phrase [letters position.spoken, letters layer.spoken])
  /-- By the word for its position. -/
  | ordinal {ordinal word} : ordinal.spoken? = some word →
      LayerRenders layer (.absolute (.ordinal ordinal))
        (phrase [letters word, letters layer.spoken])
  /-- By its lasting number. -/
  | identifier {number text} : FactorRenders number text →
      LayerRenders layer (.absolute (.identifier number))
        (phrase [letters layer.spoken, letters "id", text])
  /-- By name, or counted from the first. -/
  | described {expression text} : FactorRenders expression text →
      LayerRenders layer (.absolute (.ofExpression expression))
        (phrase [letters layer.spoken, text])

/-- Canonical texts of cards. -/
inductive CardRenders : CardReference → List UInt8 → Prop
  /-- Among all cards. -/
  | alone {card text} : LayerRenders .card card text → CardRenders ⟨card, none⟩ text
  /-- Among those of a background. -/
  | ofBackground {card text background backgroundText} : LayerRenders .card card text →
      LayerRenders .background background backgroundText →
      CardRenders ⟨card, some background⟩ (phrase [text, letters "of", backgroundText])

/-- Canonical texts of parts on the current card. -/
inductive WhichRenders (kind : PartKind) (layer : Layer) : Identification → List UInt8 → Prop
  /-- By the word for its position. -/
  | ordinal {ordinal word} : ordinal.spoken? = some word →
      WhichRenders kind layer (.ordinal ordinal)
        (phrase [letters word, phrase [letters layer.spoken, letters kind.spoken]])
  /-- By its lasting number. -/
  | identifier {number text} : FactorRenders number text →
      WhichRenders kind layer (.identifier number)
        (phrase [phrase [letters layer.spoken, letters kind.spoken], letters "id", text])
  /-- By name, or counted from the first. -/
  | described {expression text} : FactorRenders expression text →
      WhichRenders kind layer (.ofExpression expression)
        (phrase [phrase [letters layer.spoken, letters kind.spoken], text])

/-- Canonical texts of parts. -/
inductive PartRenders : PartReference → List UInt8 → Prop
  /-- On the current card. -/
  | alone {kind layer which text} : WhichRenders kind layer which text →
      PartRenders ⟨kind, layer, which, none⟩ text
  /-- On another card. -/
  | ofCard {kind layer which text card cardText} : WhichRenders kind layer which text →
      CardRenders card cardText →
      PartRenders ⟨kind, layer, which, some card⟩ (phrase [text, letters "of", cardText])

/-- Canonical texts of stacks. -/
inductive StackRenders : StackReference → List UInt8 → Prop
  /-- The current one. -/
  | current : StackRenders .current (phrase [letters "this", letters "stack"])
  /-- By name. -/
  | named {name text} : FactorRenders name text →
      StackRenders (.named name) (phrase [letters "stack", text])

/-- Canonical texts of objects. -/
inductive ObjectRenders : ObjectReference → List UInt8 → Prop
  /-- The object whose script runs. -/
  | me : ObjectRenders .me (letters "me")
  /-- The program itself. -/
  | hyperCard : ObjectRenders .hyperCard (letters "HyperCard")
  /-- A stack. -/
  | stack {stack text} : StackRenders stack text → ObjectRenders (.stack stack) text
  /-- A background. -/
  | background {background text} : LayerRenders .background background text →
      ObjectRenders (.background background) text
  /-- A card. -/
  | card {card text} : CardRenders card text → ObjectRenders (.card card) text
  /-- A button or a field. -/
  | part {part text} : PartRenders part text → ObjectRenders (.part part) text

/-- Canonical texts of destinations. -/
inductive DestinationRenders : Destination → List UInt8 → Prop
  /-- A card. -/
  | card {card text} : CardRenders card text → DestinationRenders (.card card) text
  /-- A background. -/
  | background {background text} : LayerRenders .background background text →
      DestinationRenders (.background background) text
  /-- A stack. -/
  | stack {stack text} : StackRenders stack text → DestinationRenders (.stack stack) text

/-- Canonical texts of containers. -/
inductive ContainerRenders : Container → List UInt8 → Prop
  /-- A variable. -/
  | word {name} : ContainerRenders (.variable name) name.characters
  /-- A button or a field. -/
  | part {part text} : PartRenders part text → ContainerRenders (.part part) text
  /-- The message box. -/
  | messageBox : ContainerRenders .messageBox (phrase [letters "message", letters "box"])

/-- Canonical texts of the replies after the first one. -/
inductive OtherReplies : List Expression → List UInt8 → Prop
  /-- No other reply. -/
  | none : OtherReplies [] []
  /-- One more reply, and others after it. -/
  | more {reply text replies others} : FactorRenders reply text → OtherReplies replies others →
      OtherReplies (reply :: replies)
        ((Character.space :: phrase [letters "or", text]) ++ others)

/-- Canonical texts of commands. -/
inductive CommandRenders : Command → List UInt8 → Prop
  /-- Show another card. -/
  | go {destination text} : DestinationRenders destination text →
      CommandRenders (.go destination) (phrase [letters "go", letters "to", text])
  /-- Store a value. -/
  | put {value text preposition container containerText} : Renders 0 value text →
      ContainerRenders container containerText →
      CommandRenders (.put value preposition container)
        (phrase [letters "put", text, letters preposition.spoken, containerText])
  /-- Show a message. -/
  | show {prompt text} : Renders 0 prompt text →
      CommandRenders (.answer prompt []) (phrase [letters "answer", text])
  /-- Ask a question. -/
  | ask {prompt text reply replyText replies others} : Renders 0 prompt text →
      FactorRenders reply replyText → OtherReplies replies others →
      CommandRenders (.answer prompt (reply :: replies))
        (phrase [letters "answer", text, letters "with", replyText ++ others])
  /-- Make a sound. -/
  | beep : CommandRenders (.beep none) (letters "beep")
  /-- Make a sound so many times. -/
  | beepTimes {count text} : Renders 0 count text →
      CommandRenders (.beep (some count)) (phrase [letters "beep", text])
  /-- Choose an effect by words. -/
  | visual {effect} : CommandRenders (.visual effect)
      (phrase [letters "visual", letters "effect", effect.characters])

end HyperTalk

open HyperTalk (IsOperatorTree FactorRenders LayerRenders CardRenders WhichRenders PartRenders
  StackRenders ObjectRenders DestinationRenders ContainerRenders OtherReplies CommandRenders)

/-- Positions are no bare strings, and names are. -/
def Identification.IsCanonical : Identification → Prop
  | .ordinal (.number position) => IsOperatorTree position ∧ position.isString = false
  | .ordinal _ => True
  | .identifier number => IsOperatorTree number
  | .name text => IsOperatorTree text ∧ text.isString = true

/-- Whether a card or background can be said canonically. -/
def LayerReference.IsCanonical : LayerReference → Prop
  | .relative _ => True
  | .absolute which => which.IsCanonical

/-- Whether a card can be said canonically. -/
structure CardReference.IsCanonical (reference : CardReference) : Prop where
  /-- The card itself can. -/
  card : reference.card.IsCanonical
  /-- So can its background. -/
  background : ∀ background ∈ reference.background, background.IsCanonical

/-- Whether a part can be said canonically. -/
structure PartReference.IsCanonical (reference : PartReference) : Prop where
  /-- The part itself can. -/
  which : reference.which.IsCanonical
  /-- So can its card. -/
  card : ∀ card ∈ reference.card, card.IsCanonical

/-- Whether a stack can be said canonically. -/
def StackReference.IsCanonical : StackReference → Prop
  | .current => True
  | .named name => IsOperatorTree name

/-- Whether an object can be said canonically. -/
def ObjectReference.IsCanonical : ObjectReference → Prop
  | .me | .hyperCard => True
  | .stack reference => reference.IsCanonical
  | .background reference => reference.IsCanonical
  | .card reference => reference.IsCanonical
  | .part reference => reference.IsCanonical

/-- Whether a destination can be said canonically. -/
def Destination.IsCanonical : Destination → Prop
  | .card reference => reference.IsCanonical
  | .background reference => reference.IsCanonical
  | .stack reference => reference.IsCanonical

/-- The words for the message box, which name no variable. -/
def messageWords : List String := ["message", "msg"]

/-- Whether a container can be said canonically. -/
def Container.IsCanonical : Container → Prop
  | .variable name => IsWord name ∧ ∀ word ∈ messageWords, name.toLower ≠ .encodeOrRaw word
  | .part reference => reference.IsCanonical
  | .messageBox => True

/-- Whether a command can be said canonically. -/
def Command.IsCanonical : Command → Prop
  | .go destination => destination.IsCanonical
  | .put value _ container => IsOperatorTree value ∧ container.IsCanonical
  | .answer prompt replies => IsOperatorTree prompt ∧ ∀ reply ∈ replies, IsOperatorTree reply
  | .beep count => ∀ times ∈ count, IsOperatorTree times
  | .visual effect => ∃ words : List RomanString, words ≠ [] ∧ (∀ word ∈ words, IsWord word) ∧
      effect.characters = HyperTalk.phrase (words.map RomanString.characters)

namespace HyperTalk

section Existence

variable {expression : Expression}

/-- Every tree of operators can be written as a factor. -/
theorem exists_factorRenders (tree : IsOperatorTree expression) :
    ∃ text, FactorRenders expression text := by
  obtain ⟨text, renders⟩ := exists_renders tree 0
  match expression, tree with
  | .integer _, _ => exact ⟨_, .integer⟩
  | .string _, _ => exact ⟨_, .string⟩
  | .unary _ _, _ => exact ⟨_, .parentheses rfl renders⟩
  | .binary _ _ _, _ => exact ⟨_, .parentheses rfl renders⟩

/-- A position that is no string is read as one. -/
theorem ofExpression_of_position (position : expression.isString = false) :
    Identification.ofExpression expression = .ordinal (.number expression) := by
  cases expression with
  | string => cases position
  | _ => rfl

/-- A string is read as a name. -/
theorem ofExpression_of_name (name : expression.isString = true) :
    Identification.ofExpression expression = .name expression := by
  cases expression with
  | string => rfl
  | _ => cases name

/-- Every canonical reference to a layer can be said: a position in words or by number, a lasting
number or a name. -/
theorem exists_layerRenders (layer : Layer) {reference : LayerReference}
    (canonical : reference.IsCanonical) : ∃ text, LayerRenders layer reference text := by
  match reference, canonical with
  | .relative _, _ => exact ⟨_, .relative⟩
  | .absolute (.ordinal .last), _ => exact ⟨_, .ordinal rfl⟩
  | .absolute (.ordinal .middle), _ => exact ⟨_, .ordinal rfl⟩
  | .absolute (.ordinal .any), _ => exact ⟨_, .ordinal rfl⟩
  | .absolute (.ordinal (.number position)), canonical =>
    obtain ⟨text, renders⟩ := @exists_factorRenders position canonical.1
    rw [← ofExpression_of_position canonical.2]
    exact ⟨_, .described renders⟩
  | .absolute (.identifier number), canonical =>
    obtain ⟨text, renders⟩ := @exists_factorRenders number canonical
    exact ⟨_, .identifier renders⟩
  | .absolute (.name name), canonical =>
    obtain ⟨text, renders⟩ := @exists_factorRenders name canonical.1
    rw [← ofExpression_of_name canonical.2]
    exact ⟨_, .described renders⟩

/-- Every canonical card can be said, with its background if it has one. -/
theorem exists_cardRenders {reference : CardReference} (canonical : reference.IsCanonical) :
    ∃ text, CardRenders reference text := by
  obtain ⟨card, background⟩ := reference
  obtain ⟨text, renders⟩ := exists_layerRenders .card canonical.card
  cases background with
  | none => exact ⟨_, .alone renders⟩
  | some background =>
    obtain ⟨_, others⟩ := exists_layerRenders .background (canonical.background background rfl)
    exact ⟨_, .ofBackground renders others⟩

/-- Every canonical choice among the parts of a layer can be said. -/
theorem exists_whichRenders (kind : PartKind) (layer : Layer) {which : Identification}
    (canonical : which.IsCanonical) : ∃ text, WhichRenders kind layer which text := by
  match which, canonical with
  | .ordinal .last, _ => exact ⟨_, .ordinal rfl⟩
  | .ordinal .middle, _ => exact ⟨_, .ordinal rfl⟩
  | .ordinal .any, _ => exact ⟨_, .ordinal rfl⟩
  | .ordinal (.number position), canonical =>
    obtain ⟨text, renders⟩ := @exists_factorRenders position canonical.1
    rw [← ofExpression_of_position canonical.2]
    exact ⟨_, .described renders⟩
  | .identifier number, canonical =>
    obtain ⟨text, renders⟩ := @exists_factorRenders number canonical
    exact ⟨_, .identifier renders⟩
  | .name name, canonical =>
    obtain ⟨text, renders⟩ := @exists_factorRenders name canonical.1
    rw [← ofExpression_of_name canonical.2]
    exact ⟨_, .described renders⟩

/-- Every canonical part can be said, with its card if it has one. -/
theorem exists_partRenders {reference : PartReference} (canonical : reference.IsCanonical) :
    ∃ text, PartRenders reference text := by
  obtain ⟨kind, layer, which, card⟩ := reference
  obtain ⟨text, renders⟩ := exists_whichRenders kind layer canonical.which
  cases card with
  | none => exact ⟨_, .alone renders⟩
  | some card =>
    obtain ⟨_, others⟩ := exists_cardRenders (canonical.card card rfl)
    exact ⟨_, .ofCard renders others⟩

/-- Every canonical stack can be said. -/
theorem exists_stackRenders {reference : StackReference} (canonical : reference.IsCanonical) :
    ∃ text, StackRenders reference text := by
  cases reference with
  | current => exact ⟨_, .current⟩
  | named name =>
    obtain ⟨_, renders⟩ := @exists_factorRenders name canonical
    exact ⟨_, .named renders⟩

/-- Every canonical object can be said. -/
theorem exists_objectRenders {reference : ObjectReference} (canonical : reference.IsCanonical) :
    ∃ text, ObjectRenders reference text := by
  cases reference with
  | me => exact ⟨_, .me⟩
  | hyperCard => exact ⟨_, .hyperCard⟩
  | stack reference => exact (@exists_stackRenders reference canonical).imp fun _ => .stack
  | background reference =>
    exact (@exists_layerRenders .background reference canonical).imp fun _ => .background
  | card reference => exact (@exists_cardRenders reference canonical).imp fun _ => .card
  | part reference => exact (@exists_partRenders reference canonical).imp fun _ => .part

/-- Every canonical place to go to can be said. -/
theorem exists_destinationRenders {destination : Destination}
    (canonical : destination.IsCanonical) : ∃ text, DestinationRenders destination text := by
  cases destination with
  | card reference => exact (@exists_cardRenders reference canonical).imp fun _ => .card
  | background reference =>
    exact (@exists_layerRenders .background reference canonical).imp fun _ => .background
  | stack reference => exact (@exists_stackRenders reference canonical).imp fun _ => .stack

/-- Every canonical container can be said. -/
theorem exists_containerRenders {container : Container} (canonical : container.IsCanonical) :
    ∃ text, ContainerRenders container text := by
  match container, canonical with
  | .variable _, _ => exact ⟨_, .word⟩
  | .part reference, canonical =>
    exact (@exists_partRenders reference canonical).imp fun _ => .part
  | .messageBox, _ => exact ⟨_, .messageBox⟩

/-- Any number of further replies can be said. -/
theorem exists_otherReplies {replies : List Expression}
    (trees : ∀ reply ∈ replies, IsOperatorTree reply) : ∃ text, OtherReplies replies text := by
  induction replies with
  | nil => exact ⟨_, .none⟩
  | cons reply replies ih =>
    obtain ⟨_, renders⟩ := exists_factorRenders (trees reply List.mem_cons_self)
    obtain ⟨_, others⟩ := ih fun other member => trees other (List.mem_cons_of_mem _ member)
    exact ⟨_, .more renders others⟩

/-- Every canonical command can be said. -/
theorem exists_commandRenders {command : Command} (canonical : command.IsCanonical) :
    ∃ text, CommandRenders command text := by
  match command, canonical with
  | .go destination, canonical =>
    obtain ⟨_, renders⟩ := @exists_destinationRenders destination canonical
    exact ⟨_, .go renders⟩
  | .put value preposition container, canonical =>
    obtain ⟨_, renders⟩ := @exists_renders value canonical.1 0
    obtain ⟨_, others⟩ := @exists_containerRenders container canonical.2
    exact ⟨_, .put renders others⟩
  | .answer prompt [], canonical =>
    obtain ⟨_, renders⟩ := @exists_renders prompt canonical.1 0
    exact ⟨_, .show renders⟩
  | .answer prompt (reply :: replies), canonical =>
    obtain ⟨_, renders⟩ := @exists_renders prompt canonical.1 0
    obtain ⟨_, first⟩ := exists_factorRenders (canonical.2 reply List.mem_cons_self)
    obtain ⟨_, others⟩ := exists_otherReplies fun other member =>
      canonical.2 other (List.mem_cons_of_mem _ member)
    exact ⟨_, .ask renders first others⟩
  | .beep none, _ => exact ⟨_, .beep⟩
  | .beep (some count), canonical =>
    obtain ⟨_, renders⟩ := exists_renders (canonical count rfl) 0
    exact ⟨_, .beepTimes renders⟩
  | .visual _, _ => exact ⟨_, .visual⟩

end Existence

end HyperTalk
end HyperCard
