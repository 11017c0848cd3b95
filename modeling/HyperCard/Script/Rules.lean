import HyperCard.Grammar.Matcher
import HyperCard.Number.Written
import HyperCard.Script.Command

/-!
# The grammar of HyperTalk

Precedence is expressed by nesting: each level of operators matches one operand of the next
tighter level, followed by any number of tails, each an operator and an operand, folded to the
left. Earlier branches win where several match: constants come before words, so that a truth
value is no variable; longer operators come before the operators they begin with; and the
message box comes before variables.
-/
namespace HyperCard

/-- The levels of binary operators, from the loosest to the tightest. -/
inductive Level
  /-- Disjunction. -/
  | or
  /-- Conjunction. -/
  | and
  /-- Comparisons. -/
  | comparison
  /-- Joining of texts. -/
  | concatenation
  /-- Sums and differences. -/
  | additive
  /-- Products and quotients. -/
  | multiplicative
  /-- Powers. -/
  | exponent
  deriving DecidableEq, Repr

/-- The rules of the language. -/
inductive RuleName
  /-- A letter, then letters and digits. -/
  | word
  /-- Digits with at most one point. -/
  | number
  /-- Text between quotes. -/
  | string
  /-- An expression. -/
  | expression
  /-- An expression that needs no parentheses as an operand. -/
  | factor
  /-- A call of a function. -/
  | call
  /-- A comma and one more argument. -/
  | nextArgument
  /-- Operators before a factor. -/
  | unary
  /-- Operands joined by the operators of a level. -/
  | level (level : Level)
  /-- An operator of a level and its right operand. -/
  | tail (level : Level)
  /-- A position by its word. -/
  | ordinal
  /-- A position beside the current object. -/
  | relative
  /-- One card among all. -/
  | cardLayer
  /-- A background. -/
  | background
  /-- The background of a card. -/
  | ofBackground
  /-- A card. -/
  | card
  /-- The card of a part. -/
  | ofCard
  /-- The word for a layer. -/
  | layer
  /-- The kind of a part, perhaps after its layer. -/
  | partKind
  /-- A button or a field. -/
  | part
  /-- A stack. -/
  | stack
  /-- Any object. -/
  | object
  /-- Where to go. -/
  | destination
  /-- The command to go somewhere. -/
  | go
  /-- What holds a value. -/
  | container
  /-- A preposition and a container. -/
  | putTarget
  /-- The command to store a value. -/
  | put
  /-- One more reply. -/
  | otherReply
  /-- The command to ask a question. -/
  | answer
  /-- The command to make a sound. -/
  | beep
  /-- Words in a row. -/
  | words
  /-- The command to choose an effect. -/
  | visual
  /-- A command. -/
  | command
  deriving DecidableEq, Repr

namespace Level

/-- All levels. -/
def all : List Level :=
  [.or, .and, .comparison, .concatenation, .additive, .multiplicative, .exponent]

/-- The operators of a level and their spellings, in order of preference. -/
def operators : Level → List (String × BinaryOperator)
  | .or => [("or", .or)]
  | .and => [("and", .and)]
  | .comparison =>
    [("is not in", .isNotIn), ("is not", .unequal), ("is in", .isIn), ("is", .equal),
      ("contains", .contains), ("<>", .unequal), ("≠", .unequal), ("<=", .lessThanOrEqual),
      ("≤", .lessThanOrEqual), (">=", .greaterThanOrEqual), ("≥", .greaterThanOrEqual),
      ("<", .lessThan), (">", .greaterThan), ("=", .equal)]
  | .concatenation => [("&&", .concatenateWithSpace), ("&", .concatenate)]
  | .additive => [("+", .add), ("-", .subtract)]
  | .multiplicative =>
    [("*", .multiply), ("/", .divide), ("div", .integerDivide), ("mod", .modulo)]
  | .exponent => [("^", .power)]

/-- The name of a level. -/
def name : Level → String
  | .or => "or"
  | .and => "and"
  | .comparison => "comparison"
  | .concatenation => "concatenation"
  | .additive => "additive"
  | .multiplicative => "multiplicative"
  | .exponent => "exponent"

end Level

namespace RuleName

/-- All rules. -/
def all : List RuleName :=
  [.word, .number, .string, .expression, .factor, .call, .nextArgument, .unary] ++
    Level.all.map .level ++ Level.all.map .tail ++
    [.ordinal, .relative, .cardLayer, .background, .ofBackground, .card, .ofCard, .layer,
      .partKind, .part, .stack, .object, .destination, .go, .container, .putTarget, .put,
      .otherReply, .answer, .beep, .words, .visual, .command]

/-- The type of the values of a rule. -/
abbrev Value : RuleName → Type
  | .word | .number | .string | .words => Spelling
  | .call => PendingCall
  | .expression | .factor | .nextArgument | .unary | .level _ | .otherReply => Expression
  | .tail _ => BinaryOperator × Expression
  | .ordinal => Ordinal
  | .relative => RelativePosition
  | .cardLayer | .background | .ofBackground => LayerReference
  | .card | .ofCard => CardReference
  | .layer => Layer
  | .partKind => Option Layer × PartKind
  | .part => PartReference
  | .stack => StackReference
  | .object => ObjectReference
  | .destination => Destination
  | .container => Container
  | .putTarget => Preposition × Container
  | .go | .put | .answer | .beep | .visual | .command => Command

end RuleName

namespace HyperTalk

open Grammar.Element hiding nested

/-- A rule of the language with values of a type. -/
abbrev RuleOf (Value : Type) := Grammar.Rule RuleName.Value Value

/-- An element of a branch with values of a type. -/
abbrev ElementOf (Value : Type) := Grammar.Element RuleName.Value Value

/-- A rule of the language as an element of a branch. -/
def nested {Value : Type} (name : RuleName) (update : Value → name.Value → Value) :
    ElementOf Value :=
  Grammar.Element.nested name update

/-- A rule with its branches. -/
def define {Value : Type} (name : String) (initial : Value)
    (branches : List (List (ElementOf Value))) : RuleOf Value :=
  ⟨name, initial, some branches⟩

/-- Let a nested value take the place of the old one. -/
def replace {Value : Type} (_ value : Value) : Value := value

/-- A character that belongs to the grammar and not to the value. -/
def skip {Value : Type} (value : Value) (_ : UInt8) : Value := value

/-- The characters that may stand between quotes. -/
def isStringCharacter (character : UInt8) : Bool :=
  character != Character.quote && character != Character.carriageReturn

/-- A letter, then letters and digits. -/
def wordRule : RuleOf Spelling :=
  define "word" .empty
    [[character Character.isLetter .push, (character Character.isAlphanumeric .push).many]]

/-- Digits with at most one point. -/
def numberRule : RuleOf Spelling :=
  let digit : ElementOf Spelling := character Character.isDigit .push
  let point : ElementOf Spelling := character (· == Character.point) .push
  define "number" .empty
    [[digit.oneOrMore], [digit.oneOrMore, point, digit.many], [point, digit.oneOrMore]]

/-- Text between quotes. -/
def stringRule : RuleOf Spelling :=
  let mark : ElementOf Spelling := character (· == Character.quote) skip
  define "string" .empty [[mark, (character isStringCharacter .push).many, mark]]

/-- An expression: the loosest level of operators. -/
def expressionRule : RuleOf Expression :=
  define "expression" .emptyText [[nested (.level .or) replace]]

/-- The expression that the text of a number stands for. -/
def numberLiteral (text : RomanString) : Expression :=
  match Written.whole? text with
  | some value => .integer value
  | none =>
    match Written.real? text with
    | some value => .real value
    | none => .word text

/-- A constant, a variable, a call or an expression in parentheses. -/
def factorRule : RuleOf Expression :=
  define "factor" .emptyText
    [[nested .number fun _ number => numberLiteral number.text],
      [nested .string fun _ content => .string content.text],
      [keywordWith "true" fun _ _ => .boolean true],
      [keywordWith "false" fun _ _ => .boolean false],
      [keywordWith "empty" fun _ _ => .emptyText],
      [literal "(", nested .expression replace, literal ")"],
      [nested .call fun _ call => call.expression],
      [nested .word fun _ name => .word name.text]]

/-- A call: a name and arguments in parentheses, or the name of a property, perhaps of one
argument. -/
def callRule : RuleOf PendingCall :=
  let name : ElementOf PendingCall := nested .word .setName
  define "function call" .empty
    [[name, literal "(", literal ")"],
      [name, literal "(", nested .expression .addArgument, (nested .nextArgument .addArgument).many,
        literal ")"],
      [(keyword "the").optional, name, keyword "of", nested .factor .addArgument],
      [keyword "the", name]]

/-- A comma and one more argument. -/
def nextArgumentRule : RuleOf Expression :=
  define "next argument" .emptyText [[literal ",", nested .expression replace]]

/-- Operators before a factor. -/
def unaryRule : RuleOf Expression :=
  define "unary" .emptyText
    [[keyword "-", nested .unary fun _ operand => .unary .negate operand],
      [keyword "not", nested .unary fun _ operand => .unary .not operand],
      [nested .factor replace]]

/-- An operand of a level: a rule of the next tighter level. -/
def operand {Value : Type} (update : Value → Expression → Value) : Level → ElementOf Value
  | .or => nested (.level .and) update
  | .and => nested (.level .comparison) update
  | .comparison => nested (.level .concatenation) update
  | .concatenation => nested (.level .additive) update
  | .additive => nested (.level .multiplicative) update
  | .multiplicative => nested (.level .exponent) update
  | .exponent => nested .unary update

/-- Operands joined by the operators of a level, folded to the left. -/
def levelRule (level : Level) : RuleOf Expression :=
  define level.name .emptyText
    [[operand replace level,
      (nested (.tail level) fun left (operator, right) => .binary operator left right).many]]

/-- An operator of a level and its right operand. -/
def tailRule (level : Level) : RuleOf (BinaryOperator × Expression) :=
  define (level.name ++ " tail") (.or, .emptyText) <|
    level.operators.map fun (spelling, operator) =>
      [keywordWith spelling fun tail _ => (operator, tail.2),
        operand (fun tail right => (tail.1, right)) level]

/-! ## Objects -/

/-- The words for a card. -/
def cardWords : List String := ["card", "cd"]

/-- The words for a background. -/
def backgroundWords : List String := ["background", "bkgnd", "bg"]

/-- The words for the first positions, in order. -/
def ordinalWords : List String :=
  ["first", "second", "third", "fourth", "fifth", "sixth", "seventh", "eighth", "ninth", "tenth"]

/-- A position by its word. -/
def ordinalRule : RuleOf Ordinal :=
  let word (spelling : String) (ordinal : Ordinal) : List (ElementOf Ordinal) :=
    [keywordWith spelling fun _ _ => ordinal]
  define "ordinal" .any <|
    ordinalWords.mapIdx (fun index spelling => word spelling (.number (.integer (index + 1)))) ++
      [word "last" .last, word "middle" .middle, word "mid" .middle, word "any" .any]

/-- A position beside the current object. -/
def relativeRule : RuleOf RelativePosition :=
  define "relative" .current
    [[keyword "this"], [keywordWith "next" fun _ _ => .next],
      [keywordWith "previous" fun _ _ => .previous], [keywordWith "prev" fun _ _ => .previous]]

/-- A card or a background by one of its words: beside the current one, by a word for its
position, by identifier, or by name or number. -/
def layerRule (name : String) (words : List String) : RuleOf LayerReference :=
  define name (.relative .current) <| words.flatMap fun word =>
    [[(keyword "the").optional, nested .relative fun _ position => .relative position,
        keyword word],
      [(keyword "the").optional, nested .ordinal fun _ ordinal => .absolute (.ordinal ordinal),
        keyword word],
      [keyword word, keyword "id",
        nested .factor fun _ expression => .absolute (.identifier expression)],
      [keyword word, nested .factor fun _ expression => .absolute (.ofExpression expression)]]

/-- A card among all. -/
def cardLayerRule : RuleOf LayerReference := layerRule "card layer" cardWords

/-- A background. -/
def backgroundRule : RuleOf LayerReference := layerRule "background" backgroundWords

/-- The background of a card. -/
def ofBackgroundRule : RuleOf LayerReference :=
  define "of background" (.relative .current)
    [[keyword "of", nested .background replace], [keyword "in", nested .background replace]]

/-- A card, perhaps of a background. -/
def cardRule : RuleOf CardReference :=
  define "card" .current
    [[nested .cardLayer fun reference layer => { reference with card := layer },
      (nested .ofBackground fun reference background =>
        { reference with background := some background }).optional]]

/-- The card of a part. -/
def ofCardRule : RuleOf CardReference :=
  define "of card" .current
    [[keyword "of", nested .card replace], [keyword "in", nested .card replace]]

/-- The word for a layer. -/
def layerWordRule : RuleOf Layer :=
  define "layer" .card <|
    cardWords.map (fun word => [keywordWith word fun _ _ => .card]) ++
      backgroundWords.map fun word => [keywordWith word fun _ _ => .background]

/-- The words for the kinds of parts. -/
def partWords : List (String × PartKind) :=
  [("button", .button), ("btn", .button), ("field", .field), ("fld", .field), ("part", .part)]

/-- The kind of a part, perhaps after its layer. -/
def partKindRule : RuleOf (Option Layer × PartKind) :=
  let branch (word : String) (kind : PartKind) : List (ElementOf (Option Layer × PartKind)) :=
    [(nested .layer fun described layer => (some layer, described.2)).optional,
      keywordWith word fun described _ => (described.1, kind)]
  define "part kind" (none, .part) <| partWords.map fun (word, kind) => branch word kind

/-- A part of the kind described, on the layer described or else the usual one. -/
def setKind (part : PartReference) (described : Option Layer × PartKind) : PartReference :=
  { part with kind := described.2, layer := described.1.getD described.2.usualLayer }

/-- A button or a field: by a word for its position, by identifier, or by name or number. -/
def partRule : RuleOf PartReference :=
  let kind : ElementOf PartReference := nested .partKind setKind
  let ofCard : ElementOf PartReference :=
    (nested .ofCard fun part card => { part with card := some card }).optional
  define "part" ⟨.part, .card, .ordinal (.number (.integer 1)), none⟩
    [[(keyword "the").optional,
        nested .ordinal fun part ordinal => { part with which := .ordinal ordinal }, kind, ofCard],
      [kind, keyword "id",
        nested .factor fun part expression => { part with which := .identifier expression },
        ofCard],
      [kind,
        nested .factor fun part expression => { part with which := .ofExpression expression },
        ofCard]]

/-- A stack. -/
def stackRule : RuleOf StackReference :=
  define "stack" .current
    [[keyword "this", keyword "stack"],
      [keyword "stack", nested .factor fun _ name => .named name]]

/-- Any object. -/
def objectRule : RuleOf ObjectReference :=
  define "object" .me
    [[keyword "me"], [keywordWith "HyperCard" fun _ _ => .hyperCard],
      [nested .stack fun _ stack => .stack stack], [nested .part fun _ part => .part part],
      [nested .card fun _ card => .card card],
      [nested .background fun _ background => .background background]]

/-! ## Commands -/

/-- Where to go. -/
def destinationRule : RuleOf Destination :=
  define "destination" (.card .current)
    [[nested .card fun _ card => .card card],
      [nested .background fun _ background => .background background],
      [nested .stack fun _ stack => .stack stack],
      [(keyword "the").optional,
        nested .relative fun _ position => .card ⟨.relative position, none⟩]]

/-- The command to go somewhere. -/
def goRule : RuleOf Command :=
  define "go" (.go (.card .current))
    [[keyword "go", (keyword "to").optional,
      nested .destination fun _ destination => .go destination]]

/-- What holds a value: the message box, a part or a variable. -/
def containerRule : RuleOf Container :=
  define "container" .messageBox
    [[(keyword "the").optional, keyword "message", (keyword "box").optional],
      [(keyword "the").optional, keyword "msg", (keyword "box").optional],
      [nested .part fun _ part => .part part],
      [nested .word fun _ name => .variable name.text]]

/-- A preposition and a container. -/
def putTargetRule : RuleOf (Preposition × Container) :=
  let branch (word : String) (preposition : Preposition) :
      List (ElementOf (Preposition × Container)) :=
    [keywordWith word fun target _ => (preposition, target.2),
      nested .container fun target container => (target.1, container)]
  define "put target" (.into, .messageBox)
    [branch "into" .into, branch "after" .after, branch "before" .before]

/-- Store another value. -/
def setValue (command : Command) (value : Expression) : Command :=
  match command with
  | .put _ preposition container => .put value preposition container
  | other => other

/-- Store the value elsewhere. -/
def setTarget (command : Command) (target : Preposition × Container) : Command :=
  match command with
  | .put value _ _ => .put value target.1 target.2
  | other => other

/-- The command to store a value; without a container it goes into the message box. -/
def putRule : RuleOf Command :=
  define "put" (.put .emptyText .into .messageBox)
    [[keyword "put", nested .expression setValue, (nested .putTarget setTarget).optional]]

/-- Ask another question. -/
def setPrompt (command : Command) (prompt : Expression) : Command :=
  match command with
  | .answer _ replies => .answer prompt replies
  | other => other

/-- Offer one more reply. -/
def addReply (command : Command) (reply : Expression) : Command :=
  match command with
  | .answer prompt replies => .answer prompt (replies ++ [reply])
  | other => other

/-- One more reply. -/
def otherReplyRule : RuleOf Expression :=
  define "other reply" .emptyText [[keyword "or", nested .factor replace]]

/-- The command to ask a question. -/
def answerRule : RuleOf Command :=
  define "answer" (.answer .emptyText [])
    [[keyword "answer", nested .expression setPrompt, keyword "with", nested .factor addReply,
        (nested .otherReply addReply).many],
      [keyword "answer", nested .expression setPrompt]]

/-- The command to make a sound. -/
def beepRule : RuleOf Command :=
  define "beep" (.beep none)
    [[keyword "beep", (nested .expression fun _ count => .beep (some count)).optional]]

/-- One more word, after a space unless it is the first. -/
def addWord (words next : Spelling) : Spelling :=
  (if words.isEmpty then words else words.push Character.space) ++ next

/-- Words in a row. -/
def wordsRule : RuleOf Spelling :=
  define "words" .empty [[(nested .word addWord).oneOrMore]]

/-- The command to choose an effect. -/
def visualRule : RuleOf Command :=
  define "visual" (.visual .empty)
    [[keyword "visual", keyword "effect", nested .words fun _ effect => .visual effect.text],
      [keyword "visual", nested .words fun _ effect => .visual effect.text]]

/-- A command. -/
def commandRule : RuleOf Command :=
  define "command" (.beep none)
    [[nested .go replace], [nested .put replace], [nested .answer replace],
      [nested .beep replace], [nested .visual replace]]

/-! ## The language -/

/-- The rule of each name. -/
def rule : (name : RuleName) → RuleOf (RuleName.Value name)
  | .word => wordRule
  | .number => numberRule
  | .string => stringRule
  | .expression => expressionRule
  | .factor => factorRule
  | .call => callRule
  | .nextArgument => nextArgumentRule
  | .unary => unaryRule
  | .level level => levelRule level
  | .tail level => tailRule level
  | .ordinal => ordinalRule
  | .relative => relativeRule
  | .cardLayer => cardLayerRule
  | .background => backgroundRule
  | .ofBackground => ofBackgroundRule
  | .card => cardRule
  | .ofCard => ofCardRule
  | .layer => layerWordRule
  | .partKind => partKindRule
  | .part => partRule
  | .stack => stackRule
  | .object => objectRule
  | .destination => destinationRule
  | .go => goRule
  | .container => containerRule
  | .putTarget => putTargetRule
  | .put => putRule
  | .otherReply => otherReplyRule
  | .answer => answerRule
  | .beep => beepRule
  | .words => wordsRule
  | .visual => visualRule
  | .command => commandRule

/-- The grammar of the language. -/
def grammar : Grammar RuleName.Value := ⟨rule, RuleName.all.length⟩

/-- The value of a line that matches a rule. -/
def parse (name : RuleName) (line : RomanString) : Option (RuleName.Value name) :=
  grammar.parse name line

/-- The value of a text that matches a rule; text that cannot be encoded matches none. -/
def parseText (name : RuleName) (text : String) : Option (RuleName.Value name) :=
  match RomanString.encode text with
  | .ok line => parse name line
  | .error _ => none

end HyperTalk
end HyperCard
