import HyperCard.Archive.Configuration

/-!
# Arguments of the command line

The words of a command line are options, each given at most once, and other words in order. An
option has a long name after two hyphens and may have a letter after one; letters may share a
hyphen. The value of an option follows an equals sign or is the next word, which then does not
begin with a hyphen; after a letter the equals sign may be left out. After a word of two hyphens
alone there are no more options. The words before the name of a command may be options too, of
those that all commands have.
-/
namespace HyperCard.CommandLine

/-- An option. -/
structure Switch where
  /-- The name after two hyphens. -/
  name : String
  /-- The letter after one hyphen. -/
  letter : Option Char
  /-- Whether it has a value. -/
  takesValue : Bool
  deriving DecidableEq, Repr

/-- The words of a command line, sorted out. -/
structure Words where
  /-- The options given, by name, with their values. -/
  switches : List (String × String)
  /-- The other words. -/
  operands : List String
  /-- The command and the words after it. -/
  command : Option (String × List String)
  deriving Repr

namespace Words

/-- No words. -/
def empty : Words := ⟨[], [], none⟩

/-- Words with options before them. -/
def withSwitches (words : Words) (given : List (String × String)) : Words :=
  { words with switches := given ++ words.switches }

/-- Words with another one before them. -/
def withOperand (words : Words) (operand : String) : Words :=
  { words with operands := operand :: words.operands }

/-- The value of an option, if it is given. -/
def value? (words : Words) (name : String) : Option String := words.switches.lookup name

/-- Whether an option is given. -/
def has (words : Words) (name : String) : Bool := (words.value? name).isSome

end Words

/-- The letters after one hyphen: the options that are complete, and one that still needs the
next word for its value. -/
def letters (switches : List Switch) :
    List Char → Option (List (String × String) × Option String)
  | [] => some ([], none)
  | letter :: rest =>
    match switches.find? (·.letter == some letter) with
    | none => none
    | some switch =>
      if switch.takesValue then
        match rest with
        | [] => some ([], some switch.name)
        | '=' :: value => some ([(switch.name, String.ofList value)], none)
        | value => some ([(switch.name, String.ofList value)], none)
      else
        (letters switches rest).map fun (given, waiting) => ((switch.name, "") :: given, waiting)

/-- What a word after hyphens says: the options that are complete, and one that still needs the
next word for its value. -/
def switchWord (switches : List Switch) (word : List Char) :
    Option (List (String × String) × Option String) :=
  match word with
  | '-' :: '-' :: rest =>
    let (name, attached) := rest.span (· != '=')
    match switches.find? (·.name == String.ofList name), attached with
    | none, _ => none
    | some switch, [] =>
      if switch.takesValue then some ([], some switch.name) else some ([(switch.name, "")], none)
    | some switch, _ :: value =>
      if switch.takesValue then some ([(switch.name, String.ofList value)], none) else none
  | '-' :: rest => letters switches rest
  | _ => none

/-- Whether a word begins with a hyphen and is not a hyphen alone. -/
def isSwitchWord (word : String) : Bool :=
  match word.toList with
  | '-' :: _ :: _ => true
  | _ => false

/-- Sort out words up to the name of a command, if one is expected. -/
def scan (switches : List Switch) (commands : List String) : List String → Option Words
  | [] => some .empty
  | word :: rest =>
    if commands.contains word then some { Words.empty with command := some (word, rest) }
    else if word == "--" then some { Words.empty with operands := rest }
    else if isSwitchWord word then
      match switchWord switches word.toList with
      | none => none
      | some (given, none) => (scan switches commands rest).map (·.withSwitches given)
      | some (given, some waiting) =>
        match rest with
        | [] => none
        | value :: later =>
          if isSwitchWord value then none
          else (scan switches commands later).map (·.withSwitches (given ++ [(waiting, value)]))
    else (scan switches commands rest).map (·.withOperand word)

/-- Sort out words in which no option is given twice. -/
def words? (switches : List Switch) (commands arguments : List String) : Option Words :=
  match scan switches commands arguments with
  | some words => if (words.switches.map (·.1)).Nodup then some words else none
  | none => none

/-- The number that a text of digits, perhaps after a plus sign, stands for. -/
def natural? (text : String) : Option Nat :=
  let digits :=
    match text.toList with
    | '+' :: digits => digits
    | digits => digits
  if digits.isEmpty || !digits.all Char.isDigit then none
  else
    some (digits.foldl (fun value digit => 10 * value + (digit.toNat - '0'.toNat)) 0)

/-- A count, which fits 64 bits. -/
def count? (text : String) : Option Nat := (natural? text).filter (· < 0x10000000000000000)

/-- An identifier, which fits 32 bits with its sign. -/
def identifier? (text : String) : Option Int :=
  let value : Option Int :=
    match text.toList with
    | '-' :: '+' :: _ => none
    | '-' :: digits => (natural? (String.ofList digits)).map fun value => -(value : Int)
    | _ => (natural? text).map fun value => (value : Int)
  value.filter fun value => -0x80000000 ≤ value && value < 0x80000000

/-- A path, which is not empty. -/
def path? (text : String) : Option String := if text.isEmpty then none else some text

/-- What the program is asked to do. -/
inductive Action
  /-- Summarise a stack. -/
  | info (stack : String)
  /-- List the cards of a stack. -/
  | cards (stack : String)
  /-- List the blocks of a stack, perhaps of one type, perhaps with their first bytes. -/
  | blocks (stack : String) (tag : Option String) (dump : Option Nat)
  /-- Write a picture of a stack to a file. -/
  | bitmap (stack : String) (identifier : Int) (out : String)
  /-- Parse a line as a command or as an expression. -/
  | parse (line : String) (asExpression : Bool)
  /-- Parse the scripts of a stack, perhaps of one card. -/
  | script (stack : String) (card : Option Int)
  deriving DecidableEq, Repr

/-- The stack that an action reads, if it reads one. -/
def Action.stack? : Action → Option String
  | .info stack | .cards stack | .blocks stack _ _ | .bitmap stack _ _ | .script stack _ =>
    some stack
  | .parse _ _ => none

/-- What the program is asked to do, with its settings. -/
structure Invocation where
  /-- The settings for reading. -/
  configuration : Configuration
  /-- The action. -/
  action : Action
  deriving DecidableEq, Repr

/-- The options of all commands. -/
def commonSwitches : List Switch :=
  [⟨"verbose", some 'v', false⟩, ⟨"verify-checksums", none, false⟩,
    ⟨"max-chain-length", none, true⟩, ⟨"no-block-cache", none, false⟩]

/-- The commands and the options of each. -/
def commands : List (String × List Switch) :=
  [("info", []), ("cards", []), ("blocks", [⟨"tag", none, true⟩, ⟨"dump", none, true⟩]),
    ("bitmap", [⟨"out", some 'o', true⟩]), ("parse", [⟨"expression", some 'e', false⟩]),
    ("script", [⟨"card", none, true⟩])]

/-- The value of an option, if it is given; a value that cannot be read is refused. -/
def optional? {α : Type} (read : String → Option α) (words : Words) (name : String) :
    Option (Option α) :=
  match words.value? name with
  | none => some none
  | some text => (read text).map some

/-- The action of a command with its words. -/
def action? (command : String) (words : Words) : Option Action :=
  match command, words.operands with
  | "info", [stack] => .info <$> path? stack
  | "cards", [stack] => .cards <$> path? stack
  | "blocks", [stack] =>
    return .blocks (← path? stack) (words.value? "tag") (← optional? count? words "dump")
  | "bitmap", [stack, identifier] =>
    return .bitmap (← path? stack) (← identifier? identifier)
      (← (words.value? "out").bind path?)
  | "parse", [line] => some (.parse line (words.has "expression"))
  | "script", [stack] =>
    return .script (← path? stack) (← optional? identifier? words "card")
  | _, _ => none

/-- What a command line asks for, if it is well formed. Settings given after the command win over
those given before it. -/
def Invocation.parse? (arguments : List String) : Option Invocation := do
  let outer ← words? commonSwitches (commands.map (·.1)) arguments
  let (command, rest) ← outer.command
  if !outer.operands.isEmpty then none
  let switches ← commands.lookup command
  let inner ← words? (switches ++ commonSwitches) [] rest
  let outerLimit ← optional? count? outer "max-chain-length"
  let innerLimit ← optional? count? inner "max-chain-length"
  let usual : Configuration := {}
  return {
    configuration := {
      maxChainLength := (innerLimit <|> outerLimit).getD usual.maxChainLength
      verifyChecksums := outer.has "verify-checksums" || inner.has "verify-checksums"
      cacheBlocks := !(outer.has "no-block-cache" || inner.has "no-block-cache") }
    action := ← action? command inner }

end HyperCard.CommandLine
