import HyperCard.CommandLine.Arguments
import HyperCard.Report.Outline
import HyperCard.Report.Stack
import HyperCard.Script.Rules
import HyperCard.Script.Statement

/-!
# Actions of the command line

What the program prints and writes for each action, given the files there are. An action that
fails keeps what it has printed before.
-/
namespace HyperCard.CommandLine

/-- What an action has done so far. -/
structure Session where
  /-- The text printed. -/
  printed : String
  /-- The file written, with its path. -/
  written : Option (String × List UInt8)
  /-- The blocks found. -/
  cache : Cache

/-- A part of an action, which may fail with a message. -/
abbrev Task (α : Type) := ExceptT String (StateM Session) α

/-- The files there are, by path. -/
abbrev Files := String → Option (Array UInt8)

/-- Print a line. -/
def printLine (line : String) : Task Unit :=
  modify fun session => { session with printed := session.printed ++ line ++ "\n" }

/-- The message of an error with its cause. -/
def archiveMessage (error : ArchiveError) : String :=
  match error with
  | .bounds violation => error.message ++ ": " ++ violation.message
  | _ => error.message

/-- The message of an error with its cause. -/
def bitmapMessage (error : BitmapError) : String :=
  match error with
  | .bounds violation => error.message ++ ": " ++ violation.message
  | _ => error.message

/-- Make a request to a stack. -/
def ask {α : Type} (request : Request α) : Task α := do
  let session ← get
  let (result, cache) := request.run session.cache
  set { session with cache }
  match result with
  | .ok value => return value
  | .error error => throw (archiveMessage error)

/-- Open a stack. -/
def openStack (files : Files) (path : String) (configuration : Configuration) :
    Task StackFile := do
  let some contents := files path | throw ("stack file not found: " ++ path)
  if contents.isEmpty then throw (path ++ " is empty")
  match StackFile.read (.ofArray contents) configuration with
  | .ok file => return file
  | .error error => throw ("failed to read stack " ++ path ++ ": " ++ archiveMessage error)

/-- A text with blanks before it up to a width. -/
def alignRight (width : Nat) (text : String) : String :=
  String.ofList (List.replicate (width - text.length) ' ') ++ text

/-- A text with blanks after it up to a width. -/
def alignLeft (width : Nat) (text : String) : String :=
  text ++ String.ofList (List.replicate (width - text.length) ' ')

/-- Print the cards of some entries, the first of which has the given number. -/
def printCards (file : StackFile) : Nat → List CardEntry → Task Unit
  | _, [] => return ()
  | number, entry :: entries => do
    let card ← ask (file.card entry.identifier)
    printLine (alignRight 5 (toString number) ++ "  id " ++
      alignLeft 8 (toString entry.identifier) ++ " bkgd " ++
      alignLeft 8 (toString card.backgroundId) ++ " bitmap " ++
      alignLeft 8 (card.layer.bitmapId.elim "-" toString) ++ " " ++
      (if entry.marked then "* " else "") ++ card.layer.name.decode)
    printCards file (number + 1) entries

/-- The lines of bytes in hexadecimal, sixteen a line after the offset of the first. -/
def dumpLines (offset : Nat) : List UInt8 → List String
  | [] => []
  | first :: rest =>
    let digits := (first :: rest.take 15).map Hexadecimal.byte
    ("    " ++ Hexadecimal.padded 8 offset ++ "  " ++ String.join digits) ::
      dumpLines (offset + 16) (rest.drop 15)
termination_by bytes => bytes.length
decreasing_by
  simp only [List.length_drop, List.length_cons]
  omega

/-- Print a block, perhaps with its first bytes. -/
def printBlock (dump : Option Nat) (block : Block) : Task Unit := do
  printLine (block.tag.text ++ " " ++ alignRight 8 (toString block.identifier) ++ "  offset " ++
    Hexadecimal.word block.window.start ++ "  length " ++ toString block.window.length)
  if let some limit := dump then
    (dumpLines 0 (block.window.slice 0 limit)).forM printLine

/-- The type that a text names. -/
def typeOf (text : String) : Task TypeCode :=
  match TypeCode.parse? text with
  | some tag => return tag
  | none => throw ("block type must be four characters: " ++ Quoted.ofString text)

/-- Print the blocks of a stack. -/
def printBlocks (file : StackFile) (tag : Option String) (dump : Option Nat) : Task Unit := do
  let blocks ←
    match tag with
    | some text => do
      let tag ← typeOf text
      ask (liftM (file.blocksOfType tag))
    | none => ask (liftM file.blocks)
  blocks.forM (printBlock dump)

/-- Write a picture of a stack to a file. -/
def writeBitmap (file : StackFile) (identifier : Int) (out : String) : Task Unit := do
  let block ← ask (file.bitmap identifier)
  match block.decode with
  | .error error =>
    throw ("failed to decode bitmap " ++ toString identifier ++ ": " ++ bitmapMessage error)
  | .ok (picture, _) =>
    modify fun session => { session with written := some (out, picture.portableBitmap) }
    printLine ("bitmap " ++ toString identifier ++ " (" ++ toString picture.width ++ "x" ++
      toString picture.height ++ ") written to " ++ out)

/-- Print the outline of a line. -/
def printOutline (line : String) (asExpression : Bool) : Task Unit := do
  let (outline, kind) :=
    if asExpression then
      ((HyperTalk.parseText .expression line).map Expression.outline, "an expression")
    else ((HyperTalk.parseText .command line).map Command.outline, "a command")
  match outline with
  | some outline => printLine outline.indented
  | none => throw ("not " ++ kind ++ ": " ++ Quoted.ofString line)

/-- The scripts of a stack with the names of their owners, perhaps of one card only. -/
def scripts (file : StackFile) (card : Option Int) : Request (List (String × RomanString)) := do
  match card with
  | some identifier =>
    let card ← file.card identifier
    return [("card " ++ toString identifier, card.layer.script)]
  | none =>
    let backgrounds ← file.backgrounds
    let cards ← file.cards
    return ("stack", file.stack.script) ::
      backgrounds.map (fun background =>
        ("background " ++ toString background.layer.identifier, background.layer.script)) ++
      cards.map fun card => ("card " ++ toString card.layer.identifier, card.layer.script)

/-- The line printed for a statement of a script. -/
def statementLine (owner : String) (statement : Statement) : String :=
  owner ++ ":" ++ toString statement.number ++ ": " ++
    match HyperTalk.parse .command statement.text with
    | some command => command.outline.inline
    | none => "- " ++ statement.text.decode

/-- Print the statements of scripts. -/
def printScripts (scripts : List (String × RomanString)) : Task Unit :=
  scripts.forM fun (owner, script) =>
    script.statements.forM fun statement => printLine (statementLine owner statement)

/-- Carry out an action. -/
def perform (files : Files) (invocation : Invocation) : Task Unit := do
  let configuration := invocation.configuration
  if configuration.validate.toOption.isNone then
    throw ("invalid reader configuration: " ++ ArchiveError.chainLimitRule)
  match invocation.action with
  | .info stack =>
    let file ← openStack files stack configuration
    printLine (← ask (file.summary stack)).render
  | .cards stack =>
    let file ← openStack files stack configuration
    printCards file 1 (← ask file.cardReferences)
  | .blocks stack tag dump => printBlocks (← openStack files stack configuration) tag dump
  | .bitmap stack identifier out =>
    writeBitmap (← openStack files stack configuration) identifier out
  | .parse line asExpression => printOutline line asExpression
  | .script stack card =>
    let file ← openStack files stack configuration
    printScripts (← ask (scripts file card))

/-- What an invocation prints and writes, and the message it fails with. -/
structure Report where
  /-- The text printed. -/
  printed : String
  /-- The file written, with its path. -/
  written : Option (String × List UInt8)
  /-- The message of the failure, if it fails. -/
  failure : Option String

/-- Carry out an invocation. -/
def run (files : Files) (invocation : Invocation) : Report :=
  let (result, session) := (perform files invocation).run ⟨"", none, []⟩
  match result with
  | .ok _ => ⟨session.printed, session.written, none⟩
  | .error message => ⟨session.printed, session.written, some message⟩

end HyperCard.CommandLine
