import HyperCard.Archive.Configuration
import HyperCard.Archive.Directory
import HyperCard.Block.Directory
import HyperCard.Block.Stack
import HyperCard.Block.Table
import HyperCard.Picture.BitmapBlock

/-!
# Stack files

A stack file begins with its stack block, and the directory of all other blocks follows it. A
block is looked for among the records that may stand for its identifier, and its header decides.
Blocks once found may be remembered for later requests; a request that fails leaves what is
remembered as it was, apart from the blocks found on the way.
-/
namespace HyperCard

/-- A block in its file. -/
structure Block where
  /-- The type. -/
  tag : TypeCode
  /-- The identifier. -/
  identifier : Int
  /-- The bytes, header included. -/
  window : Window

/-- A stack file that has been opened. -/
structure StackFile where
  /-- The whole file. -/
  data : Window
  /-- The generation of the format. -/
  version : FormatVersion
  /-- The stack block. -/
  stack : StackBlock
  /-- The directory. -/
  records : List DirectoryRecord
  /-- The settings. -/
  configuration : Configuration

/-- The blocks found so far. -/
abbrev Cache := List Block

/-- A request to a file, which may remember the blocks that it finds. -/
abbrev Request (α : Type) := ExceptT ArchiveError (StateM Cache) α

instance : MonadLift (Except ArchiveError) (ExceptT ArchiveError (StateM Cache)) :=
  ⟨fun result => ExceptT.mk (pure result)⟩

/-- The block with a key among those found so far. -/
def Cache.find? (cache : Cache) (tag : TypeCode) (identifier : Int) : Option Block :=
  List.find? (fun block => block.tag == tag && block.identifier == identifier) cache

namespace StackFile

/-- Open a file with the given settings. The checksum counts in the second generation only. -/
def read (data : Window) (configuration : Configuration) : Except ArchiveError StackFile := do
  configuration.validate
  let stackLength ← data.unsigned 4 0
  let stackWindow ← data.sub 0 stackLength
  let stack ← StackBlock.read stackWindow
  if configuration.verifyChecksums && stack.version.isTwo then
    let residue ← StackBlock.checksumResidue stackWindow
    if residue != 0 then
      throw (.checksumMismatch .stack (-1) stack.checksum (stack.checksum - residue))
  let masterLength ← data.unsigned 4 stackLength
  let master ← data.sub stackLength (masterLength % 0x10000000)
  let _ ← BlockHeader.read master 0
  let records ← DirectoryRecord.readAll master
  return { data, version := stack.version, stack, records, configuration }

/-- The header of the block of a record, unless the record points outside the file. -/
def header? (file : StackFile) (record : DirectoryRecord) :
    Except ArchiveError (Option BlockHeader) :=
  if record.offset = 0 ∨ file.data.length < record.offset + BlockHeader.size then .ok none
  else do return some (← BlockHeader.read file.data record.offset)

/-- The block at an offset with the header that stands there. -/
def blockAt (file : StackFile) (offset : Nat) (header : BlockHeader) :
    Except ArchiveError Block := do
  return ⟨header.tag, header.identifier, ← file.data.sub offset header.length⟩

/-- The block with a key, through the first of some records whose header has it. -/
def locate (file : StackFile) (tag : TypeCode) (identifier : Int) :
    List DirectoryRecord → Except ArchiveError Block
  | [] => .error (.blockNotFound tag identifier)
  | record :: records => do
    if record.mayHold identifier then
      if let some header ← file.header? record then
        if header.tag == tag && header.identifier == identifier then
          return ← file.blockAt record.offset header
    file.locate tag identifier records

/-- The block with a key. -/
def findBlock (file : StackFile) (tag : TypeCode) (identifier : Int) : Request Block := do
  if file.configuration.cacheBlocks then
    match (← get).find? tag identifier with
    | some block => return block
    | none =>
      let block ← file.locate tag identifier file.records
      modify (block :: ·)
      return block
  else file.locate tag identifier file.records

/-- The blocks of some records in order, less those that run past the end of the file. -/
def blocksOfRecords (file : StackFile) : List DirectoryRecord → Except ArchiveError (List Block)
  | [] => .ok []
  | record :: records => do
    let later := file.blocksOfRecords records
    match ← file.header? record with
    | none => later
    | some header =>
      match file.blockAt record.offset header with
      | .ok block => return block :: (← later)
      | .error (.bounds _) => later
      | .error error => .error error

/-- All blocks of the directory, in order. -/
def blocks (file : StackFile) : Except ArchiveError (List Block) :=
  file.blocksOfRecords file.records

/-- All blocks of a type, in order. -/
def blocksOfType (file : StackFile) (tag : TypeCode) : Except ArchiveError (List Block) :=
  List.filter (·.tag == tag) <$> file.blocks

/-- The list of pages. -/
def list (file : StackFile) : Request ListBlock := do
  let block ← file.findBlock .list file.stack.listId
  let list ← ListBlock.read block.window file.version
  if file.configuration.verifyChecksums && !list.isChecksumValid then
    throw (.checksumMismatch .list list.identifier list.checksum list.computedChecksum)
  return list

/-- A page of the list. -/
def page (file : StackFile) (reference : PageReference) (list : ListBlock) :
    Request PageBlock := do
  let block ← file.findBlock .page reference.identifier
  let page ←
    PageBlock.read block.window file.version reference.cardCount list.cardReferenceSize
  if file.configuration.verifyChecksums && !page.isChecksumValid then
    throw (.checksumMismatch .page page.identifier page.checksum page.computedChecksum)
  return page

/-- A card. -/
def card (file : StackFile) (identifier : Int) : Request CardBlock := do
  let block ← file.findBlock .card identifier
  CardBlock.read block.window file.version

/-- A background. -/
def background (file : StackFile) (identifier : Int) : Request BackgroundBlock := do
  let block ← file.findBlock .background identifier
  BackgroundBlock.read block.window file.version

/-- A picture. -/
def bitmap (file : StackFile) (identifier : Int) : Request BitmapBlock := do
  let block ← file.findBlock .bitmap identifier
  BitmapBlock.read block.window file.version

/-- The table of text styles, if the stack names one. -/
def styleTable (file : StackFile) : Request (Option StyleTable) := do
  match file.stack.styleBlockId with
  | none => return none
  | some identifier =>
    let block ← file.findBlock .styleTable identifier
    return some (← StyleTable.read block.window file.version)

/-- The table of fonts, if the stack names one. -/
def fontTable (file : StackFile) : Request (Option FontTable) := do
  match file.stack.fontBlockId with
  | none => return none
  | some identifier =>
    let block ← file.findBlock .fontTable identifier
    return some (← FontTable.read block.window file.version)

/-- The entries of some pages, in order. -/
def entriesOfPages (file : StackFile) (list : ListBlock) :
    List PageReference → Request (List CardEntry)
  | [] => return []
  | reference :: references => do
    let page ← file.page reference list
    return page.cards ++ (← file.entriesOfPages list references)

/-- The entries of all cards, in the order of the stack. -/
def cardReferences (file : StackFile) : Request (List CardEntry) := do
  let list ← file.list
  file.entriesOfPages list list.pages

/-- The cards of some entries, in order. -/
def cardsOfEntries (file : StackFile) : List CardEntry → Request (List CardBlock)
  | [] => return []
  | entry :: entries => do
    let card ← file.card entry.identifier
    return card :: (← file.cardsOfEntries entries)

/-- All cards, in the order of the stack. -/
def cards (file : StackFile) : Request (List CardBlock) := do
  file.cardsOfEntries (← file.cardReferences)

/-- The backgrounds of the ring from one on, after those already visited, with so many links
left. -/
def ringFrom (file : StackFile) (first : Int) :
    (remaining : Nat) → (visited : List Int) → (identifier : Int) → Request (List BackgroundBlock)
  | 0, _, _ => throw (.corrupt (.chainTooLong file.configuration.maxChainLength))
  | remaining + 1, visited, identifier => do
    if visited.contains identifier then throw (.corrupt (.chainLoops identifier first))
    let background ← file.background identifier
    if background.nextBackgroundId = first then return [background]
    return background ::
      (← file.ringFrom first remaining (identifier :: visited) background.nextBackgroundId)

/-- All backgrounds, in the order of their ring, from the first one of the stack on. -/
def backgrounds (file : StackFile) : Request (List BackgroundBlock) :=
  file.ringFrom file.stack.firstBackgroundId file.configuration.maxChainLength []
    file.stack.firstBackgroundId

end StackFile
end HyperCard
