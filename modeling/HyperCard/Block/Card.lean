import HyperCard.Archive.Version

/-!
# Cards and backgrounds

A card and its background are two layers of one picture, and their blocks have much in common:
the parts, which are buttons and fields, the texts of fields, a name and a script. Parts and
texts follow each other without a table, so each is found through the lengths of those before.
The second generation gives the length of a text and begins every text at an even offset; the
first one ends each text with a zero byte.
-/
namespace HyperCard

/-- What cards and backgrounds have in common. -/
structure LayerBlock where
  /-- The identifier. -/
  identifier : Int
  /-- The picture, if there is one. -/
  bitmapId : Option Int
  /-- The layer cannot be deleted. -/
  cantDelete : Bool
  /-- The picture is shown. -/
  showPict : Bool
  /-- Searches pass over the layer. -/
  dontSearch : Bool
  /-- The number of parts. -/
  partCount : Nat
  /-- The identifier of the next new part. -/
  nextAvailableId : Nat
  /-- The number of bytes of the parts. -/
  partSize : Nat
  /-- The number of texts. -/
  contentCount : Nat
  /-- The number of bytes of the texts. -/
  contentSize : Nat
  /-- The parts. -/
  parts : List Window
  /-- The texts. -/
  contents : List Window
  /-- The name. -/
  name : RomanString
  /-- The script. -/
  script : RomanString

namespace LayerBlock

/-- The next even number from a number on. -/
def roundUpToEven (number : Nat) : Nat := number + number % 2

/-- So many parts from an offset on; a part begins with its length, which is not zero. -/
def readParts (data : Window) : (count offset : Nat) → Except ArchiveError (List Window)
  | 0, _ => .ok []
  | count + 1, offset => do
    let size ← data.unsigned 2 offset
    if size = 0 then throw (.corrupt (.emptyPart offset))
    let part ← data.sub offset size
    return part :: (← readParts data count (offset + size))

/-- So many texts of the second generation from an offset on: an identifier, a length and the
text, up to an even offset. -/
def readContents (data : Window) : (count offset : Nat) → Except ReadError (List Window)
  | 0, _ => .ok []
  | count + 1, offset => do
    let size ← data.unsigned 2 (offset + 2)
    let content ← data.sub offset (size + 4)
    return content :: (← readContents data count (roundUpToEven (offset + size + 4)))

/-- So many texts of the first generation from an offset on: an identifier and a text with its
zero byte. -/
def readTerminatedContents (data : Window) : (count offset : Nat) → Except ReadError (List Window)
  | 0, _ => .ok []
  | count + 1, offset => do
    let text ← data.text (offset + 2)
    let size := 2 + text.length + 1
    let content ← data.sub offset size
    return content :: (← readTerminatedContents data count (offset + size))

/-- The common contents of a block whose parts begin at an offset. -/
def read (data : Window) (version : FormatVersion) (partOffset : Nat) :
    Except ArchiveError LayerBlock := do
  let partCount ← data.unsigned 2 (partOffset - 0x0E)
  let partSize ← data.unsigned 4 (partOffset - 0x0A)
  let contentCount ← data.unsigned 2 (partOffset - 0x06)
  let contentSize ← data.unsigned 4 (partOffset - 0x04)
  let parts ← readParts data partCount partOffset
  let contentOffset := partOffset + partSize
  let contents ←
    if version.isTwo then readContents data contentCount contentOffset
    else readTerminatedContents data contentCount contentOffset
  let nameOffset := contentOffset + contentSize
  let name ← data.text nameOffset
  let script ← data.text (nameOffset + name.length + 1)
  let flagsOffset := version.shift 0x14
  let identifier ← data.signed 4 0x08
  let bitmapId ← data.signed 4 (version.shift 0x10)
  let cantDelete ← data.flag flagsOffset 14
  let hidePict ← data.flag flagsOffset 13
  let dontSearch ← data.flag flagsOffset 11
  let nextAvailableId ← data.unsigned 2 (partOffset - 0x0C)
  return {
    identifier
    bitmapId := if bitmapId = 0 then none else some bitmapId
    cantDelete
    showPict := !hidePict
    dontSearch
    partCount
    nextAvailableId
    partSize
    contentCount
    contentSize
    parts
    contents
    name
    script }

end LayerBlock

/-- A card. -/
structure CardBlock where
  /-- What it has in common with backgrounds. -/
  layer : LayerBlock
  /-- The page that lists the card. -/
  pageId : Int
  /-- The background of the card. -/
  backgroundId : Int

/-- The card block of a window. -/
def CardBlock.read (data : Window) (version : FormatVersion) : Except ArchiveError CardBlock := do
  return {
    layer := ← LayerBlock.read data version (version.shift 0x36)
    pageId := ← data.signed 4 (version.shift 0x20)
    backgroundId := ← data.signed 4 (version.shift 0x24) }

/-- A background. The backgrounds of a stack form a ring. -/
structure BackgroundBlock where
  /-- What it has in common with cards. -/
  layer : LayerBlock
  /-- The number of its cards. -/
  cardCount : Nat
  /-- The next background of the ring. -/
  nextBackgroundId : Int
  /-- The previous background of the ring. -/
  previousBackgroundId : Int

/-- The background block of a window. -/
def BackgroundBlock.read (data : Window) (version : FormatVersion) :
    Except ArchiveError BackgroundBlock := do
  return {
    layer := ← LayerBlock.read data version (version.shift 0x32)
    cardCount := ← data.unsigned 4 (version.shift 0x18)
    nextBackgroundId := ← data.signed 4 (version.shift 0x1C)
    previousBackgroundId := ← data.signed 4 (version.shift 0x20) }

end HyperCard
