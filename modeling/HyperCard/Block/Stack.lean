import HyperCard.Archive.Version
import HyperCard.Picture.Raster

/-!
# The block about the whole stack

The first block of a file holds what concerns the stack as a whole: its format, where its cards
and tables are, who may change it, its paint patterns and its script.
-/
namespace HyperCard

/-- What a user may do. -/
inductive UserLevel
  /-- Look at cards. -/
  | browse
  /-- Write into fields. -/
  | typing
  /-- Paint. -/
  | painting
  /-- Change buttons and fields. -/
  | authoring
  /-- Change scripts. -/
  | scripting
  deriving DecidableEq, Repr

namespace UserLevel

/-- The level of a stored number; zero stands for the highest. -/
def ofNumber? : Nat → Option UserLevel
  | 1 => some .browse
  | 2 => some .typing
  | 3 => some .painting
  | 4 => some .authoring
  | 0 | 5 => some .scripting
  | _ => none

/-- The name of a level. -/
def name : UserLevel → String
  | .browse => "Browse"
  | .typing => "Typing"
  | .painting => "Painting"
  | .authoring => "Authoring"
  | .scripting => "Scripting"

end UserLevel

/-- What the stack is protected from. -/
structure Protection where
  /-- Scripts cannot be interrupted. -/
  cantAbort : Bool
  /-- The stack cannot be deleted. -/
  cantDelete : Bool
  /-- The stack cannot be changed. -/
  cantModify : Bool
  /-- Buttons and fields cannot be revealed. -/
  cantPeek : Bool
  /-- A password is asked for. -/
  privateAccess : Bool
  deriving DecidableEq, Repr

/-- The versions of the program that wrote the stack, where they are known. -/
structure ProgramVersions where
  /-- At the creation of the stack. -/
  atCreation : Option Nat
  /-- When the stack was last compacted. -/
  atLastCompacting : Option Nat
  /-- The oldest one that changed the stack since. -/
  atLastModificationSinceCompacting : Option Nat
  /-- When the stack was last changed. -/
  atLastModification : Option Nat
  deriving DecidableEq, Repr

/-- Bytes of the file that are not used. -/
structure FreeLocation where
  /-- Where they begin. -/
  offset : Nat
  /-- How many there are. -/
  size : Nat
  deriving DecidableEq, Repr

/-- The stack as a whole. -/
structure StackBlock where
  /-- The generation of the format. -/
  version : FormatVersion
  /-- The format number. -/
  format : Nat
  /-- The number of bytes of the file. -/
  totalSize : Nat
  /-- The number of bytes of this block. -/
  stackSize : Nat
  /-- The number of backgrounds. -/
  backgroundCount : Nat
  /-- The first background. -/
  firstBackgroundId : Int
  /-- The number of cards. -/
  cardCount : Nat
  /-- The first card. -/
  firstCardId : Int
  /-- The directory of pages. -/
  listId : Int
  /-- The number of unused runs of bytes. -/
  freeCount : Nat
  /-- The number of unused bytes. -/
  freeSize : Nat
  /-- The block of print settings. -/
  printBlockId : Int
  /-- The scrambled password, if there is one. -/
  passwordHash : Option Nat
  /-- What users may do. -/
  userLevel : UserLevel
  /-- What the stack is protected from. -/
  protection : Protection
  /-- The versions of the program that wrote the stack. -/
  versions : ProgramVersions
  /-- The stored checksum. -/
  checksum : UInt32
  /-- The number of marked cards. -/
  markedCardCount : Nat
  /-- The window of the stack. -/
  windowRectangle : Rectangle
  /-- The screen that the window was on. -/
  screenRectangle : Rectangle
  /-- The table of fonts, if there is one. -/
  fontBlockId : Option Int
  /-- The table of text styles, if there is one. -/
  styleBlockId : Option Int
  /-- The width of cards. -/
  cardWidth : Nat
  /-- The height of cards. -/
  cardHeight : Nat
  /-- The paint patterns, eight rows of a byte each. -/
  patterns : List (List UInt8)
  /-- The unused runs of bytes. -/
  freeLocations : List FreeLocation
  /-- The script. -/
  script : RomanString
  deriving DecidableEq, Repr

namespace StackBlock

/-- Where the paint patterns begin. -/
def patternOffset : Nat := 0x2C0

/-- The number of paint patterns. -/
def patternCount : Nat := 40

/-- Where the table of unused bytes begins. -/
def freeTableOffset : Nat := 0x400

/-- Where the script begins. -/
def scriptOffset : Nat := 0x600

/-- The number of words that the checksum covers. -/
def checksumWords : Nat := 0x180

/-- A number for which zero stands for none. -/
def nonZero {α : Type} [BEq α] [OfNat α 0] (value : α) : Option α :=
  if value == 0 then none else some value

/-- A number, or the usual one in place of zero. -/
def orUsual (usual value : Nat) : Nat := if value = 0 then usual else value

/-- The paint patterns; a block too short for all of them has none. -/
def readPatterns (data : Window) : Except ReadError (List (List UInt8)) :=
  if data.length < patternOffset + 8 * patternCount then .ok []
  else Window.collect (fun index => data.bytes (patternOffset + 8 * index) 8) 0 patternCount

/-- So many entries of the table of unused bytes. -/
def readFreeLocations (data : Window) (count : Nat) : Except ReadError (List FreeLocation) :=
  Window.collect (fun index => do
    let offset := freeTableOffset + 8 * index
    return { offset := ← data.unsigned 4 offset, size := ← data.unsigned 4 (offset + 4) }) 0 count

/-- The script; a block that ends before it has none. -/
def readScript (data : Window) : Except ReadError RomanString :=
  if scriptOffset < data.length then data.text scriptOffset else .ok .empty

/-- The stack block of a window. -/
def read (data : Window) : Except ArchiveError StackBlock := do
  let format ← data.unsigned 4 0x10
  let version ← FormatVersion.ofFormat format
  let level ← data.unsigned 2 0x48
  let some userLevel := UserLevel.ofNumber? level
    | throw (.corrupt (.invalidUserLevel level))
  let freeCount ← data.unsigned 4 0x38
  let cardWidth ← data.unsigned 2 0x1BA
  let cardHeight ← data.unsigned 2 0x1B8
  return {
    version
    format
    totalSize := ← data.unsigned 4 0x14
    stackSize := ← data.unsigned 4 0x18
    backgroundCount := ← data.unsigned 4 0x24
    firstBackgroundId := ← data.signed 4 0x28
    cardCount := ← data.unsigned 4 0x2C
    firstCardId := ← data.signed 4 0x30
    listId := ← data.signed 4 0x34
    freeCount
    freeSize := ← data.unsigned 4 0x3C
    printBlockId := ← data.signed 4 0x40
    passwordHash := nonZero (← data.unsigned 4 0x44)
    userLevel
    protection := {
      cantAbort := ← data.flag 0x4C 11
      cantDelete := ← data.flag 0x4C 14
      cantModify := ← data.flag 0x4C 15
      cantPeek := ← data.flag 0x4C 10
      privateAccess := ← data.flag 0x4C 13 }
    versions := {
      atCreation := nonZero (← data.unsigned 4 0x60)
      atLastCompacting := nonZero (← data.unsigned 4 0x64)
      atLastModificationSinceCompacting := nonZero (← data.unsigned 4 0x68)
      atLastModification := nonZero (← data.unsigned 4 0x6C) }
    checksum := UInt32.ofNat (← data.unsigned 4 (if version.isTwo then 0x70 else 0x0C))
    markedCardCount := ← data.unsigned 4 0x74
    windowRectangle := ← data.rectangle 0x78
    screenRectangle := ← data.rectangle 0x80
    fontBlockId := nonZero (← data.signed 4 0x1B0)
    styleBlockId := nonZero (← data.signed 4 0x1B4)
    cardWidth := orUsual 512 cardWidth
    cardHeight := orUsual 342 cardHeight
    patterns := ← readPatterns data
    freeLocations := ← readFreeLocations data freeCount
    script := ← readScript data }

/-- The sum of the words that the checksum covers, which is zero in an undamaged block. -/
def checksumResidue (data : Window) : Except ReadError UInt32 := do
  let words ← Window.collect (fun index => data.unsigned 4 (4 * index)) 0 checksumWords
  return words.foldl (fun sum word => sum + UInt32.ofNat word) 0

/-- Whether the checksum of a block fits its contents. -/
def isChecksumValid (data : Window) : Except ReadError Bool := (· == 0) <$> checksumResidue data

/-- A paint pattern as a raster, its eight columns leftmost in rows of one word. -/
def pattern? (block : StackBlock) (index : Nat) : Option Raster :=
  block.patterns[index]?.map fun rows =>
    ⟨1, rows.length, (rows.map fun (row : UInt8) => row.toUInt32 <<< (24 : UInt32)).toArray⟩

end StackBlock
end HyperCard
