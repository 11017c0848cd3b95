import HyperCard.Archive.Error

/-!
# The directory of blocks

The master block holds one word for each block of the file: the lowest byte of the block's
identifier and its offset in units of 32 bytes. A zero word is an empty slot. As a word keeps
only one byte of the identifier, several may fit one key, and the header of the block decides.
-/
namespace HyperCard

/-- Where a block may be found. -/
structure DirectoryRecord where
  /-- The lowest byte of the block's identifier. -/
  lastByte : Nat
  /-- The offset of the block in the file. -/
  offset : Nat
  deriving DecidableEq, Repr

namespace DirectoryRecord

/-- The record of a word, of which an empty slot has none. -/
def ofWord (word : Nat) : Option DirectoryRecord :=
  if word = 0 then none else some ⟨word % 256, word / 256 * 32⟩

/-- Whether the record may stand for a block with the identifier. -/
def mayHold (record : DirectoryRecord) (identifier : Int) : Bool :=
  (record.lastByte : Int) == identifier % 256

/-- Where the words begin in the master block. -/
def firstOffset : Nat := 0x20

/-- The records of a master block in order; bytes after the last whole word count for nothing. -/
def readAll (master : Window) : Except ReadError (List DirectoryRecord) := do
  let words ← Window.collect (fun index => master.unsigned 4 (firstOffset + 4 * index)) 0
    ((master.length - firstOffset) / 4)
  return words.filterMap ofWord

end DirectoryRecord
end HyperCard
