import HyperCard.Archive.File
import HyperCard.Proofs.Bytes.Contents
import HyperCard.Proofs.Picture.Filling

/-!
# Laying out stack files

How a stack file is put together from its blocks: the stack block, the directory, then all other
blocks, each filled up to a multiple of 32 bytes. The slots of the directory come in any order, with
words among them that lead to no block. In such a file every block stands where its record says.
-/
namespace HyperCard

open RasterStream (wordBytes)

/-- A block as it is stored: a header and contents, with its own length first. -/
structure StoredBlock where
  /-- All bytes. -/
  bytes : List UInt8
  /-- There is a header. -/
  header : BlockHeader.size ≤ bytes.length
  /-- The first four bytes are the number of all. -/
  declares : Window.naturalOf (bytes.take 4) = bytes.length
  /-- What comes after the block, up to a multiple of 32. -/
  filler : List UInt8
  /-- The filler reaches the multiple. -/
  filled : (bytes.length + filler.length) % 32 = 0
  deriving DecidableEq

namespace StoredBlock

/-- A block with its filler. -/
def stored (block : StoredBlock) : List UInt8 := block.bytes ++ block.filler

/-- The type of a stored block. -/
def tag (block : StoredBlock) : TypeCode :=
  ⟨UInt32.ofNat (Window.naturalOf ((block.bytes.drop 4).take 4))⟩

/-- The identifier of a stored block. -/
def identifier (block : StoredBlock) : Int :=
  Window.twosComplement 4 (Window.naturalOf ((block.bytes.drop 8).take 4))

/-- What blocks are looked for by. -/
def key (block : StoredBlock) : TypeCode × Int := (block.tag, block.identifier)

end StoredBlock

/-- A slot of the directory. -/
inductive DirectorySlot
  /-- The record of the block with an index. -/
  | block (index : Nat)
  /-- A word that leads to no block. -/
  | stray (word : UInt32)
  deriving DecidableEq, Repr

/-- The index of the block of a slot. -/
def DirectorySlot.index? : DirectorySlot → Option Nat
  | .block index => some index
  | .stray _ => none

/-- The parts of a stack file. -/
structure StackLayout where
  /-- The stack block. -/
  stack : List UInt8
  /-- The four highest bits of the length of the directory. -/
  flags : Fin 16
  /-- What the directory has between its length and its first slot. -/
  heading : Vector UInt8 28
  /-- The slots of the directory. -/
  slots : List DirectorySlot
  /-- What the directory has after its last slot. -/
  remainder : List UInt8
  /-- What comes after the directory, up to a multiple of 32. -/
  filler : List UInt8
  /-- The other blocks, as they come in the file. -/
  blocks : List StoredBlock

/-- What the items before one, the one itself and the items after it contribute. -/
theorem flatMap_split {α β : Type} (bytes : α → List β) {values : List α} {index : Nat}
    (inside : index < values.length) :
    values.flatMap bytes = (values.take index).flatMap bytes ++
      (bytes values[index] ++ (values.drop (index + 1)).flatMap bytes) := by
  have parts := congrArg (List.flatMap bytes) (List.take_append_drop index values)
  rw [List.flatMap_append, List.drop_eq_getElem_cons inside, List.flatMap_cons] at parts
  exact parts.symm

namespace StackLayout

variable (layout : StackLayout)

/-- The number of bytes of the directory. -/
def masterLength : Nat :=
  DirectoryRecord.firstOffset + 4 * layout.slots.length + layout.remainder.length

/-- Where the block with an index stands. -/
def offset (index : Nat) : Nat :=
  layout.stack.length + layout.masterLength + layout.filler.length +
    ((layout.blocks.take index).flatMap StoredBlock.stored).length

/-- The word of a slot: the lowest byte of the identifier, and the offset in units of 32. -/
def word : DirectorySlot → UInt32
  | .block index =>
    match layout.blocks[index]? with
    | some block =>
      UInt32.ofNat (256 * (layout.offset index / 32) + (block.identifier % 256).toNat)
    | none => 0
  | .stray word => word

/-- The directory. -/
def master : List UInt8 :=
  wordBytes (UInt32.ofNat (0x10000000 * layout.flags + layout.masterLength)) ++
    (layout.heading.toList ++
      ((layout.slots.map layout.word).flatMap wordBytes ++ layout.remainder))

/-- The whole file. -/
def bytes : List UInt8 :=
  layout.stack ++ layout.master ++ layout.filler ++
    layout.blocks.flatMap StoredBlock.stored

/-- The blocks of the directory, in its order. -/
def listed : List StoredBlock :=
  layout.slots.filterMap fun slot => slot.index?.bind (layout.blocks[·]?)

/-- What makes the parts fit together. -/
structure WellFormed : Prop where
  /-- The stack block has its own length first. -/
  declares : Window.naturalOf (layout.stack.take 4) = layout.stack.length
  /-- The directory begins at a multiple of 32. -/
  aligned : layout.stack.length % 32 = 0
  /-- So do the blocks after the directory. -/
  filled : (layout.masterLength + layout.filler.length) % 32 = 0
  /-- No two blocks have the same type and identifier. -/
  distinct : (layout.blocks.map StoredBlock.key).Nodup
  /-- Every block has one record. -/
  complete : (layout.slots.filterMap DirectorySlot.index?).Perm
    (List.range layout.blocks.length)
  /-- Other words lead to the start of the file, or too close to its end for a header. -/
  stray : ∀ word, .stray word ∈ layout.slots → word.toNat / 256 * 32 = 0 ∨
    layout.bytes.length < word.toNat / 256 * 32 + BlockHeader.size
  /-- The offsets of blocks have a place in their words. -/
  near : ∀ index < layout.blocks.length, layout.offset index < 0x20000000
  /-- The length of the directory leaves four bits free. -/
  short : layout.masterLength < 0x10000000
  /-- No slot comes after the last one. -/
  last : layout.remainder.length < 4

section Positions

variable {layout}

/-- The bytes of the directory are as many as it declares. -/
theorem length_master : layout.master.length = layout.masterLength := by
  have four : ∀ word, (wordBytes word).length = 4 := fun _ => rfl
  rw [master, List.length_append, four, List.length_append, Vector.length_toList,
    List.length_append, RasterStream.length_flatMap_wordBytes, List.length_map, masterLength,
    DirectoryRecord.firstOffset]
  omega

/-- Every block stands at its offset. -/
theorem holds_block {index : Nat} (inside : index < layout.blocks.length) :
    (Window.ofArray layout.bytes.toArray).Holds (layout.offset index)
      layout.blocks[index].bytes := by
  let before := layout.stack ++ layout.master ++ layout.filler ++
    (layout.blocks.take index).flatMap StoredBlock.stored
  have whole : layout.bytes = before ++ layout.blocks[index].bytes ++
      (layout.blocks[index].filler ++
        (layout.blocks.drop (index + 1)).flatMap StoredBlock.stored) := by
    rw [bytes, flatMap_split StoredBlock.stored inside]
    simp only [before, StoredBlock.stored, List.append_assoc]
  have start : before.length = layout.offset index := by
    simp only [before, List.length_append, length_master, offset]
  rw [whole, ← start]
  exact Window.holds_ofArray before

/-- The directory stands after the stack block. -/
theorem holds_master :
    (Window.ofArray layout.bytes.toArray).Holds layout.stack.length layout.master := by
  have whole : layout.bytes = layout.stack ++ layout.master ++
      (layout.filler ++ layout.blocks.flatMap StoredBlock.stored) := by
    simp only [bytes, List.append_assoc]
  rw [whole]
  exact Window.holds_ofArray layout.stack

/-- The stack block stands first. -/
theorem holds_stack : (Window.ofArray layout.bytes.toArray).Holds 0 layout.stack := by
  have whole : layout.bytes = [] ++ layout.stack ++
      (layout.master ++ layout.filler ++ layout.blocks.flatMap StoredBlock.stored) := by
    simp only [bytes, List.nil_append, List.append_assoc]
  rw [whole]
  exact Window.holds_ofArray []

/-- Blocks stand at multiples of 32, beyond the header of the directory. -/
theorem WellFormed.offset_aligned (wellFormed : layout.WellFormed) (index : Nat) :
    layout.offset index % 32 = 0 ∧ 32 ≤ layout.offset index := by
  have rows : ∀ blocks : List StoredBlock,
      (blocks.flatMap StoredBlock.stored).length % 32 = 0 := by
    intro blocks
    induction blocks with
    | nil => rfl
    | cons block blocks ih =>
      have here := block.filled
      rw [List.flatMap_cons, StoredBlock.stored, List.length_append, List.length_append]
      omega
  have earlier := rows (layout.blocks.take index)
  have aligned := wellFormed.aligned
  have filled := wellFormed.filled
  have least : 32 ≤ layout.masterLength := by
    rw [masterLength, DirectoryRecord.firstOffset]
    omega
  rw [offset]
  omega

end Positions
end StackLayout
end HyperCard
