import HyperCard.Proofs.Archive.Enumeration
import HyperCard.Proofs.Bytes.Writing

/-!
# Blocks with their headers

A block that a file gives, be it looked up, remembered or listed, lies in the file, and the header
that stands where it begins has its type, its identifier and its length. The length is the one that
the header declares, also where that is less than the header itself needs: such a block is too short
for the header to be read from it. A file gives none of them exactly when no header inside the file
declares so few bytes.
-/
namespace HyperCard

/-- Whether a block begins with a header that has its type, its identifier and its length. -/
def Block.IsWhole (block : Block) : Prop :=
  BlockHeader.read block.window 0 = .ok ⟨block.window.length, block.tag, block.identifier⟩

section Cutting

variable {data inner : Window} {offset length : Nat} {header : BlockHeader}

/-- The front of a window that was cut out is cut out of the same bytes. -/
theorem Window.sub_sub (cut : data.sub offset length = .ok inner) {size : Nat}
    (room : size ≤ length) : inner.sub 0 size = data.sub offset size := by
  have fits := le_of_sub cut
  rw [sub, dif_pos fits] at cut
  obtain rfl := Except.ok.inj cut
  rw [sub, dif_pos (by rw [Nat.zero_add]; exact room), sub, dif_pos (by omega)]
  rfl

/-- A header needs its twelve bytes. -/
theorem BlockHeader.size_le_of_read (read : BlockHeader.read data offset = .ok header) :
    offset + size ≤ data.length := by
  unfold BlockHeader.read at read
  obtain ⟨_, cut, _⟩ := exists_of_bind read
  exact Window.le_of_sub cut

/-- The header of a window that was cut out with room for it is the one that stands there. -/
theorem BlockHeader.read_sub (cut : data.sub offset length = .ok inner) (room : size ≤ length) :
    read inner 0 = read data offset := by
  unfold read
  rw [Window.sub_sub cut room]

end Cutting

namespace StackFile

/-- Whether a file gives a block, whatever was asked before. -/
inductive Returns (file : StackFile) : Block → Prop
  /-- By a lookup. -/
  | found {block : Block} (earlier : List Operation) (tag : TypeCode) (identifier : Int)
    (result : ((file.findBlock tag identifier).run (file.stateAfter earlier)).1 = .ok block) :
    Returns file block
  /-- In the list of all blocks. -/
  | listed {block : Block} {blocks : List Block} (all : file.blocks = .ok blocks)
    (mem : block ∈ blocks) : Returns file block
  /-- In the list of the blocks of a type. -/
  | typed {block : Block} {blocks : List Block} (tag : TypeCode)
    (all : file.blocksOfType tag = .ok blocks) (mem : block ∈ blocks) : Returns file block

/-- Whether a block lies in a file, with its header where it begins. -/
structure Encloses (file : StackFile) (block : Block) : Prop where
  /-- The bytes are those of the file. -/
  shared : block.window.file = file.data.file
  /-- The block begins behind the start of the file. -/
  starts : file.data.start < block.window.start
  /-- It ends inside. -/
  ends : block.window.start + block.window.length ≤ file.data.start + file.data.length
  /-- The header that stands there has its type, its identifier and its length. -/
  headed : BlockHeader.read file.data (block.window.start - file.data.start) =
    .ok ⟨block.window.length, block.tag, block.identifier⟩

variable {file : StackFile} {tag : TypeCode} {identifier : Int} {record : DirectoryRecord}
  {records : List DirectoryRecord} {place : Place} {block : Block}

/-- A place that a record points at has the header that stands there. -/
theorem read_of_place? (points : file.place? record = some place) :
    0 < place.offset ∧ BlockHeader.read file.data place.offset = .ok place.header := by
  unfold place? at points
  split at points
  case isTrue inside =>
    obtain ⟨header, read, rfl⟩ := Option.map_eq_some_iff.mp points
    refine ⟨inside.1, ?_⟩
    cases stands : BlockHeader.read file.data record.offset with
    | error violation =>
      rw [stands] at read
      cases read
    | ok other =>
      rw [stands] at read
      cases read
      rfl
  case isFalse => cases points

/-- A lookup gives the block at a place that a record points at. -/
theorem exists_place_of_locate (found : file.locate tag identifier records = .ok block) :
    ∃ place ∈ records.filterMap file.place?, file.block? place = some block := by
  induction records with
  | nil => cases found
  | cons record records ih =>
    rw [locate_cons] at found
    cases chosen : (file.place? record).filter fun place =>
        record.mayHold identifier && place.hasKey tag identifier with
    | none =>
      rw [chosen] at found
      obtain ⟨place, mem, read⟩ := ih found
      obtain ⟨other, listed, points⟩ := List.mem_filterMap.mp mem
      exact ⟨place, List.mem_filterMap.mpr ⟨other, List.mem_cons_of_mem _ listed, points⟩, read⟩
    | some place =>
      rw [chosen] at found
      have points := (Option.filter_eq_some_iff.mp chosen).1
      exact ⟨place, List.mem_filterMap.mpr ⟨record, List.mem_cons_self, points⟩,
        block?_eq_some found⟩

/-- The blocks that a file gives are those at the places of its directory. -/
theorem returns_iff : file.Returns block ↔
    ∃ place ∈ file.places, file.block? place = some block := by
  have all : file.blocks = .ok (file.places.filterMap file.block?) :=
    blocksOfRecords_eq file file.records
  constructor
  · intro returns
    cases returns with
    | found earlier tag identifier result =>
      rw [run_findBlock_after] at result
      exact exists_place_of_locate result
    | listed listed mem =>
      cases all.symm.trans listed
      exact List.mem_filterMap.mp mem
    | typed tag typed mem =>
      rw [blocksOfType, all] at typed
      cases typed
      exact List.mem_filterMap.mp (List.mem_of_mem_filter mem)
  · exact fun exists_place => .listed all (List.mem_filterMap.mpr exists_place)

/-- The block at a place lies in the file, and is whole where its header leaves room for itself. -/
theorem encloses_block? (mem : place ∈ file.places) (found : file.block? place = some block) :
    file.Encloses block ∧ block.window.length = place.header.length ∧
      (block.IsWhole ↔ BlockHeader.size ≤ place.header.length) := by
  obtain ⟨record, _, points⟩ := List.mem_filterMap.mp mem
  obtain ⟨positive, stands⟩ := read_of_place? points
  obtain ⟨window, cut, read⟩ := exists_block (fits_of_block? found)
  rw [block?_eq_some read] at found
  cases found
  have length := Window.length_of_sub cut
  have start := Window.start_of_sub cut
  have fits := Window.le_of_sub cut
  have whole : (⟨window.length, place.header.tag, place.header.identifier⟩ : BlockHeader) =
      place.header := by
    rw [length]
  refine ⟨⟨Window.file_of_sub cut, ?_, ?_, ?_⟩, length, ?_, ?_⟩
  · dsimp only
    omega
  · dsimp only
    omega
  · dsimp only
    rw [whole, start, Nat.add_sub_cancel_left]
    exact stands
  · intro read
    have room := BlockHeader.size_le_of_read read
    dsimp only at room
    omega
  · intro room
    rw [Block.IsWhole]
    dsimp only
    rw [whole, BlockHeader.read_sub cut room]
    exact stands

/-- **The blocks of a file lie in it with their headers.** Each block that a file gives ends inside
the file, and the header that stands where it begins has its type, identifier and length. All of
them can be read from the blocks themselves exactly when each header declares at least its own
twelve bytes, or else more than the file has. -/
theorem returned_whole_iff (file : StackFile) :
    (∀ block, file.Returns block → file.Encloses block) ∧
      ((∀ block, file.Returns block → block.IsWhole) ↔
        ∀ place ∈ file.places, BlockHeader.size ≤ place.header.length ∨ file.RunsPast place) := by
  refine ⟨fun block returns => ?_, fun whole place mem => ?_, fun room block returns => ?_⟩
  · obtain ⟨place, mem, found⟩ := returns_iff.mp returns
    exact (encloses_block? mem found).1
  · by_cases long : file.RunsPast place
    · exact .inr long
    · obtain ⟨window, _, read⟩ := exists_block long
      have found := block?_eq_some read
      have returned := whole _ (returns_iff.mpr ⟨place, mem, found⟩)
      exact .inl ((encloses_block? mem found).2.2.mp returned)
  · obtain ⟨place, mem, found⟩ := returns_iff.mp returns
    have fits := fits_of_block? found
    exact (encloses_block? mem found).2.2.mpr ((room place mem).resolve_right fits)

end StackFile

/-- A file with one block besides the stack block and the directory, which declares four bytes. -/
def freeFile : List UInt8 :=
  [0, 0, 1, 0xC0] ++ List.replicate 15 0 ++ [10] ++ List.replicate 428 0 ++
    [0, 0, 0, 36, 0x4D, 0x41, 0x53, 0x54] ++ List.replicate 24 0 ++ [0, 0, 0x10, 7] ++
    List.replicate 28 0 ++ [0, 0, 0, 4, 0x46, 0x52, 0x45, 0x45, 0, 0, 0, 7]

/-- The file can be opened, and a record points at the block. -/
theorem exists_freeFile :
    ∃ file, StackFile.read (.ofArray freeFile.toArray) {} = .ok file ∧
      file.data.start = 0 ∧ file.data.length = 524 ∧
      ∃ place ∈ file.places, ∃ block ∈ file.block? place, block.window.length = 4 :=
  exists_of_check (by decide +kernel)

/-- The file gives the block, from which no header can be read. -/
theorem exists_returned_not_whole :
    ∃ file, StackFile.read (.ofArray freeFile.toArray) {} = .ok file ∧
      ∃ block, file.Returns block ∧ ¬block.IsWhole := by
  obtain ⟨file, read, _, _, place, mem, block, found, short⟩ := exists_freeFile
  refine ⟨file, read, block, StackFile.returns_iff.mpr ⟨place, mem, found⟩, fun whole => ?_⟩
  have room := BlockHeader.size_le_of_read whole
  rw [short] at room
  exact absurd room (by decide)

/-- The block lies in the file with its header and has the four bytes that it declares. -/
theorem returned_whole_iff_free :
    ∃ file, StackFile.read (.ofArray freeFile.toArray) {} = .ok file ∧
      (∀ block, file.Returns block → block.window.start + block.window.length ≤ 524) ∧
      ∃ block, file.Returns block ∧ file.Encloses block ∧ block.window.length = 4 := by
  obtain ⟨file, read, start, length, place, mem, block, found, short⟩ := exists_freeFile
  have encloses := (StackFile.returned_whole_iff file).1
  refine ⟨file, read, fun block returns => ?_, ?_⟩
  · have ends := (encloses block returns).ends
    rw [start, length] at ends
    omega
  · have returns := StackFile.returns_iff.mpr ⟨place, mem, found⟩
    exact ⟨block, returns, encloses block returns, short⟩

end HyperCard
