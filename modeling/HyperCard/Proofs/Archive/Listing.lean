import HyperCard.Proofs.Archive.Caching
import HyperCard.Proofs.Archive.RoundTrip

/-!
# What directories list

A file that was opened can be opened with other settings. Its directory lists a block when some
record leads to a header with the key of the block, and every such record leads to the block. A
lookup then gives the block, whatever is remembered, and so does a request that reads it.
-/
namespace HyperCard

open RasterStream (wordBytes)

namespace StackFile

section Opening

variable {data : Window} {file : StackFile}

/-- The parts that a file is opened from. -/
structure Parts (data : Window) (file : StackFile) (stackLength masterLength : Nat)
    (stack master : Window) : Prop where
  /-- The stack block has its own length first. -/
  declaredStack : data.unsigned 4 0 = .ok stackLength
  /-- The stack block comes first. -/
  cutStack : data.sub 0 stackLength = .ok stack
  /-- The stack block is read. -/
  readable : StackBlock.read stack = .ok file.stack
  /-- The directory has its own length first. -/
  declaredMaster : data.unsigned 4 stackLength = .ok masterLength
  /-- The directory comes next. -/
  cutMaster : data.sub stackLength (masterLength % 0x10000000) = .ok master
  /-- The directory has a header. -/
  headed : ∃ header, BlockHeader.read master 0 = .ok header
  /-- The records are read. -/
  listed : DirectoryRecord.readAll master = .ok file.records
  /-- The file keeps its bytes. -/
  data : file.data = data
  /-- The stack block gives the version. -/
  version : file.version = file.stack.version

/-- A file that was opened has its parts. -/
theorem exists_parts (opened : read data {} = .ok file) :
    ∃ stackLength masterLength stack master,
      Parts data file stackLength masterLength stack master := by
  unfold read at opened
  obtain ⟨_, _, opened⟩ := exists_of_bind opened
  obtain ⟨stackLength, declaredStack, opened⟩ := exists_of_read opened
  obtain ⟨stackWindow, cutStack, opened⟩ := exists_of_read opened
  obtain ⟨stack, readable, opened⟩ := exists_of_bind opened
  obtain ⟨masterLength, declaredMaster, opened⟩ := exists_of_read opened
  obtain ⟨master, cutMaster, opened⟩ := exists_of_read opened
  obtain ⟨header, headed, opened⟩ := exists_of_read opened
  obtain ⟨records, listed, opened⟩ := exists_of_read opened
  cases opened
  exact ⟨stackLength, masterLength, stackWindow, master, declaredStack, cutStack, readable,
    declaredMaster, cutMaster, ⟨header, headed⟩, listed, rfl, rfl⟩

/-- Whether a file begins with words whose sum is zero, as many as the checksum covers. -/
def IsSound (data : Window) : Prop :=
  ∃ length stack, data.unsigned 4 0 = .ok length ∧ data.sub 0 length = .ok stack ∧
    ∃ words : List UInt32, words.length = StackBlock.checksumWords ∧
      stack.Holds 0 (words.flatMap wordBytes) ∧ words.foldl (· + ·) 0 = 0

/-- The checksum is a sum of words. -/
theorem checksumResidue_eq {stack : Window} {words : List UInt32}
    (count : words.length = StackBlock.checksumWords)
    (holds : stack.Holds 0 (words.flatMap wordBytes)) :
    StackBlock.checksumResidue stack = .ok (words.foldl (· + ·) 0) := by
  have collected := Window.collect_words holds
  simp only [count, Nat.zero_add] at collected
  rw [StackBlock.checksumResidue, collected]
  show Except.ok _ = _
  rw [List.foldl_map]
  simp only [UInt32.ofNat_toNat]

/-- A file that can be opened at all can be opened with all settings, if its checksum fits. -/
theorem read_with (opened : read data {} = .ok file) (sound : IsSound data)
    {configuration : Configuration} (valid : configuration.validate = .ok ()) :
    read data configuration = .ok { file with configuration } := by
  obtain ⟨_, _, _, _, parts⟩ := exists_parts opened
  obtain ⟨_, headed⟩ := parts.headed
  obtain ⟨_, _, declared, cut, words, count, holds, sum⟩ := sound
  cases declared.symm.trans parts.declaredStack
  cases cut.symm.trans parts.cutStack
  have checked := checksumResidue_eq count holds
  rw [sum] at checked
  have read := read_eq valid (fun _ => checked) parts.declaredStack parts.cutStack parts.readable
    parts.declaredMaster parts.cutMaster headed parts.listed
  rw [read, parts.data, parts.version]

end Opening

section Looking

variable {file : StackFile} {tag : TypeCode} {identifier : Int} {window : Window}
  {record : DirectoryRecord} {records : List DirectoryRecord} {header : BlockHeader}

/-- Whether a record leads to a header with a key. -/
structure LeadsTo (file : StackFile) (tag : TypeCode) (identifier : Int) (record : DirectoryRecord)
    (header : BlockHeader) : Prop where
  /-- The header stands there. -/
  read : file.header? record = .ok (some header)
  /-- It has the type. -/
  tag : header.tag = tag
  /-- It has the identifier. -/
  identifier : header.identifier = identifier

/-- Whether the directory leads to a block with a key, and to no other one with it. -/
structure Lists (file : StackFile) (tag : TypeCode) (identifier : Int) (window : Window) :
    Prop where
  /-- A record that may stand for the identifier leads to a header with the key. -/
  listed : ∃ record ∈ file.records, record.mayHold identifier = true ∧
    ∃ header, file.LeadsTo tag identifier record header
  /-- The block stands wherever a record leads to a header with the key. -/
  block : ∀ record ∈ file.records, ∀ header, file.LeadsTo tag identifier record header →
    file.data.sub record.offset header.length = .ok window

/-- A record leads to the same header with all settings. -/
theorem leadsTo_withSettings (configuration : Configuration) :
    LeadsTo { file with configuration } tag identifier record header ↔
      file.LeadsTo tag identifier record header := by
  constructor <;> exact fun leads => ⟨leads.read, leads.tag, leads.identifier⟩

/-- The directory lists the same blocks with all settings. -/
theorem Lists.withSettings (lists : file.Lists tag identifier window)
    (configuration : Configuration) :
    Lists { file with configuration } tag identifier window where
  listed := by
    obtain ⟨record, mem, may, header, leads⟩ := lists.listed
    exact ⟨record, mem, may, header, (leadsTo_withSettings configuration).mpr leads⟩
  block record mem header leads :=
    lists.block record mem header ((leadsTo_withSettings configuration).mp leads)

/-- A header that lies in the file can be read. -/
theorem exists_header? (file : StackFile) (record : DirectoryRecord) :
    ∃ header, file.header? record = .ok header := by
  unfold header?
  by_cases outside : record.offset = 0 ∨ file.data.length < record.offset + BlockHeader.size
  · rw [if_pos outside]
    exact ⟨none, rfl⟩
  · have cut : ∃ inner, file.data.sub record.offset BlockHeader.size = .ok inner :=
      ⟨_, dif_pos (by omega)⟩
    obtain ⟨inner, cut⟩ := cut
    have long : inner.length = 12 := Window.length_of_sub cut
    obtain ⟨length, readLength⟩ := @Window.exists_unsigned inner 0 4 (by omega)
    obtain ⟨code, readCode⟩ := @Window.exists_unsigned inner 4 4 (by omega)
    obtain ⟨number, readNumber⟩ := @Window.exists_signed inner 8 4 (by omega)
    refine ⟨some ⟨length, ⟨UInt32.ofNat code⟩, number⟩, ?_⟩
    rw [if_neg outside]
    simp only [BlockHeader.read, cut, readLength, readCode, readNumber, bind, Except.bind]
    rfl

/-- A record that leads to the key decides a lookup. -/
theorem locate_cons_eq (may : record.mayHold identifier = true)
    (leads : file.LeadsTo tag identifier record header)
    (cut : file.data.sub record.offset header.length = .ok window) :
    file.locate tag identifier (record :: records) = .ok ⟨tag, identifier, window⟩ := by
  obtain ⟨read, rfl, rfl⟩ := leads
  rw [locate_cons_of_key may read rfl, blockAt, cut]
  rfl

/-- A lookup passes over any other record. -/
theorem locate_cons_of_not
    (passes : ¬(record.mayHold identifier = true ∧
      ∃ header, file.LeadsTo tag identifier record header)) :
    file.locate tag identifier (record :: records) = file.locate tag identifier records := by
  obtain ⟨found, read⟩ := exists_header? file record
  refine locate_cons_of_other read (fun may header mem key => passes ⟨may, header, ?_⟩) records
  obtain rfl : found = some header := mem
  obtain ⟨rfl, rfl⟩ := Prod.mk.inj key
  exact ⟨read, rfl, rfl⟩

/-- A block that is listed is found, wherever its record stands among the others. -/
theorem Lists.locate_eq (lists : file.Lists tag identifier window) :
    file.locate tag identifier file.records = .ok ⟨tag, identifier, window⟩ := by
  obtain ⟨listed, block⟩ := lists
  revert listed block
  -- The records before the one of the block have another key, or lead to it as well.
  induction file.records with
  | nil => exact fun listed => nomatch listed
  | cons record records ih =>
    intro listed block
    by_cases leads : record.mayHold identifier = true ∧
        ∃ header, file.LeadsTo tag identifier record header
    · obtain ⟨may, header, leads⟩ := leads
      exact locate_cons_eq may leads (block record List.mem_cons_self header leads)
    · rw [locate_cons_of_not leads]
      apply ih
      · obtain ⟨other, mem, leadsOther⟩ := listed
        cases mem with
        | head => exact absurd leadsOther leads
        | tail _ mem => exact ⟨other, mem, leadsOther⟩
      · exact fun other mem => block other (List.mem_cons_of_mem _ mem)

end Looking

section Giving

variable {α : Type} {file : StackFile} {value : α} {tag : TypeCode} {identifier : Int}
  {window : Window} {reader : Block → Except ArchiveError α}

/-- A block that is listed is found and read. -/
theorem Lists.gives_read (lists : file.Lists tag identifier window)
    (read : reader ⟨tag, identifier, window⟩ = .ok value) :
    file.Gives (file.findBlock tag identifier >>= fun block => liftM (reader block))
      (.ok value) := by
  have found := @gives_findBlock file tag identifier
  rw [lists.locate_eq] at found
  apply found.bind
  rw [read]
  exact gives_result (.ok value)

/-- A check that holds changes nothing. -/
theorem Lists.gives_checked (lists : file.Lists tag identifier window)
    (read : reader ⟨tag, identifier, window⟩ = .ok value) {broken : α → Bool}
    {error : α → ArchiveError} (sound : broken value = false) :
    file.Gives (do
      let block ← file.findBlock tag identifier
      let value ← reader block
      if broken value then throw (error value)
      return value) (.ok value) := by
  have found := @gives_findBlock file tag identifier
  rw [lists.locate_eq] at found
  apply found.bind
  rw [read]
  apply (gives_result (.ok value)).bind
  rw [sound]
  exact gives_result (.ok value)

end Giving

end StackFile

namespace StackLayout

variable {layout : StackLayout} {file : StackFile} {index : Nat}

/-- Every block has a slot. -/
theorem WellFormed.mem_slots (wellFormed : layout.WellFormed)
    (inside : index < layout.blocks.length) : .block index ∈ layout.slots := by
  have listed := wellFormed.complete.mem_iff.mpr (List.mem_range.mpr inside)
  obtain ⟨slot, mem, same⟩ := List.mem_filterMap.mp listed
  cases slot with
  | block other =>
    cases same
    exact mem
  | stray word => cases same

/-- Blocks with the same key are at the same place. -/
theorem WellFormed.eq_of_key (wellFormed : layout.WellFormed) {place : Nat}
    (within : place < layout.blocks.length) (inside : index < layout.blocks.length)
    (key : layout.blocks[place].key = layout.blocks[index].key) : place = index := by
  have least : place < (layout.blocks.map StoredBlock.key).length := by rwa [List.length_map]
  have also : index < (layout.blocks.map StoredBlock.key).length := by rwa [List.length_map]
  have same : (layout.blocks.map StoredBlock.key)[place] =
      (layout.blocks.map StoredBlock.key)[index] := by
    rw [List.getElem_map, List.getElem_map, key]
  exact wellFormed.distinct.getElem_inj_iff.mp same

/-- A record that leads to a header is that of a block. -/
theorem WellFormed.exists_place (wellFormed : layout.WellFormed) (opened : layout.Opened file)
    {record : DirectoryRecord} (listed : record ∈ file.records) {header : BlockHeader}
    (read : file.header? record = .ok (some header)) :
    ∃ place, ∃ within : place < layout.blocks.length, record.offset = layout.offset place ∧
      header = layout.blocks[place].blockHeader := by
  rw [opened.records] at listed
  obtain ⟨slot, mem, same⟩ := List.mem_filterMap.mp listed
  have leads := wellFormed.leads opened mem
  cases slot with
  | stray word => cases (leads.stray rfl record same).symm.trans read
  | block place =>
    have within : place < layout.blocks.length :=
      List.mem_range.mp (wellFormed.complete.mem_iff.mp (List.mem_filterMap.mpr ⟨_, mem, rfl⟩))
    obtain ⟨_, _, again, _, readAgain, _, _⟩ := leads.block _ (List.getElem?_eq_getElem within)
    cases again.symm.trans same
    cases readAgain.symm.trans read
    cases (wellFormed.record_block within).symm.trans same
    exact ⟨place, within, rfl, rfl⟩

/-- The directory of a file that was laid out lists each of its blocks. -/
theorem WellFormed.lists (wellFormed : layout.WellFormed) (opened : layout.Opened file)
    (inside : index < layout.blocks.length) {tag : TypeCode} {identifier : Int}
    (key : layout.blocks[index].key = (tag, identifier)) :
    ∃ window, window.Holds 0 layout.blocks[index].bytes ∧ file.Lists tag identifier window := by
  obtain ⟨rfl, rfl⟩ := Prod.mk.inj key
  have mem := wellFormed.mem_slots inside
  have place := wellFormed.record_block inside
  obtain ⟨record, found, same, low, header, read, _⟩ :=
    (wellFormed.leads opened mem).block _ (List.getElem?_eq_getElem inside)
  cases same.symm.trans place
  unfold StackFile.blockAt at read
  obtain ⟨window, cut, _⟩ := exists_of_read read
  have held : window.Holds 0 layout.blocks[index].bytes :=
    (holds_block inside).sub (opened.data ▸ cut) (by rw [Nat.zero_add]; rfl)
  refine ⟨window, held, ⟨_, ?_, ?_, _, header, rfl, rfl⟩, ?_⟩
  · rw [opened.records]
    exact List.mem_filterMap.mpr ⟨_, mem, place⟩
  · rw [DirectoryRecord.mayHold, low, beq_self_eq_true]
  · intro other listed otherHeader leads
    obtain ⟨otherIndex, within, offset, rfl⟩ := wellFormed.exists_place opened listed leads.read
    obtain rfl := wellFormed.eq_of_key within inside (Prod.ext leads.tag leads.identifier)
    rw [offset]
    exact cut

end StackLayout

end HyperCard
