import HyperCard.Proofs.Archive.Layout
import HyperCard.Proofs.Archive.Request
import Mathlib.Data.List.Nodup

/-!
# Reading stack files back

A file that was laid out from a stack block, a directory and other blocks is opened, its blocks are
those of the directory in their order, and a lookup gives the block with the key, whatever was
looked up before: each remembered block is one of the file.
-/
namespace HyperCard

open RasterStream (wordBytes)

/-- The header at the start of bytes that a window holds. -/
theorem BlockHeader.read_eq {data : Window} {offset : Nat} {bytes : List UInt8}
    (holds : data.Holds offset bytes) (enough : size ≤ bytes.length) :
    read data offset = .ok {
      length := Window.naturalOf (bytes.take 4)
      tag := ⟨UInt32.ofNat (Window.naturalOf ((bytes.drop 4).take 4))⟩
      identifier := Window.twosComplement 4 (Window.naturalOf ((bytes.drop 8).take 4)) } := by
  rw [size] at enough
  have first := holds.part 0 12
  have long : ((bytes.drop 0).take 12).length = 12 := by
    rw [List.length_take, List.length_drop]
    omega
  obtain ⟨window, cut, _⟩ := first.exists_sub fun none => by rw [none] at long; cases long
  rw [long, Nat.add_zero] at cut
  have number : ∀ place, place + 4 ≤ 12 →
      window.unsigned 4 place = .ok (Window.naturalOf ((bytes.drop place).take 4)) := by
    intro place inside
    have four : ((bytes.drop place).take 4).length = 4 := by
      rw [List.length_take, List.length_drop]
      omega
    have here := (holds.part place 4).sub cut (by omega)
    have read := here.unsigned_eq fun none => by rw [none] at four; cases four
    rw [four] at read
    exact read
  rw [read, size, cut]
  simp only [bind, Except.bind, number 0 (by decide), number 4 (by decide), Window.signed,
    number 8 (by decide), Functor.map, Except.map, List.drop_zero]
  rfl

/-- Words that stand one after the other are read as their numbers. -/
theorem Window.collect_words {window : Window} {first : Nat} {words : List UInt32}
    (holds : window.Holds first (words.flatMap wordBytes)) :
    collect (fun index => window.unsigned 4 (first + 4 * index)) 0 words.length =
      .ok (words.map UInt32.toNat) := by
  apply collect_map
  intro index inside
  rw [flatMap_split wordBytes inside] at holds
  have here := holds.append.2.append.1
  rw [RasterStream.length_flatMap_wordBytes, List.length_take,
    Nat.min_eq_left (Nat.le_of_lt inside)] at here
  exact Decoder.unsigned_eq here

/-- The records of a directory are those of its words. -/
theorem DirectoryRecord.readAll_eq {master : Window} {words : List UInt32}
    (holds : master.Holds firstOffset (words.flatMap wordBytes))
    (count : (master.length - firstOffset) / 4 = words.length) :
    readAll master = .ok (words.filterMap fun word => ofWord word.toNat) := by
  rw [readAll, count, Window.collect_words holds]
  change Except.ok (List.filterMap ofWord (words.map UInt32.toNat)) = _
  rw [List.filterMap_map]
  rfl

/-- A stack block that can be read has a length and more. -/
theorem StackBlock.le_length_of_read {data : Window} {stack : StackBlock}
    (readable : read data = .ok stack) : 0x14 ≤ data.length := by
  by_cases fits : 0x10 + 4 ≤ data.length
  · exact fits
  · have failed : data.unsigned 4 0x10 = .error (.outOfBounds 0x10 4 data.length) := by
      rw [Window.unsigned, Window.bytes, if_neg fits]
      rfl
    rw [read, failed] at readable
    cases readable

/-- A file is opened once its two first blocks can be read, and the checksum fits if it counts. -/
theorem StackFile.read_eq {data stackWindow master : Window} {configuration : Configuration}
    {stackLength masterLength : Nat} {stack : StackBlock} {header : BlockHeader}
    {records : List DirectoryRecord} (valid : configuration.validate = .ok ())
    (checked : configuration.verifyChecksums = true →
      StackBlock.checksumResidue stackWindow = .ok 0)
    (declaredStack : data.unsigned 4 0 = .ok stackLength)
    (cutStack : data.sub 0 stackLength = .ok stackWindow)
    (readable : StackBlock.read stackWindow = .ok stack)
    (declaredMaster : data.unsigned 4 stackLength = .ok masterLength)
    (cutMaster : data.sub stackLength (masterLength % 0x10000000) = .ok master)
    (headed : BlockHeader.read master 0 = .ok header)
    (listed : DirectoryRecord.readAll master = .ok records) :
    read data configuration = .ok ⟨data, stack.version, stack, records, configuration⟩ := by
  rw [read, valid, declaredStack]
  simp only [bind, Except.bind, liftM_ok, cutStack, readable, declaredMaster, cutMaster, headed,
    listed]
  by_cases counts : (configuration.verifyChecksums && stack.version.isTwo) = true
  · rw [if_pos counts, checked (Bool.and_eq_true _ _ ▸ counts).1]
    rfl
  · rw [if_neg counts]
    rfl

/-- The header of a stored block. -/
def StoredBlock.blockHeader (block : StoredBlock) : BlockHeader :=
  ⟨block.bytes.length, block.tag, block.identifier⟩

/-- Whether a block that was read has the key and the bytes of a stored one. -/
structure StoredBlock.IsRead (block : StoredBlock) (found : Block) : Prop where
  /-- The type is the same. -/
  tag : found.tag = block.tag
  /-- The identifier is the same. -/
  identifier : found.identifier = block.identifier
  /-- The bytes are the same. -/
  bytes : found.window.toList = block.bytes

/-- The state of a file after some lookups, whatever they gave. -/
def StackFile.afterLookups (file : StackFile) (keys : List (TypeCode × Int)) : Cache :=
  keys.foldl (fun cache key => ((file.findBlock key.1 key.2).run cache).2) []

namespace StackLayout

variable {layout : StackLayout} {file : StackFile} {slot : DirectorySlot}
  {slots : List DirectorySlot} {tag : TypeCode} {identifier : Int}

/-- The record of a slot. -/
def record? (layout : StackLayout) (slot : DirectorySlot) : Option DirectoryRecord :=
  DirectoryRecord.ofWord (layout.word slot).toNat

/-- The block of a slot. -/
def block? (layout : StackLayout) (slot : DirectorySlot) : Option StoredBlock :=
  slot.index?.bind (layout.blocks[·]?)

/-- Whether an opened file has the bytes and the records of a layout. -/
structure Opened (layout : StackLayout) (file : StackFile) : Prop where
  /-- The bytes are those of the layout. -/
  data : file.data = .ofArray layout.bytes.toArray
  /-- The records are those of the slots. -/
  records : file.records = layout.slots.filterMap layout.record?

/-- Whether the record of a slot leads to its block. -/
structure Leads (layout : StackLayout) (file : StackFile) (slot : DirectorySlot) : Prop where
  /-- A block has a record that may stand for it, and can be read there. -/
  block : ∀ block, layout.block? slot = some block → ∃ record found,
    layout.record? slot = some record ∧ (record.lastByte : Int) = block.identifier % 256 ∧
      file.header? record = .ok (some block.blockHeader) ∧
      file.blockAt record.offset block.blockHeader = .ok found ∧ block.IsRead found
  /-- Where there is no block, none is found. -/
  stray : layout.block? slot = none → ∀ record, layout.record? slot = some record →
    file.header? record = .ok none

/-- The word of a block keeps where it stands and the lowest byte of its identifier. -/
theorem WellFormed.record_block (wellFormed : layout.WellFormed) {index : Nat}
    (inside : index < layout.blocks.length) :
    layout.record? (.block index) =
      some ⟨(layout.blocks[index].identifier % 256).toNat, layout.offset index⟩ := by
  have aligned := wellFormed.offset_aligned index
  have near := wellFormed.near index inside
  have low : (layout.blocks[index].identifier % 256).toNat < 256 := by omega
  have word : (layout.word (.block index)).toNat =
      256 * (layout.offset index / 32) + (layout.blocks[index].identifier % 256).toNat := by
    rw [StackLayout.word, List.getElem?_eq_getElem inside, UInt32.toNat_ofNat']
    exact Nat.mod_eq_of_lt (by omega)
  rw [record?, word, DirectoryRecord.ofWord, if_neg (by omega)]
  congr 2 <;> omega

/-- The slot of a block leads to it. -/
theorem WellFormed.leads_block (wellFormed : layout.WellFormed) (opened : layout.Opened file)
    {index : Nat} (inside : index < layout.blocks.length) :
    layout.Leads file (.block index) := by
  have here : layout.block? (.block index) = some layout.blocks[index] :=
    List.getElem?_eq_getElem inside
  refine ⟨fun block same => ?_, fun none => by rw [here] at none; cases none⟩
  obtain rfl := Option.some.inj (here.symm.trans same)
  have enough := layout.blocks[index].header
  have holds := holds_block inside
  have header := BlockHeader.read_eq holds enough
  rw [layout.blocks[index].declares] at header
  have nonempty : layout.blocks[index].bytes ≠ [] := by
    intro empty
    rw [empty] at enough
    exact absurd enough (by decide)
  obtain ⟨window, cut, bytes⟩ := holds.exists_sub nonempty
  have aligned := wellFormed.offset_aligned index
  have fits := Window.le_of_sub cut
  have within : ¬(layout.offset index = 0 ∨
      (Window.ofArray layout.bytes.toArray).length < layout.offset index + BlockHeader.size) := by
    omega
  refine ⟨_, ⟨_, _, window⟩, wellFormed.record_block inside,
    Int.toNat_of_nonneg (Int.emod_nonneg _ (by decide)), ?_, ?_, rfl, rfl, bytes⟩
  · rw [StackFile.header?, opened.data, if_neg within, header]
    rfl
  · rw [StackFile.blockAt, opened.data, StoredBlock.blockHeader, cut]
    rfl

/-- A stray word leads nowhere. -/
theorem WellFormed.leads_stray (wellFormed : layout.WellFormed) (opened : layout.Opened file)
    {word : UInt32} (mem : .stray word ∈ layout.slots) : layout.Leads file (.stray word) := by
  refine ⟨fun block same => (by cases same), fun _ record same => ?_⟩
  have outside := wellFormed.stray word mem
  rw [record?, DirectoryRecord.ofWord, StackLayout.word] at same
  by_cases zero : word.toNat = 0
  · rw [if_pos zero] at same
    cases same
  · rw [if_neg zero] at same
    obtain rfl := Option.some.inj same
    rw [StackFile.header?, opened.data]
    exact if_pos outside

/-- Every slot leads where it should. -/
theorem WellFormed.leads (wellFormed : layout.WellFormed) (opened : layout.Opened file)
    (mem : slot ∈ layout.slots) : layout.Leads file slot := by
  cases slot with
  | block index =>
    have listed : index ∈ layout.slots.filterMap DirectorySlot.index? :=
      List.mem_filterMap.mpr ⟨_, mem, rfl⟩
    exact wellFormed.leads_block opened (List.mem_range.mp (wellFormed.complete.mem_iff.mp listed))
  | stray word => exact wellFormed.leads_stray opened mem

/-- All blocks are read, in the order of their slots. -/
theorem exists_blocksOfRecords (leads : ∀ slot ∈ slots, layout.Leads file slot) :
    ∃ found, file.blocksOfRecords (slots.filterMap layout.record?) = .ok found ∧
      List.Forall₂ StoredBlock.IsRead (slots.filterMap layout.block?) found := by
  induction slots with
  | nil => exact ⟨[], rfl, .nil⟩
  | cons slot slots ih =>
    obtain ⟨later, run, agree⟩ := ih fun other mem => leads other (List.mem_cons_of_mem _ mem)
    have here := leads slot List.mem_cons_self
    cases present : layout.block? slot with
    | none =>
      rw [List.filterMap_cons_none present]
      cases word : layout.record? slot with
      | none =>
        rw [List.filterMap_cons_none word]
        exact ⟨later, run, agree⟩
      | some record =>
        rw [List.filterMap_cons_some word]
        refine ⟨later, ?_, agree⟩
        rw [StackFile.blocksOfRecords, here.stray present record word]
        exact run
    | some block =>
      obtain ⟨record, found, word, _, header, read, same⟩ := here.block block present
      rw [List.filterMap_cons_some present, List.filterMap_cons_some word]
      refine ⟨found :: later, ?_, .cons same agree⟩
      rw [StackFile.blocksOfRecords, header]
      simp only [bind, Except.bind, read, run]
      rfl

/-- The result of a lookup among some blocks: one with the key, or that there is none. -/
inductive Answers (blocks : List StoredBlock) (tag : TypeCode) (identifier : Int) :
    Except ArchiveError Block → Prop
  /-- A block with the key is found. -/
  | found {block : StoredBlock} {found : Block} (mem : block ∈ blocks)
    (key : block.key = (tag, identifier)) (read : block.IsRead found) :
    Answers blocks tag identifier (.ok found)
  /-- Without such a block, the key is reported. -/
  | missing (none : ∀ block ∈ blocks, block.key ≠ (tag, identifier)) :
    Answers blocks tag identifier (.error (.blockNotFound tag identifier))

/-- The order of the blocks does not matter. -/
theorem Answers.perm {blocks others : List StoredBlock} {result : Except ArchiveError Block}
    (answers : Answers blocks tag identifier result) (same : blocks.Perm others) :
    Answers others tag identifier result := by
  cases answers with
  | found mem key read => exact .found (same.mem_iff.mp mem) key read
  | missing none => exact .missing fun block mem => none block (same.mem_iff.mpr mem)

/-- A block with another key changes no answer. -/
theorem Answers.cons {blocks : List StoredBlock} {block : StoredBlock}
    {result : Except ArchiveError Block} (answers : Answers blocks tag identifier result)
    (differs : block.key ≠ (tag, identifier)) :
    Answers (block :: blocks) tag identifier result := by
  cases answers with
  | found mem key read => exact .found (List.mem_cons_of_mem _ mem) key read
  | missing none => exact .missing (List.forall_mem_cons.mpr ⟨differs, none⟩)

/-- A lookup among the records of some slots is answered from the blocks of those slots. -/
theorem answers_locate (leads : ∀ slot ∈ slots, layout.Leads file slot) (tag : TypeCode)
    (identifier : Int) :
    Answers (slots.filterMap layout.block?) tag identifier
      (file.locate tag identifier (slots.filterMap layout.record?)) := by
  induction slots with
  | nil => exact .missing fun _ mem => absurd mem List.not_mem_nil
  | cons slot slots ih =>
    have later := ih fun other mem => leads other (List.mem_cons_of_mem _ mem)
    have here := leads slot List.mem_cons_self
    cases present : layout.block? slot with
    | none =>
      rw [List.filterMap_cons_none present]
      cases word : layout.record? slot with
      | none =>
        rw [List.filterMap_cons_none word]
        exact later
      | some record =>
        rw [List.filterMap_cons_some word,
          StackFile.locate_cons_of_other (here.stray present record word) nofun]
        exact later
    | some block =>
      obtain ⟨record, found, word, low, header, read, same⟩ := here.block block present
      rw [List.filterMap_cons_some present, List.filterMap_cons_some word]
      by_cases equal : block.key = (tag, identifier)
      · have may : record.mayHold identifier = true := by
          rw [← (Prod.mk.inj equal).2, DirectoryRecord.mayHold, low, beq_self_eq_true]
        rw [StackFile.locate_cons_of_key may header equal, read]
        exact .found List.mem_cons_self equal same
      · have differs : ∀ header ∈ some block.blockHeader,
            (header.tag, header.identifier) ≠ (tag, identifier) := by
          rintro _ ⟨⟩
          exact equal
        rw [StackFile.locate_cons_of_other header fun _ => differs]
        exact later.cons equal

/-- The elements of a list are those at all its places. -/
theorem filterMap_range {α : Type} (values : List α) :
    (List.range values.length).filterMap (values[·]?) = values := by
  induction values with
  | nil => rfl
  | cons value values ih =>
    have later : ((List.range values.length).map Nat.succ).filterMap ((value :: values)[·]?) =
        values := by
      rw [List.filterMap_map]
      exact ih
    rw [List.length_cons, List.range_succ_eq_map, List.filterMap_cons]
    exact congrArg (value :: ·) later

/-- The directory lists all blocks. -/
theorem WellFormed.listed_perm (wellFormed : layout.WellFormed) :
    layout.listed.Perm layout.blocks := by
  have same := wellFormed.complete.filterMap (layout.blocks[·]?)
  rw [List.filterMap_filterMap] at same
  rw [filterMap_range] at same
  exact same

/-- Whether all remembered blocks are blocks of the file. -/
def Remembers (layout : StackLayout) (cache : Cache) : Prop :=
  ∀ found ∈ cache, ∃ block ∈ layout.blocks, block.IsRead found

/-- A lookup is answered from what is remembered as well, and remembers a block of the file. -/
theorem WellFormed.findBlock (wellFormed : layout.WellFormed) (opened : layout.Opened file)
    (tag : TypeCode) (identifier : Int) {cache : Cache} (remembers : layout.Remembers cache) :
    Answers layout.blocks tag identifier ((file.findBlock tag identifier).run cache).1 ∧
      layout.Remembers ((file.findBlock tag identifier).run cache).2 := by
  have located : Answers layout.blocks tag identifier
      (file.locate tag identifier file.records) := by
    rw [opened.records]
    exact (answers_locate (fun _ mem => wellFormed.leads opened mem) tag identifier).perm
      wellFormed.listed_perm
  by_cases caches : file.configuration.cacheBlocks
  · cases known : cache.find? tag identifier with
    | some found =>
      have key := List.find?_some known
      rw [Bool.and_eq_true, beq_iff_eq, beq_iff_eq] at key
      obtain ⟨block, mem, read⟩ := remembers found (List.mem_of_find?_eq_some known)
      have same : block.key = (tag, identifier) :=
        Prod.ext (read.tag.symm.trans key.1) (read.identifier.symm.trans key.2)
      rw [StackFile.run_findBlock_known caches known]
      exact ⟨.found mem same read, remembers⟩
    | none =>
      cases result : file.locate tag identifier file.records with
      | ok block =>
        rw [StackFile.run_findBlock_found caches known result]
        rw [result] at located
        cases located with
        | found mem key read =>
          refine ⟨.found mem key read, fun other also => ?_⟩
          obtain rfl | also := List.mem_cons.mp also
          · exact ⟨_, mem, read⟩
          · exact remembers other also
      | error failure =>
        rw [StackFile.run_findBlock_missing caches known result]
        rw [result] at located
        exact ⟨located, remembers⟩
  · rw [StackFile.run_findBlock_direct caches]
    exact ⟨located, remembers⟩

/-- Lookups remember blocks of the file only. -/
theorem WellFormed.remembers_afterLookups (wellFormed : layout.WellFormed)
    (opened : layout.Opened file) (keys : List (TypeCode × Int)) :
    layout.Remembers (file.afterLookups keys) := by
  have run : ∀ cache, layout.Remembers cache → layout.Remembers
      (keys.foldl (fun cache key => ((file.findBlock key.1 key.2).run cache).2) cache) := by
    induction keys with
    | nil => exact fun _ remembers => remembers
    | cons key keys ih =>
      exact fun cache remembers => ih _ (wellFormed.findBlock opened key.1 key.2 remembers).2
  exact run [] fun _ mem => absurd mem List.not_mem_nil

/-- A file begins with the length of its stack block. -/
theorem WellFormed.unsigned_stack (wellFormed : layout.WellFormed)
    (long : 4 ≤ layout.stack.length) :
    (Window.ofArray layout.bytes.toArray).unsigned 4 0 = .ok layout.stack.length := by
  have first := (@holds_stack layout).part 0 4
  have four : (layout.stack.take 4).length = 4 := by
    rw [List.length_take]
    omega
  have number := first.unsigned_eq (List.ne_nil_of_length_pos (by rw [List.drop_zero]; omega))
  rw [List.drop_zero, four, wellFormed.declares] at number
  exact number

/-- The directory begins with its flags and its length. -/
theorem WellFormed.unsigned_master (wellFormed : layout.WellFormed) :
    (Window.ofArray layout.bytes.toArray).unsigned 4 layout.stack.length =
      .ok (0x10000000 * layout.flags + layout.masterLength) := by
  have number := Decoder.unsigned_eq (@holds_master layout).append.1
  have short := wellFormed.short
  have flags := layout.flags.isLt
  rw [number, UInt32.toNat_ofNat', Nat.mod_eq_of_lt (by omega)]

/-- The records of the directory are those of the slots. -/
theorem WellFormed.readAll_eq (wellFormed : layout.WellFormed) {master : Window}
    (held : master.Holds 0 layout.master) (whole : master.length = layout.master.length) :
    DirectoryRecord.readAll master = .ok (layout.slots.filterMap layout.record?) := by
  have words := held.append.2.append.2.append.1
  have count : (master.length - DirectoryRecord.firstOffset) / 4 =
      (layout.slots.map layout.word).length := by
    have last := wellFormed.last
    rw [whole, length_master, masterLength, List.length_map]
    omega
  rw [Vector.length_toList] at words
  have listed := DirectoryRecord.readAll_eq words count
  rw [List.filterMap_map] at listed
  exact listed

/-- The file of a layout is opened, with the records of its slots. -/
theorem WellFormed.exists_read (wellFormed : layout.WellFormed) {stack : StackBlock}
    (readable : StackBlock.read (.ofArray layout.stack.toArray) = .ok stack)
    {configuration : Configuration} (valid : configuration.validate = .ok ())
    (unverified : configuration.verifyChecksums = false) :
    ∃ file, StackFile.read (.ofArray layout.bytes.toArray) configuration = .ok file ∧
      file.stack = stack ∧ layout.Opened file := by
  have long : 0x14 ≤ layout.stack.length := StackBlock.le_length_of_read readable
  have least : 32 ≤ layout.master.length := by
    rw [length_master, masterLength, DirectoryRecord.firstOffset]
    omega
  have masked : (0x10000000 * layout.flags + layout.masterLength) % 0x10000000 =
      layout.master.length := by
    have short := wellFormed.short
    rw [length_master]
    omega
  obtain ⟨stackWindow, cutStack, _⟩ :=
    (@holds_stack layout).exists_sub (List.ne_nil_of_length_pos (by omega))
  obtain ⟨master, cutMaster, _⟩ :=
    (@holds_master layout).exists_sub (List.ne_nil_of_length_pos (by omega))
  have held : master.Holds 0 layout.master :=
    (@holds_master layout).sub cutMaster (by omega)
  have headed := BlockHeader.read_eq held (show 12 ≤ layout.master.length by omega)
  have listed := wellFormed.readAll_eq held (Window.length_of_sub cutMaster)
  rw [← masked] at cutMaster
  exact ⟨_, StackFile.read_eq valid (fun verifies => absurd (unverified.symm.trans verifies)
    Bool.false_ne_true) (wellFormed.unsigned_stack (by omega)) cutStack
    ((holds_stack.alike cutStack).read_stack.trans readable) wellFormed.unsigned_master cutMaster
    headed listed, rfl, rfl, rfl⟩

/-- A file is opened once it is laid out: its blocks are those of the directory, in its order, and
after any lookups a further one gives the block with the key, or reports that there is none. -/
theorem reads_back (wellFormed : layout.WellFormed) {stack : StackBlock}
    (readable : StackBlock.read (.ofArray layout.stack.toArray) = .ok stack)
    {configuration : Configuration} (valid : configuration.validate = .ok ())
    (unverified : configuration.verifyChecksums = false) :
    ∃ file, StackFile.read (.ofArray layout.bytes.toArray) configuration = .ok file ∧
      file.stack = stack ∧
      (∃ found, file.blocks = .ok found ∧
        List.Forall₂ StoredBlock.IsRead layout.listed found) ∧
      ∀ earlier tag identifier,
        (∀ block ∈ layout.listed, block.key = (tag, identifier) → ∃ found,
          ((file.findBlock tag identifier).run (file.afterLookups earlier)).1 = .ok found ∧
            block.IsRead found) ∧
        ((∀ block ∈ layout.listed, block.key ≠ (tag, identifier)) →
          ((file.findBlock tag identifier).run (file.afterLookups earlier)).1 =
            .error (.blockNotFound tag identifier)) := by
  obtain ⟨file, run, same, opened⟩ := wellFormed.exists_read readable valid unverified
  have found := exists_blocksOfRecords fun _ mem => wellFormed.leads opened mem
  rw [← opened.records] at found
  refine ⟨file, run, same, found, fun earlier tag identifier => ?_⟩
  have order := wellFormed.listed_perm
  have answers := (wellFormed.findBlock opened tag identifier
    (wellFormed.remembers_afterLookups opened earlier)).1
  generalize ((file.findBlock tag identifier).run (file.afterLookups earlier)).1 = result
    at answers
  cases answers with
  | found mem key read =>
    refine ⟨fun block listed same => ?_, fun none => absurd key (none _ (order.mem_iff.mpr mem))⟩
    obtain rfl := List.inj_on_of_nodup_map wellFormed.distinct mem (order.mem_iff.mp listed)
      (key.trans same.symm)
    exact ⟨_, rfl, read⟩
  | missing none =>
    exact ⟨fun block listed key => absurd key (none block (order.mem_iff.mp listed)), fun _ => rfl⟩

end StackLayout

/-- A layout with three blocks whose identifiers end in one byte, and with stray words. -/
def collidingLayout : StackLayout where
  stack := [0, 0, 1, 0xC0] ++ List.replicate 15 0 ++ [10] ++ List.replicate 428 0
  flags := 9
  heading := ⟨#[0x4D, 0x41, 0x53, 0x54, 0xFF, 0xFF, 0xFF, 0xFF, 0, 0, 0, 0, 0, 0, 0, 0, 0, 0, 0, 0,
    0, 0, 0, 0, 0, 0, 0, 0], rfl⟩
  slots := [.stray 0, .block 2, .stray 0xFFFFFF01, .block 0, .stray 5, .block 1]
  remainder := [7]
  filler := [0, 0, 0, 0, 0, 0, 0]
  blocks := [
    { bytes := [0, 0, 0, 14, 0x43, 0x41, 0x52, 0x44, 0, 0, 1, 1, 0xAB, 0xCD]
      header := by decide
      declares := by decide
      filler := List.replicate 18 0
      filled := by decide },
    { bytes := [0, 0, 0, 12, 0x42, 0x4B, 0x47, 0x44, 0, 0, 1, 1]
      header := by decide
      declares := by decide
      filler := List.replicate 20 0
      filled := by decide },
    { bytes := [0, 0, 0, 13, 0x43, 0x41, 0x52, 0x44, 0xFF, 0xFF, 0xFF, 1, 0xEF]
      header := by decide
      declares := by decide
      filler := List.replicate 19 0
      filled := by decide }]

/-- The layout with colliding identifiers is well formed. -/
theorem collidingLayout_wellFormed : collidingLayout.WellFormed where
  declares := by decide +kernel
  aligned := by decide +kernel
  filled := by decide +kernel
  distinct := by decide +kernel
  complete := by decide +kernel
  stray := by
    intro word mem
    have slots : DirectorySlot.stray word ∈ [DirectorySlot.stray 0, .block 2, .stray 0xFFFFFF01,
      .block 0, .stray 5, .block 1] := mem
    obtain rfl | rfl | rfl : word = 0 ∨ word = 0xFFFFFF01 ∨ word = 5 := by simpa using slots
    · exact .inl rfl
    · exact .inr (by decide +kernel)
    · exact .inl rfl
  near := by decide +kernel
  short := by decide +kernel
  last := by decide +kernel

/-- The three blocks are found by their own keys, whatever was looked up before, and no other. -/
theorem reads_back_colliding :
    ∃ file, StackFile.read (.ofArray collidingLayout.bytes.toArray) {} = .ok file ∧
      (∃ found, file.blocks = .ok found ∧
        List.Forall₂ StoredBlock.IsRead collidingLayout.listed found) ∧
      collidingLayout.listed.map StoredBlock.key =
        [(.card, -255), (.card, 257), (.background, 257)] ∧
      ∀ earlier,
        (∃ found, ((file.findBlock .card (-255)).run (file.afterLookups earlier)).1 = .ok found ∧
          found.window.toList =
            [0, 0, 0, 13, 0x43, 0x41, 0x52, 0x44, 0xFF, 0xFF, 0xFF, 1, 0xEF]) ∧
        ((file.findBlock .card 1).run (file.afterLookups earlier)).1 =
          .error (.blockNotFound .card 1) := by
  have readable : ∃ stack,
      StackBlock.read (.ofArray collidingLayout.stack.toArray) = .ok stack := by
    have success : (StackBlock.read (.ofArray collidingLayout.stack.toArray)).toBool = true := by
      decide +kernel
    cases result : StackBlock.read (.ofArray collidingLayout.stack.toArray) with
    | ok stack => exact ⟨stack, rfl⟩
    | error failure =>
      rw [result] at success
      cases success
  obtain ⟨stack, readable⟩ := readable
  obtain ⟨file, run, _, blocks, lookups⟩ := StackLayout.reads_back collidingLayout_wellFormed
    readable (show Configuration.validate {} = .ok () from rfl) rfl
  refine ⟨file, run, blocks, by decide +kernel, fun earlier => ⟨?_, ?_⟩⟩
  · obtain ⟨found, result, read⟩ := (lookups earlier .card (-255)).1 collidingLayout.blocks[2]
      (by decide +kernel) (by decide +kernel)
    exact ⟨found, result, read.bytes⟩
  · exact (lookups earlier .card 1).2 (by decide +kernel)

end HyperCard
