import HyperCard.Proofs.Archive.Listing

/-!
# Lookups and the list of all blocks

The list of all blocks passes over records that point outside the file, and over blocks that run
past its end. A lookup passes over the former too, and over records that cannot stand for the
identifier, but it stops at the first header with the key and fails where that block runs past the
end. Both go through the headers that the records point at, in the order of the directory: where
every record keeps the lowest byte of the identifier that it points at, a lookup finds the first
block of the list with the key, and what it does not find is not in the list.
-/
namespace HyperCard

/-- A header in a file. -/
structure Place where
  /-- Where the header stands. -/
  offset : Nat
  /-- The header. -/
  header : BlockHeader
  deriving DecidableEq, Repr

/-- Whether the header at a place has a key. -/
def Place.hasKey (tag : TypeCode) (identifier : Int) (place : Place) : Bool :=
  place.header.tag == tag && place.header.identifier == identifier

/-- Whether a block has a key. -/
def Block.hasKey (tag : TypeCode) (identifier : Int) (block : Block) : Bool :=
  block.tag == tag && block.identifier == identifier

namespace StackFile

/-- Where a record points, unless it is outside the file. No record points at its start. -/
def place? (file : StackFile) (record : DirectoryRecord) : Option Place :=
  if 0 < record.offset ∧ record.offset + BlockHeader.size ≤ file.data.length then
    (BlockHeader.read file.data record.offset).toOption.map (⟨record.offset, ·⟩)
  else none

/-- The places that the records point at, in the order of the directory. -/
def places (file : StackFile) : List Place := file.records.filterMap file.place?

/-- Whether the block at a place runs past the end of the file. -/
def RunsPast (file : StackFile) (place : Place) : Prop :=
  file.data.length < place.offset + place.header.length

instance (file : StackFile) (place : Place) : Decidable (file.RunsPast place) :=
  inferInstanceAs (Decidable (_ < _))

/-- Whether every record that points inside the file keeps the lowest byte of the identifier that
stands there. -/
def KeepsLowBytes (file : StackFile) : Prop :=
  ∀ record ∈ file.records, ∀ place ∈ file.place? record,
    (record.lastByte : Int) = place.header.identifier % 256

instance (file : StackFile) : Decidable file.KeepsLowBytes :=
  inferInstanceAs (Decidable (∀ record ∈ file.records, ∀ place ∈ file.place? record,
    (record.lastByte : Int) = place.header.identifier % 256))

/-- What is remembered after some operations, whatever they gave. -/
def stateAfter (file : StackFile) (operations : List Operation) : Cache :=
  operations.foldl (fun cache operation => ((operation.request file).run cache).2) []

/-- How the result of a lookup goes with the list of all blocks. -/
structure Agrees (file : StackFile) (tag : TypeCode) (identifier : Int) (blocks : List Block)
    (result : Except ArchiveError Block) : Prop where
  /-- A block that is found is the first one of the list with the key. -/
  found : ∀ block, result = .ok block → blocks.find? (Block.hasKey tag identifier) = some block
  /-- Where the key is reported missing, no block of the list has it. -/
  missing : result = .error (.blockNotFound tag identifier) →
    ∀ block ∈ blocks, ¬(block.tag = tag ∧ block.identifier = identifier)
  /-- The only other error is a read outside the file. -/
  errors : ∀ error, result = .error error →
    error = .blockNotFound tag identifier ∨ ∃ violation, error = .bounds violation
  /-- It arises exactly when the first header with the key declares a length past the end. -/
  violation : (∃ violation, result = .error (.bounds violation)) ↔
    ∃ place, file.places.find? (Place.hasKey tag identifier) = some place ∧ file.RunsPast place

section Records

variable {file : StackFile} {tag : TypeCode} {identifier : Int} {record : DirectoryRecord}
  {records : List DirectoryRecord} {place : Place} {block : Block}

/-- A record has a header exactly where it points inside the file. -/
theorem header?_eq (file : StackFile) (record : DirectoryRecord) :
    file.header? record = .ok ((file.place? record).map Place.header) := by
  obtain ⟨found, read⟩ := exists_header? file record
  unfold header? at read ⊢
  unfold place?
  by_cases outside : record.offset = 0 ∨ file.data.length < record.offset + BlockHeader.size
  · rw [if_pos outside, if_neg (by omega)]
    rfl
  · rw [if_neg outside] at read ⊢
    rw [if_pos (by omega)]
    cases stands : BlockHeader.read file.data record.offset with
    | error violation =>
      rw [stands] at read
      cases read
    | ok header => rfl

/-- The place that a record points to starts where the record says. -/
theorem offset_of_place? (points : file.place? record = some place) :
    place.offset = record.offset := by
  unfold place? at points
  split at points
  · obtain ⟨_, _, rfl⟩ := Option.map_eq_some_iff.mp points
    rfl
  · cases points

/-- The block at a place, unless it runs past the end of the file. -/
def block? (file : StackFile) (place : Place) : Option Block :=
  (file.blockAt place.offset place.header).toOption

/-- A block that is read at a place is the block there. -/
theorem block?_eq_some (read : file.blockAt place.offset place.header = .ok block) :
    file.block? place = some block := by
  rw [block?, read]
  rfl

/-- A block that ends inside the file is read. -/
theorem exists_block (fits : ¬file.RunsPast place) : ∃ window,
    file.data.sub place.offset place.header.length = .ok window ∧
      file.blockAt place.offset place.header =
        .ok ⟨place.header.tag, place.header.identifier, window⟩ := by
  have cut : ∃ window, file.data.sub place.offset place.header.length = .ok window :=
    ⟨_, dif_pos (Nat.not_lt.mp fits)⟩
  obtain ⟨window, cut⟩ := cut
  refine ⟨window, cut, ?_⟩
  rw [blockAt, cut]
  rfl

/-- A block that runs past the end of the file is a read outside. -/
theorem blockAt_eq_error (long : file.RunsPast place) :
    file.blockAt place.offset place.header =
      .error (.bounds (.outOfBounds place.offset place.header.length file.data.length)) := by
  rw [blockAt, Window.sub, dif_neg (Nat.not_le.mpr long)]
  rfl

/-- A place with a block does not run past the end of the file. -/
theorem fits_of_block? (found : file.block? place = some block) : ¬file.RunsPast place := by
  intro long
  rw [block?, blockAt_eq_error long] at found
  cases found

/-- A block has the key of the header that it is read from. -/
theorem hasKey_of_block? (found : file.block? place = some block) :
    block.hasKey tag identifier = place.hasKey tag identifier := by
  obtain ⟨window, _, read⟩ := exists_block (fits_of_block? found)
  rw [block?_eq_some read] at found
  cases found
  rfl

/-- The list of all blocks goes through the places of the records. -/
theorem blocksOfRecords_eq (file : StackFile) (records : List DirectoryRecord) :
    file.blocksOfRecords records =
      .ok ((records.filterMap file.place?).filterMap file.block?) := by
  induction records with
  | nil => rfl
  | cons record records ih =>
    rw [blocksOfRecords, header?_eq]
    cases points : file.place? record with
    | none =>
      rw [List.filterMap_cons_none points]
      exact ih
    | some place =>
      rw [List.filterMap_cons_some points]
      simp only [Option.map_some, bind, Except.bind, ← offset_of_place? points]
      by_cases long : file.RunsPast place
      · rw [List.filterMap_cons_none (by rw [block?, blockAt_eq_error long]; rfl),
          blockAt_eq_error long]
        exact ih
      · obtain ⟨window, _, read⟩ := exists_block long
        rw [List.filterMap_cons_some (block?_eq_some read), read, ih]
        rfl

/-- A lookup stops at a record that may stand for the identifier and points at the key. -/
theorem locate_cons (file : StackFile) (tag : TypeCode) (identifier : Int)
    (record : DirectoryRecord) (records : List DirectoryRecord) :
    file.locate tag identifier (record :: records) =
      match (file.place? record).filter fun place =>
        record.mayHold identifier && place.hasKey tag identifier with
      | some place => file.blockAt place.offset place.header
      | none => file.locate tag identifier records := by
  rw [locate, header?_eq]
  cases points : file.place? record with
  | none => simp only [Option.map_none, Option.filter_none, bind, Except.bind, ite_self]
  | some place =>
    have same : (place.header.tag == tag && place.header.identifier == identifier) =
        place.hasKey tag identifier := rfl
    simp only [Option.map_some, Option.filter_some, bind, Except.bind, same,
      ← offset_of_place? points]
    cases record.mayHold identifier <;> cases place.hasKey tag identifier <;> rfl

/-- Where the records keep the lowest bytes, a lookup stops at the first place with the key. -/
theorem locate_eq_find? (keeps : ∀ record ∈ records, ∀ place ∈ file.place? record,
      (record.lastByte : Int) = place.header.identifier % 256) :
    file.locate tag identifier records =
      match (records.filterMap file.place?).find? (Place.hasKey tag identifier) with
      | some place => file.blockAt place.offset place.header
      | none => .error (.blockNotFound tag identifier) := by
  induction records with
  | nil => rfl
  | cons record records ih =>
    have later := ih fun other mem => keeps other (List.mem_cons_of_mem _ mem)
    rw [locate_cons, later]
    cases points : file.place? record with
    | none =>
      rw [List.filterMap_cons_none points]
      rfl
    | some place =>
      rw [List.filterMap_cons_some points, List.find?_cons, Option.filter_some]
      cases key : place.hasKey tag identifier with
      | false => simp only [Bool.and_false, Bool.false_eq_true, ↓reduceIte]
      | true =>
        -- A record that points at the key may stand for it, as it keeps the lowest byte.
        have same := key
        rw [Place.hasKey, Bool.and_eq_true, beq_iff_eq, beq_iff_eq] at same
        have may : record.mayHold identifier = true := by
          rw [DirectoryRecord.mayHold, keeps record List.mem_cons_self place points, same.2,
            beq_self_eq_true]
        simp only [may, Bool.and_true, ↓reduceIte]

end Records

section Agreement

variable {file : StackFile} {tag : TypeCode} {identifier : Int}

/-- Any operations leave a state behind that agrees with the directory. -/
theorem recalls_stateAfter (file : StackFile) (operations : List Operation) :
    file.Recalls (file.stateAfter operations) := by
  have run : ∀ cache, file.Recalls cache → file.Recalls
      (operations.foldl (fun cache operation => ((operation.request file).run cache).2) cache) := by
    induction operations with
    | nil => exact fun _ recalls => recalls
    | cons operation operations ih =>
      intro cache recalls
      obtain ⟨_, gives⟩ := @determines_request file operation
      obtain ⟨later, ran, kept⟩ := gives file.configuration.cacheBlocks cache recalls
      have same : ((operation.request file).run cache).2 = later := congrArg Prod.snd ran
      rw [List.foldl_cons, same]
      exact ih later kept
  exact run [] fun _ remembered => nomatch remembered

/-- What comes before a lookup does not change its result. -/
theorem run_findBlock_after (file : StackFile) (operations : List Operation) (tag : TypeCode)
    (identifier : Int) :
    ((file.findBlock tag identifier).run (file.stateAfter operations)).1 =
      file.locate tag identifier file.records := by
  obtain ⟨_, run, _⟩ := @gives_findBlock file tag identifier _ (recalls_stateAfter file operations)
  rw [run]

/-- The first place with a key gives the first block with it, unless it runs past the end. -/
theorem find?_filterMap_block? {places : List Place} {place : Place}
    (first : places.find? (Place.hasKey tag identifier) = some place)
    (fits : ¬file.RunsPast place) :
    (places.filterMap file.block?).find? (Block.hasKey tag identifier) = file.block? place := by
  obtain ⟨key, before, after, rfl, others⟩ := List.find?_eq_some_iff_append.mp first
  have skips : (before.filterMap file.block?).find? (Block.hasKey tag identifier) = none := by
    rw [List.find?_eq_none]
    intro block mem
    obtain ⟨other, earlier, found⟩ := List.mem_filterMap.mp mem
    rw [hasKey_of_block? found]
    exact (Bool.not_eq_true _).mpr (Bool.not_eq_true' _ ▸ others other earlier)
  obtain ⟨window, _, read⟩ := exists_block fits
  have found := block?_eq_some read
  rw [List.filterMap_append, List.find?_append, skips, List.filterMap_cons_some found,
    List.find?_cons_of_pos ((hasKey_of_block? found).trans key), found]
  rfl

/-- Where no place has the key, no block of the list has it. -/
theorem agrees_missing (absent : file.places.find? (Place.hasKey tag identifier) = none) :
    file.Agrees tag identifier (file.places.filterMap file.block?)
      (.error (.blockNotFound tag identifier)) where
  found := fun _ same => nomatch same
  missing := by
    intro _ block mem key
    obtain ⟨place, listed, found⟩ := List.mem_filterMap.mp mem
    have differs := List.find?_eq_none.mp absent place listed
    rw [← hasKey_of_block? found, Block.hasKey, key.1, key.2] at differs
    exact differs (by rw [beq_self_eq_true, beq_self_eq_true, Bool.and_self])
  errors := by
    rintro error ⟨⟩
    exact .inl rfl
  violation := by
    constructor
    · exact fun ⟨_, same⟩ => nomatch same
    · exact fun ⟨place, same, _⟩ => nomatch absent.symm.trans same

/-- Where the first place with the key declares a block past the end, the read fails. -/
theorem agrees_runsPast {place : Place} {blocks : List Block} {violation : ReadError}
    (first : file.places.find? (Place.hasKey tag identifier) = some place)
    (long : file.RunsPast place) :
    file.Agrees tag identifier blocks (.error (.bounds violation)) where
  found := fun _ same => nomatch same
  missing := fun same => nomatch same
  errors := by
    rintro error ⟨⟩
    exact .inr ⟨violation, rfl⟩
  violation := ⟨fun _ => ⟨place, first, long⟩, fun _ => ⟨violation, rfl⟩⟩

/-- Where it declares one inside the file, that block is the first one with the key. -/
theorem agrees_found {place : Place} {block : Block}
    (first : file.places.find? (Place.hasKey tag identifier) = some place)
    (fits : ¬file.RunsPast place) (read : file.block? place = some block) :
    file.Agrees tag identifier (file.places.filterMap file.block?) (.ok block) where
  found := by
    rintro block ⟨⟩
    rw [find?_filterMap_block? first fits, read]
  missing := fun same => nomatch same
  errors := fun _ same => nomatch same
  violation := by
    constructor
    · exact fun ⟨_, same⟩ => nomatch same
    · rintro ⟨other, same, past⟩
      cases first.symm.trans same
      exact absurd past fits

/-- **Lookups agree with the list of all blocks.** The blocks can always be listed. Where every
record keeps the lowest byte of the identifier that it points at, a lookup finds the first block of
the list with the key, whatever was asked before; a key that it reports missing is not in the list;
and it fails otherwise only where the first header with the key declares a block past the end. -/
theorem lookup_agrees (file : StackFile) :
    ∃ blocks, file.blocks = .ok blocks ∧
      (file.KeepsLowBytes → ∀ earlier tag identifier, file.Agrees tag identifier blocks
        ((file.findBlock tag identifier).run (file.stateAfter earlier)).1) := by
  refine ⟨_, blocksOfRecords_eq file file.records, fun keeps earlier tag identifier => ?_⟩
  rw [run_findBlock_after, locate_eq_find? keeps]
  cases first : (file.records.filterMap file.place?).find? (Place.hasKey tag identifier) with
  | none => exact agrees_missing first
  | some place =>
    dsimp only
    by_cases long : file.RunsPast place
    · rw [blockAt_eq_error long]
      exact agrees_runsPast first long
    · obtain ⟨window, _, read⟩ := exists_block long
      rw [read]
      exact agrees_found first long (block?_eq_some read)

end Agreement

end StackFile

/-- A file with two cards and two backgrounds of one key each, where the first card declares a
length past the end, and with two records that point nowhere. -/
def crowdedFile : List UInt8 :=
  [0, 0, 1, 0xC0] ++ List.replicate 15 0 ++ [10] ++ List.replicate 428 0 ++
    [0, 0, 0, 56, 0x4D, 0x41, 0x53, 0x54] ++ List.replicate 24 0 ++
    [0, 0, 0x10, 1, 0, 0, 0, 5, 0, 0, 0x11, 1, 0, 0, 0x12, 7, 0xFF, 0xFF, 0xFF, 1, 0, 0, 0x13, 7] ++
    List.replicate 8 0 ++
    [0, 0, 1, 0, 0x43, 0x41, 0x52, 0x44, 0, 0, 1, 1] ++ List.replicate 20 0 ++
    [0, 0, 0, 14, 0x43, 0x41, 0x52, 0x44, 0, 0, 1, 1, 0xAB, 0xCD] ++ List.replicate 18 0 ++
    [0, 0, 0, 12, 0x42, 0x4B, 0x47, 0x44, 0, 0, 0, 7] ++ List.replicate 20 0 ++
    [0, 0, 0, 13, 0x42, 0x4B, 0x47, 0x44, 0, 0, 0, 7, 0xEF]

/-- The first of the two backgrounds is found, the first of the two cards is past the end, and no
card has the identifier 1. -/
theorem lookup_agrees_crowded :
    ∃ file blocks, StackFile.read (.ofArray crowdedFile.toArray) {} = .ok file ∧
      file.KeepsLowBytes ∧ file.blocks = .ok blocks ∧
      blocks.map (fun block => (block.tag, block.identifier, block.window.start)) =
        [(.card, 257, 544), (.background, 7, 576), (.background, 7, 608)] ∧
      ∀ earlier,
        (∃ block, ((file.findBlock .background 7).run (file.stateAfter earlier)).1 = .ok block ∧
          blocks.find? (Block.hasKey .background 7) = some block) ∧
        (∃ violation, ((file.findBlock .card 257).run (file.stateAfter earlier)).1 =
          .error (.bounds violation)) ∧
        ((file.findBlock .card 1).run (file.stateAfter earlier)).1 =
          .error (.blockNotFound .card 1) := by
  have opened : ∃ file, StackFile.read (.ofArray crowdedFile.toArray) {} = .ok file ∧
      file.KeepsLowBytes ∧ file.data.length = 621 ∧
      file.places = [⟨512, 256, .card, 257⟩, ⟨544, 14, .card, 257⟩, ⟨576, 12, .background, 7⟩,
        ⟨608, 13, .background, 7⟩] ∧
      file.blocks.toOption.map
          (List.map fun block => (block.tag, block.identifier, block.window.start)) =
        some [(.card, 257, 544), (.background, 7, 576), (.background, 7, 608)] :=
    exists_of_check (by decide +kernel)
  obtain ⟨file, read, keeps, length, places, listed⟩ := opened
  obtain ⟨blocks, all, lookups⟩ := file.lookup_agrees
  rw [all] at listed
  have listed := Option.some.inj listed
  refine ⟨file, blocks, read, keeps, all, listed, fun earlier => ⟨?_, ?_, ?_⟩⟩
  · have agrees := lookups keeps earlier .background 7
    cases result : ((file.findBlock .background 7).run (file.stateAfter earlier)).1 with
    | ok block => exact ⟨block, rfl, agrees.found block result⟩
    | error error =>
      obtain rfl | ⟨violation, rfl⟩ := agrees.errors error result
      · have present : (.background, 7, 576) ∈
            blocks.map (fun block => (block.tag, block.identifier, block.window.start)) := by
          rw [listed]
          decide
        obtain ⟨block, mem, same⟩ := List.mem_map.mp present
        rw [Prod.mk.injEq, Prod.mk.injEq] at same
        exact absurd ⟨same.1, same.2.1⟩ (agrees.missing result block mem)
      · obtain ⟨place, first, past⟩ := agrees.violation.mp ⟨violation, result⟩
        rw [places] at first
        cases first
        rw [StackFile.RunsPast, length] at past
        exact absurd past (by decide)
  · have agrees := lookups keeps earlier .card 257
    refine agrees.violation.mpr ⟨⟨512, 256, .card, 257⟩, by rw [places]; rfl, ?_⟩
    rw [StackFile.RunsPast, length]
    decide
  · have agrees := lookups keeps earlier .card 1
    cases result : ((file.findBlock .card 1).run (file.stateAfter earlier)).1 with
    | ok block =>
      have first := agrees.found block result
      have key := List.find?_some first
      have shown : (block.tag, block.identifier, block.window.start) ∈
          blocks.map (fun block => (block.tag, block.identifier, block.window.start)) :=
        List.mem_map.mpr ⟨block, List.mem_of_find?_eq_some first, rfl⟩
      rw [Block.hasKey, Bool.and_eq_true, beq_iff_eq, beq_iff_eq] at key
      rw [listed, key.1, key.2] at shown
      simp at shown
    | error error =>
      obtain rfl | ⟨violation, rfl⟩ := agrees.errors error result
      · rfl
      · obtain ⟨place, first, _⟩ := agrees.violation.mp ⟨violation, result⟩
        rw [places] at first
        cases first

end HyperCard
