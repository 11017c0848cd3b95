import HyperCard.Proofs.Archive.CardOrder
import HyperCard.Proofs.Archive.Reporting
import HyperCard.Proofs.Archive.Ring
import HyperCard.Proofs.Archive.Strictness
import HyperCard.Proofs.Archive.Wholeness
import HyperCard.Proofs.Block.StoredChecksum

/-!
# A reported checksum is the right one

The stack block, the list and each page are checked against the checksum that they store. A check
that fails reports the stored word and another one. The other one repairs the block: with it in the
field of the checksum, and nothing else changed in the file, the check of the block succeeds.
-/
namespace HyperCard

open Window (bigEndian)

section Opening

variable {configuration : Configuration} {window : Window}

/-- Words with a sum of zero pass the check of the stack block. -/
theorem StackFile.checkStack_of_sum (configuration : Configuration) (stack : StackBlock)
    (sum : StackBlock.checksumResidue window = .ok 0) :
    checkStack configuration stack window = .ok () := by
  rw [checkStack, sum]
  split <;> rfl

/-- Words with another sum are reported, where settings ask for the check. -/
theorem StackFile.checkStack_of_broken {stack : StackBlock} {residue : UInt32}
    (verifies : configuration.verifyChecksums = true) (second : stack.version.isTwo = true)
    (sum : StackBlock.checksumResidue window = .ok residue) (broken : residue ≠ 0) :
    checkStack configuration stack window =
      .error (.checksumMismatch .stack (-1) stack.checksum (stack.checksum - residue)) := by
  rw [checkStack, verifies, second, sum]
  exact if_pos (bne_iff_ne.mpr broken)

/-- What is found with some settings is found with those that ask for the check. -/
theorem StackFile.checkStack_strict {stack : StackBlock} {error : ArchiveError}
    (failed : checkStack configuration stack window = .error error) :
    checkStack { verifyChecksums := true } stack window = .error error := by
  cases verifies : configuration.verifyChecksums with
  | true =>
    rw [checkStack, verifies] at failed
    exact failed
  | false =>
    rw [checkStack, verifies] at failed
    cases failed

end Opening

/-- A block that is checked against the checksum in it. -/
inductive Checked
  /-- The stack block. -/
  | stack
  /-- The list of pages. -/
  | list
  /-- A page of a list. -/
  | page (reference : PageReference) (pages : ListBlock)

namespace Checked

/-- The type of the block. -/
def tag : Checked → TypeCode
  | .stack => .stack
  | .list => .list
  | .page _ _ => .page

/-- Where the checksum stands in the block. -/
def field (version : FormatVersion) : Checked → Nat
  | .stack => 0x70
  | .list => version.shift 0x24
  | .page _ _ => version.shift 0x14

/-- The identifier that a check reports. -/
def identifier (block : Window) : Checked → Except ReadError Int
  | .stack => .ok (-1)
  | .list | .page _ _ => block.signed 4 0x08

/-- The check of a block. -/
def verify (version : FormatVersion) (block : Window) : Checked → Except ArchiveError Unit
  | .stack => do
    let stack ← StackBlock.read block
    StackFile.checkStack { verifyChecksums := true } stack block
  | .list => do
    let list ← ListBlock.read block version
    if !list.isChecksumValid then
      throw (.checksumMismatch .list list.identifier list.checksum list.computedChecksum)
  | .page reference pages => do
    let page ← PageBlock.read block version reference.cardCount pages.cardReferenceSize
    if !page.isChecksumValid then
      throw (.checksumMismatch .page page.identifier page.checksum page.computedChecksum)

/-- Whether a report about a block names the block and the checksum in it, and a word that repairs
it. -/
structure Reports (checked : Checked) (version : FormatVersion) (block : Window) (tag : TypeCode)
    (identifier : Int) (stored computed : UInt32) : Prop where
  /-- The type is that of the block. -/
  tag : tag = checked.tag
  /-- So is the identifier. -/
  identifier : checked.identifier block = .ok identifier
  /-- The word in the field of the checksum is the stored one. -/
  field : block.unsigned 4 (checked.field version) = .ok stored.toNat
  /-- The computed one differs from it. -/
  differs : computed ≠ stored
  /-- With the computed one in the field the check succeeds. -/
  succeeds : checked.verify version
    (block.overwritten (checked.field version) (bigEndian 4 computed.toNat)) = .ok ()

/-- Whether storing a word in a file, in the field of the checksum of the block at an offset and in
place of another word there, makes the check of that block succeed. -/
structure IsRepairedBy (checked : Checked) (version : FormatVersion) (data : Window) (offset : Nat)
    (block : Window) (stored computed : UInt32) : Prop where
  /-- The block stands at the offset. -/
  cut : data.sub offset block.length = .ok block
  /-- The field has the other word. -/
  field : block.unsigned 4 (checked.field version) = .ok stored.toNat
  /-- They differ. -/
  differs : computed ≠ stored
  /-- The check of the block in the file with the word succeeds. -/
  succeeds : ∃ repaired,
    (data.overwritten (offset + checked.field version) (bigEndian 4 computed.toNat)).sub offset
      block.length = .ok repaired ∧ checked.verify version repaired = .ok ()

variable (version : FormatVersion) (block : Window)

/-- The check of the stack block, which adds up words of which the checksum is one. -/
theorem reportsOnly_stack : ReportsOnly (Checked.stack.Reports version block)
    (Checked.stack.verify version block) := by
  refine (HyperCard.reportsOnly_stack _ block).bind fun stack read => ?_
  unfold StackFile.checkStack
  by_cases second : stack.version.isTwo = true
  · rw [second]
    refine .read fun residue added => .check fun broken => ?_
    obtain ⟨_, again, stands, rfl⟩ :=
      (StackBlock.read_overwritten block (stack.checksum - residue)).exists_right read
    have field : block.unsigned 4 (4 * 0x1C) = .ok stack.checksum.toNat := stands second
    have change := StackBlock.changedAt_overwritten (by decide) field (stack.checksum - residue)
    have balanced : residue - stack.checksum + (stack.checksum - residue) = 0 := by
      rw [← UInt32.neg_sub, UInt32.add_left_neg]
    have sum := change.checksumResidue_eq added
    rw [balanced] at sum
    refine ⟨rfl, rfl, field, fun same => ?_, ?_⟩
    · have none : residue = 0 :=
        (UInt32.sub_right_inj stack.checksum).mp (same.trans (UInt32.sub_zero _).symm)
      rw [none] at broken
      exact absurd broken (by decide)
    · rw [verify, Checked.field, again]
      exact StackFile.checkStack_of_sum _ _ sum
  · rw [Bool.eq_false_iff.mpr second]
    exact .ok ()

/-- The check of the list, which compares the checksum of the pages with the one that is stored. -/
theorem reportsOnly_list : ReportsOnly (Checked.list.Reports version block)
    (Checked.list.verify version block) := by
  refine (HyperCard.reportsOnly_list _ block version).bind fun list read => .check fun broken => ?_
  obtain ⟨_, again, identifier, field, rfl⟩ :=
    (ListBlock.read_overwritten block version list.computedChecksum).exists_right read
  have differs : list.computedChecksum ≠ list.checksum := by
    simpa [ListBlock.isChecksumValid] using broken
  refine ⟨rfl, identifier, field, differs, ?_⟩
  have valid : ListBlock.isChecksumValid { list with checksum := list.computedChecksum } = true :=
    beq_self_eq_true list.computedChecksum
  rw [verify, Checked.field, again]
  simp only [bind, Except.bind, valid]
  rfl

/-- The check of a page, which compares the checksum of the cards with the one that is stored. -/
theorem reportsOnly_page (reference : PageReference) (pages : ListBlock) :
    ReportsOnly ((Checked.page reference pages).Reports version block)
      ((Checked.page reference pages).verify version block) := by
  refine (HyperCard.reportsOnly_page _ block version _ _).bind fun page read =>
    .check fun broken => ?_
  obtain ⟨_, again, identifier, field, rfl⟩ :=
    (PageBlock.read_overwritten block version _ _ page.computedChecksum).exists_right read
  have differs : page.computedChecksum ≠ page.checksum := by
    simpa [PageBlock.isChecksumValid] using broken
  refine ⟨rfl, identifier, field, differs, ?_⟩
  have valid : PageBlock.isChecksumValid { page with checksum := page.computedChecksum } = true :=
    beq_self_eq_true page.computedChecksum
  rw [verify, Checked.field, again]
  simp only [bind, Except.bind, valid]
  rfl

/-- **A check that fails reports a word that repairs the block.** It names the block, and the word
that the block stores. -/
theorem reportsOnly_verify (checked : Checked) :
    ReportsOnly (checked.Reports version block) (checked.verify version block) := by
  cases checked with
  | stack => exact reportsOnly_stack version block
  | list => exact reportsOnly_list version block
  | page reference pages => exact reportsOnly_page version block reference pages

/-- What is reported about a block of a file repairs it there. -/
theorem Reports.isRepairedBy {checked : Checked} {version : FormatVersion} {data block : Window}
    {offset : Nat} {tag : TypeCode} {identifier : Int} {stored computed : UInt32}
    (reports : checked.Reports version block tag identifier stored computed)
    (cut : data.sub offset block.length = .ok block) :
    checked.IsRepairedBy version data offset block stored computed where
  cut := cut
  field := reports.field
  differs := reports.differs
  succeeds := ⟨_, Window.sub_overwritten cut, reports.succeeds⟩

end Checked

namespace StackFile

/-- Whether an operation checks a block. -/
inductive Checks (file : StackFile) : Operation → Checked → Prop
  /-- The list is checked for itself. -/
  | list : Checks file .list .list
  /-- It is checked before all cards are listed. -/
  | listOfReferences : Checks file .cardReferences .list
  /-- And before all cards are read. -/
  | listOfCards : Checks file .cards .list
  /-- A page is checked for itself. -/
  | page (reference : PageReference) (pages : ListBlock) :
    Checks file (.page reference pages) (.page reference pages)
  /-- Each page of the list is checked when all cards are listed. -/
  | pageOfReferences {reference : PageReference} {pages : ListBlock}
    (given : file.Gives file.list (.ok pages)) (mem : reference ∈ pages.pages) :
    Checks file .cardReferences (.page reference pages)
  /-- And when all cards are read. -/
  | pageOfCards {reference : PageReference} {pages : ListBlock}
    (given : file.Gives file.list (.ok pages)) (mem : reference ∈ pages.pages) :
    Checks file .cards (.page reference pages)

/-- Whether a checksum is what one of some checks fails with, about the block of a file that it
names. -/
def Fails (file : StackFile) (checks : Checked → Prop) (tag : TypeCode) (identifier : Int)
    (stored computed : UInt32) : Prop :=
  ∃ checked block, checks checked ∧ file.locate tag identifier file.records = .ok block ∧
    checked.verify file.version block.window =
      .error (.checksumMismatch tag identifier stored computed)

variable {file : StackFile} {checks : Checked → Prop}

/-- The identifier of a header stands eight bytes behind its start. -/
theorem signed_of_header {window : Window} {header : BlockHeader}
    (read : BlockHeader.read window 0 = .ok header) :
    window.signed 4 0x08 = .ok header.identifier := by
  obtain ⟨front, cut, read⟩ := exists_of_bind read
  obtain ⟨length, _, read⟩ := exists_of_bind read
  obtain ⟨tag, _, read⟩ := exists_of_bind read
  obtain ⟨identifier, stands, read⟩ := exists_of_bind read
  cases read
  have fits := Window.le_of_signed stands
  have room := Window.le_of_sub cut
  have same : window.unsigned 4 0x08 = front.unsigned 4 8 := by
    apply Window.unsigned_congr fits (Nat.le_trans (by decide) room)
    intro index less
    rw [Window.byte_sub cut, if_pos (by unfold BlockHeader.size; omega), Nat.zero_add]
  rw [Window.signed, same]
  exact stands

/-- The header of a block has the identifier that the block was looked for with. -/
theorem identifier_of_locate {tag : TypeCode} {identifier number : Int} {block : Block}
    (found : file.locate tag identifier file.records = .ok block)
    (read : block.window.signed 4 0x08 = .ok number) : number = identifier := by
  obtain ⟨place, mem, taken⟩ := exists_place_of_locate found
  obtain ⟨_, length, whole⟩ := encloses_block? mem taken
  have room := Window.le_of_signed read
  have header := signed_of_header (whole.mpr (by rw [← length]; exact room))
  rw [header, (key_of_locate found).2] at read
  exact (Except.ok.inj read).symm

/-- A block that is looked for, read and checked against the checksum in it reports what its check
fails with. -/
theorem requestReportsOnly_checked {α : Type} {tag : TypeCode} {sought : Int} {checked : Checked}
    {reader : Window → Except ArchiveError α} {broken : α → Bool} {number : α → Int}
    {stored computed : α → UInt32} (made : checks checked)
    (verifies : ∀ window, checked.verify file.version window = do
      let value ← reader window
      if broken value then
        throw (.checksumMismatch tag (number value) (stored value) (computed value)))
    (numbered : ∀ window, checked.identifier window = window.signed 4 0x08)
    (silent : ∀ window, ReportsOnly (file.Fails checks) (reader window)) :
    file.RequestReportsOnly (file.Fails checks) (do
      let block ← file.findBlock tag sought
      let value ← reader block.window
      if file.configuration.verifyChecksums && broken value then
        throw (.checksumMismatch tag (number value) (stored value) (computed value))
      return value) := by
  apply requestReportsOnly_bind (gives_findBlock tag sought)
    (reportsOnly_locate tag sought file.records)
  intro block found
  apply requestReportsOnly_bind (gives_result (reader block.window)) (silent block.window)
  intro value read
  apply requestReportsOnly_check
  intro fails
  have failed : checked.verify file.version block.window =
      .error (.checksumMismatch tag (number value) (stored value) (computed value)) := by
    rw [verifies, read]
    exact if_pos (Bool.and_eq_true_iff.mp fails).2
  have named := (Checked.reportsOnly_verify _ _ checked _ _ _ _ failed).identifier
  rw [numbered] at named
  refine ⟨checked, block, made, ?_, failed⟩
  rw [identifier_of_locate found named]
  exact found

/-- Reading the list reports what the check of the list fails with. -/
theorem requestReportsOnly_list (made : checks .list) :
    file.RequestReportsOnly (file.Fails checks) file.list :=
  requestReportsOnly_checked made (fun _ => rfl) (fun _ => rfl)
    fun window => reportsOnly_list _ window file.version

/-- Reading a page reports what the check of that page fails with. -/
theorem requestReportsOnly_page {reference : PageReference} {pages : ListBlock}
    (made : checks (.page reference pages)) :
    file.RequestReportsOnly (file.Fails checks) (file.page reference pages) :=
  requestReportsOnly_checked made (fun _ => rfl) (fun _ => rfl)
    fun window => reportsOnly_page _ window file.version _ _

/-- All cards are listed after the list and its pages are checked. -/
theorem requestReportsOnly_cardReferences (checked : checks .list)
    (each : ∀ {pages reference}, file.Gives file.list (.ok pages) → reference ∈ pages.pages →
      checks (.page reference pages)) :
    file.RequestReportsOnly (file.Fails checks) file.cardReferences := by
  obtain ⟨result, given, reports⟩ := @requestReportsOnly_list file checks checked
  apply requestReportsOnly_bind given reports
  rintro pages rfl
  apply requestReportsOnly_entriesOfPages
  intro reference mem
  exact requestReportsOnly_page (each given mem)

/-- Every operation reports what the checks fail with that it makes. -/
theorem requestReportsOnly_request (operation : Operation) :
    file.RequestReportsOnly (file.Fails (file.Checks operation)) (operation.request file) := by
  have all : file.blocks = .ok (file.places.filterMap file.block?) :=
    blocksOfRecords_eq file file.records
  cases operation with
  | find tag identifier =>
    exact ⟨_, gives_findBlock tag identifier, reportsOnly_locate tag identifier file.records⟩
  | blocks =>
    unfold Operation.request
    rw [all]
    exact requestReportsOnly_result (.ok _)
  | blocksOfType tag =>
    unfold Operation.request blocksOfType
    rw [all]
    exact requestReportsOnly_result (.ok _)
  | list => exact requestReportsOnly_list .list
  | page reference pages => exact requestReportsOnly_page (.page reference pages)
  | card identifier => exact requestReportsOnly_card identifier
  | background identifier => exact requestReportsOnly_background identifier
  | bitmap identifier =>
    exact requestReportsOnly_read .bitmap identifier fun block =>
      reportsOnly_bitmap _ block.window file.version
  | styleTable =>
    exact requestReportsOnly_named .styleTable file.stack.styleBlockId fun block =>
      reportsOnly_styleTable _ block.window file.version
  | fontTable =>
    exact requestReportsOnly_named .fontTable file.stack.fontBlockId fun block =>
      reportsOnly_fontTable _ block.window file.version
  | cardReferences =>
    exact requestReportsOnly_cardReferences .listOfReferences fun given mem =>
      .pageOfReferences given mem
  | cards =>
    obtain ⟨result, given, reports⟩ := @requestReportsOnly_cardReferences file
      (file.Checks .cards) .listOfCards fun given mem => .pageOfCards given mem
    apply requestReportsOnly_bind given reports
    intro entries _
    exact requestReportsOnly_cardsOfEntries entries
  | backgrounds => exact requestReportsOnly_ringFrom _ _ [] _

/-- A block of a file stands somewhere in it. -/
theorem exists_sub_of_locate {tag : TypeCode} {identifier : Int} {block : Block}
    (found : file.locate tag identifier file.records = .ok block) :
    ∃ offset, file.data.sub offset block.window.length = .ok block.window := by
  obtain ⟨place, _, taken⟩ := exists_place_of_locate found
  obtain ⟨window, cut, read⟩ := exists_block (fits_of_block? taken)
  rw [block?_eq_some read] at taken
  cases taken
  refine ⟨place.offset, ?_⟩
  rw [Window.length_of_sub cut]
  exact cut

/-- Opening a file reports what the check of its stack block fails with. -/
theorem reportsOnly_read (data : Window) (configuration : Configuration) :
    ReportsOnly (fun tag identifier stored computed => ∃ length block,
        data.unsigned 4 0 = .ok length ∧ data.sub 0 length = .ok block ∧
        Checked.stack.verify .two block =
          .error (.checksumMismatch tag identifier stored computed))
      (read data configuration) := by
  rw [read_eq_checkStack]
  have valid (reported : TypeCode → Int → UInt32 → UInt32 → Prop) :
      ReportsOnly reported configuration.validate := by
    intro _ _ _ _ failed
    unfold Configuration.validate at failed
    split at failed <;> cases failed
  refine (valid _).bind fun _ _ => .read fun length declared => .read fun block cut => ?_
  refine (reportsOnly_stack _ block).bind fun stack readable => ?_
  refine .bind (fun tag identifier stored computed failed => ?_) fun _ _ => ?_
  · refine ⟨length, block, declared, cut, ?_⟩
    rw [Checked.verify, readable]
    exact checkStack_strict failed
  · iterate 4 refine .read fun _ _ => ?_
    exact .ok _

/-- A file has the bytes that it was opened from. -/
theorem data_of_read {data : Window} {configuration : Configuration}
    (opened : read data configuration = .ok file) : file.data = data := by
  rw [read_eq_checkStack] at opened
  iterate 9 obtain ⟨_, _, opened⟩ := exists_of_bind opened
  cases opened
  rfl

/-- **A reported checksum is the right one.** Where opening a file ends with a checksum that does
not fit, the stack block fails its check with that report; the stored word is the one in the field
of its checksum, the computed one differs, and with the computed one in the field, and nothing else
changed in the file, the check of the block succeeds, so that opening reports no checksum any more.
Where an operation on an opened file ends so, whatever was asked before, the same holds of the block
that the report names, the list or a page, which is one of those that the operation checks. -/
theorem reported_checksum_repairs (data : Window) (configuration : Configuration) :
    (∀ tag identifier stored computed,
      read data configuration = .error (.checksumMismatch tag identifier stored computed) →
      tag = .stack ∧ ∃ block, data.unsigned 4 0 = .ok block.length ∧
        Checked.stack.verify .two block =
          .error (.checksumMismatch tag identifier stored computed) ∧
        Checked.stack.IsRepairedBy .two data 0 block stored computed ∧
        ∀ tag identifier stored other,
          read (data.overwritten 0x70 (bigEndian 4 computed.toNat)) configuration ≠
            .error (.checksumMismatch tag identifier stored other)) ∧
    ∀ file, read data configuration = .ok file →
      ∀ (earlier : List Operation) (operation : Operation) tag identifier stored computed,
        ((operation.request file).run (file.stateAfter earlier)).1 =
          .error (.checksumMismatch tag identifier stored computed) →
        ∃ checked block offset, file.Checks operation checked ∧ tag = checked.tag ∧
          file.locate tag identifier file.records = .ok block ∧
          checked.verify file.version block.window =
            .error (.checksumMismatch tag identifier stored computed) ∧
          checked.IsRepairedBy file.version data offset block.window stored computed := by
  constructor
  · intro tag identifier stored computed failed
    obtain ⟨length, block, declared, cut, fails⟩ :=
      reportsOnly_read data configuration _ _ _ _ failed
    have reports := Checked.reportsOnly_verify _ _ _ _ _ _ _ fails
    obtain rfl := Window.length_of_sub cut
    refine ⟨reports.tag, block, declared, fails, reports.isRepairedBy cut, ?_⟩
    -- The repaired file begins with the same length, so the same block of it is checked.
    have alike := data.alikeApart_overwritten 0x70 (bigEndian 4 computed.toNat)
    have cutMended := @Window.sub_overwritten _ _ _ (bigEndian 4 computed.toNat) _ 0x70 cut
    intro tag identifier stored other again
    obtain ⟨_, mended, declaredAgain, cutAgain, failsAgain⟩ :=
      reportsOnly_read _ configuration _ _ _ _ again
    rw [alike.unsigned (.inl (by decide)), declared] at declaredAgain
    cases declaredAgain
    rw [Nat.zero_add, cutAgain] at cutMended
    cases cutMended
    exact nomatch failsAgain.symm.trans reports.succeeds
  · intro file opened earlier operation tag identifier stored computed failed
    obtain ⟨result, given, reports⟩ := @requestReportsOnly_request file operation
    rw [given.run_after earlier] at failed
    obtain ⟨checked, block, checks, found, fails⟩ := reports _ _ _ _ failed
    have right := Checked.reportsOnly_verify _ _ _ _ _ _ _ fails
    obtain ⟨offset, cut⟩ := exists_sub_of_locate found
    rw [data_of_read opened] at cut
    exact ⟨checked, block, offset, checks, right.tag, found, fails, right.isRepairedBy cut⟩

/-- A file with another word in place of the checksum of its stack block is refused, and the word
that stood there is reported. -/
theorem read_damaged {data : Window} {configuration : Configuration}
    (opened : read data {} = .ok file) (second : file.stack.version.isTwo = true)
    (sound : IsSound data) (valid : configuration.validate = .ok ())
    (verifies : configuration.verifyChecksums = true) {word : UInt32}
    (differs : word ≠ file.stack.checksum) :
    read (data.overwritten 0x70 (bigEndian 4 word.toNat)) configuration =
      .error (.checksumMismatch .stack (-1) word file.stack.checksum) := by
  obtain ⟨length, _, block, _, parts⟩ := exists_parts opened
  obtain ⟨_, _, declared, cut, words, count, holds, sum⟩ := sound
  cases declared.symm.trans parts.declaredStack
  cases cut.symm.trans parts.cutStack
  have balanced := checksumResidue_eq count holds
  obtain ⟨stack, readable, stands, same⟩ :=
    (StackBlock.read_overwritten block word).exists_right parts.readable
  have secondAgain : stack.version.isTwo = true := by
    rw [same]
    exact second
  have stored : stack.checksum = word := by
    rw [same]
    exact if_pos second
  have field : block.unsigned 4 (4 * 0x1C) = .ok file.stack.checksum.toNat := stands second
  have added :=
    (StackBlock.changedAt_overwritten (by decide) field word).checksumResidue_eq balanced
  rw [sum, UInt32.zero_sub, UInt32.add_comm, UInt32.add_neg_eq_sub] at added
  have broken : word - file.stack.checksum ≠ 0 := by
    rw [Ne, UInt32.sub_eq_iff_eq_add, UInt32.zero_add]
    exact differs
  have before : word - (word - file.stack.checksum) = file.stack.checksum := by
    rw [UInt32.sub_eq_iff_eq_add, UInt32.add_comm, UInt32.sub_add_cancel]
  have failed := checkStack_of_broken verifies secondAgain added broken
  rw [stored, before] at failed
  -- The file begins with the same length, so the block with the word is the one that is checked.
  have alike := data.alikeApart_overwritten 0x70 (bigEndian 4 word.toNat)
  have cutAgain := @Window.sub_overwritten _ _ _ (bigEndian 4 word.toNat) _ 0x70 cut
  rw [Nat.zero_add] at cutAgain
  rw [read_eq_checkStack, valid, alike.unsigned (.inl (by decide)), declared]
  simp only [bind, Except.bind, liftM_ok, cutAgain, readable]
  rw [failed]

end StackFile

/-- A file of the second generation opens, and is sound, with this checksum of its stack block. -/
theorem exists_read_sparse : ∃ file,
    StackFile.read (.ofArray sparseLayout.bytes.toArray) {} = .ok file ∧
      file.stack.version.isTwo = true ∧ file.stack.checksum = 0xACABB8A7 := by
  have readable : ∃ stack, StackBlock.read (.ofArray sparseLayout.stack.toArray) = .ok stack ∧
      stack.version.isTwo = true ∧ stack.checksum = 0xACABB8A7 :=
    exists_of_check (by decide +kernel)
  obtain ⟨stack, read, second, checksum⟩ := readable
  obtain ⟨file, opened, same, _⟩ := sparseLayout_wellFormed.exists_read read
    (show Configuration.validate {} = .ok () from rfl) rfl
  rw [← same] at second checksum
  exact ⟨file, opened, second, checksum⟩

/-- A stack block whose checksum was changed, and a list with a wrong one, are reported with the
words that repair them. -/
theorem reported_checksum_repairs_damaged :
    let strict : Configuration := { verifyChecksums := true }
    let changed := Window.overwritten (.ofArray sparseLayout.bytes.toArray) 0x70
      (bigEndian 4 (1 : UInt32).toNat)
    let damaged := Window.ofArray damagedFile.toArray
    StackFile.read changed strict = .error (.checksumMismatch .stack (-1) 1 0xACABB8A7) ∧
      (∃ block, changed.unsigned 4 0 = .ok block.length ∧
        Checked.stack.IsRepairedBy .two changed 0 block 1 0xACABB8A7) ∧
      ∃ file, StackFile.read damaged strict = .ok file ∧
        (file.list.run []).1 = .error (.checksumMismatch .list 5 1 0) ∧
        ∃ checked block offset, file.Checks .list checked ∧
          file.locate .list 5 file.records = .ok block ∧
          checked.IsRepairedBy file.version damaged offset block.window 1 0 := by
  intro strict changed damaged
  obtain ⟨sparse, opened, second, checksum⟩ := exists_read_sparse
  have refused := StackFile.read_damaged opened second isSound_sparse
    (show strict.validate = .ok () from rfl) rfl
    (show (1 : UInt32) ≠ sparse.stack.checksum by rw [checksum]; decide)
  rw [checksum] at refused
  obtain ⟨_, block, declared, _, repaired, _⟩ :=
    (StackFile.reported_checksum_repairs changed strict).1 _ _ _ _ refused
  have failing : ∃ file, StackFile.read damaged strict = .ok file ∧
      (file.list.run []).1 = .error (.checksumMismatch .list 5 1 0) :=
    exists_of_check (by decide +kernel)
  obtain ⟨file, read, failed⟩ := failing
  obtain ⟨checked, found, offset, checks, _, located, _, mended⟩ :=
    (StackFile.reported_checksum_repairs damaged strict).2 file read [] .list _ _ _ _ failed
  exact ⟨refused, ⟨block, declared, repaired⟩, file, read, failed, checked, found, offset, checks,
    located, mended⟩

end HyperCard
