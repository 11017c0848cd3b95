import HyperCard.Block.Directory
import HyperCard.Proofs.Bytes.Writing

/-!
# Reading the directory of cards

The list holds a reference to each page, its identifier and the number of its cards, and a page
holds an entry for each card at a distance that the list gives. Where these bytes stand, and the
checksums with them, the list and its pages are read as what was written.
-/
namespace HyperCard

open Window (bigEndian signedWord)

/-- Whether records stand in a window, each so many bytes behind the one before. -/
def Window.HoldsEach (window : Window) (first stride : Nat) (records : List (List UInt8)) : Prop :=
  ∀ index (inside : index < records.length),
    window.Holds (first + stride * index) records[index]

/-- A word whose three lowest bits go to the front. -/
def rotated (word : UInt32) : UInt32 := ⟨word.toBitVec.rotateRight 3⟩

/-- A card of a page as it is stored. -/
structure StoredEntry where
  /-- The identifier of the card. -/
  identifier : Int32
  /-- The flags, of which the four highest are read. -/
  flags : UInt16

namespace StoredEntry

/-- What an entry begins with. -/
def bytes (stored : StoredEntry) : List UInt8 :=
  signedWord stored.identifier ++ bigEndian 2 stored.flags.toNat

/-- The entry that is read. -/
def entry (stored : StoredEntry) : CardEntry where
  identifier := stored.identifier.toInt
  marked := stored.flags.toNat.testBit 12
  hasTextContent := stored.flags.toNat.testBit 13
  isStartOfBackground := stored.flags.toNat.testBit 14
  hasName := stored.flags.toNat.testBit 15

end StoredEntry

/-- A page of cards as it is stored. -/
structure StoredPage where
  /-- The identifier of the page. -/
  identifier : Int32
  /-- The cards in order. -/
  cards : List StoredEntry

namespace StoredPage

/-- The bytes of a page in the list. -/
def bytes (page : StoredPage) : List UInt8 :=
  signedWord page.identifier ++ bigEndian 2 page.cards.length

/-- The page in the list. -/
def reference (page : StoredPage) : PageReference := ⟨page.identifier.toInt, page.cards.length⟩

/-- The entries that are read. -/
def entries (page : StoredPage) : List CardEntry := page.cards.map StoredEntry.entry

/-- The checksum of a page. -/
def checksum (page : StoredPage) : UInt32 :=
  page.cards.foldl (fun sum card => rotated (sum + card.identifier.toUInt32)) 0

/-- The checksum of a list of pages. -/
def checksumOfList (pages : List StoredPage) : UInt32 :=
  pages.foldl (fun sum page =>
    rotated (sum + page.identifier.toUInt32) + UInt32.ofNat page.cards.length) 0

/-- Whether a block is a page with entries at a distance. -/
structure IsHeld (page : StoredPage) (stride : Nat) (window : Window) : Prop where
  /-- The checksum fits. -/
  checksum : window.Holds 0x14 (bigEndian 4 page.checksum.toNat)
  /-- The entries stand behind the header. -/
  cards : window.HoldsEach 0x18 stride (page.cards.map StoredEntry.bytes)

end StoredPage

/-- Whether a block is the list of some pages with entries at a distance. -/
structure IsListOf (pages : List StoredPage) (stride : UInt16) (window : Window) : Prop where
  /-- The header is complete. -/
  header : 0x30 ≤ window.length
  /-- The list gives the number of pages. -/
  count : window.Holds 0x10 (bigEndian 4 pages.length)
  /-- It gives the distance of entries. -/
  stride : window.Holds 0x1C (bigEndian 2 stride.toNat)
  /-- The checksum fits. -/
  checksum : window.Holds 0x24 (bigEndian 4 (StoredPage.checksumOfList pages).toNat)
  /-- The pages stand behind the header. -/
  pages : window.HoldsEach 0x30 6 (pages.map StoredPage.bytes)

section Checksums

/-- The reader turns a word as the checksum of stored pages does. -/
theorem turnRight_eq (word : UInt32) : turnRight word = rotated word := rfl

/-- The word of a number with sign is its two's complement. -/
theorem wordOf_toInt (value : Int32) : wordOf value.toInt = value.toUInt32 := by
  have small : value.toUInt32.toNat < 0x100000000 := value.toUInt32.toNat_lt
  have number : value.toInt = if 2 * value.toUInt32.toNat < 0x100000000
      then (value.toUInt32.toNat : Int) else value.toUInt32.toNat - 0x100000000 :=
    BitVec.toInt_eq_toNat_cond value.toBitVec
  have same : (value.toInt % 0x100000000).toNat = value.toUInt32.toNat := by
    split at number <;> omega
  rw [wordOf, same, UInt32.ofNat_toNat]

/-- The checksum of a page that is read is that of the page. -/
theorem StoredPage.computedChecksum_eq (page : StoredPage) (identifier listId : Int)
    (checksum : UInt32) :
    PageBlock.computedChecksum ⟨identifier, listId, checksum, page.entries⟩ = page.checksum := by
  simp only [PageBlock.computedChecksum, StoredPage.entries, StoredPage.checksum, List.foldl_map,
    StoredEntry.entry, wordOf_toInt, turnRight_eq]

/-- So is that of a list. -/
theorem ListBlock.computedChecksum_eq {list : ListBlock} {pages : List StoredPage}
    (same : list.pages = pages.map StoredPage.reference) :
    list.computedChecksum = StoredPage.checksumOfList pages := by
  simp only [ListBlock.computedChecksum, same, StoredPage.checksumOfList, List.foldl_map,
    StoredPage.reference, wordOf_toInt, turnRight_eq]

end Checksums

namespace Window

variable {window : Window} {first stride : Nat}

/-- Where the bytes of records stand at a distance, each record stands at its multiple of it. -/
theorem HoldsEach.holds {β : Type} {bytes : β → List UInt8} {records : List β}
    (holds : window.HoldsEach first stride (records.map bytes)) {index : Nat}
    (inside : index < records.length) :
    window.Holds (first + stride * index) (bytes records[index]) := by
  have here := holds index (by rw [List.length_map]; exact inside)
  rw [List.getElem_map] at here
  exact here

end Window

variable {window : Window}

/-- A page of the list is read. -/
theorem ListBlock.readPage_eq {page : StoredPage} {index : Nat}
    (holds : window.Holds (0x30 + 6 * index) page.bytes) (few : page.cards.length < 0x10000) :
    readPage window index = .ok page.reference := by
  obtain ⟨identifier, count⟩ := holds.append
  rw [Window.length_signedWord] at count
  simp only [readPage, identifier.signed, count.unsigned (by decide) few, bind, Except.bind]
  rfl

/-- A card of a page is read. -/
theorem PageBlock.readCard_eq {card : StoredEntry} {stride index : Nat}
    (holds : window.Holds (0x18 + stride * index) card.bytes) :
    readCard window stride index = .ok card.entry := by
  obtain ⟨identifier, flags⟩ := holds.append
  rw [Window.length_signedWord] at flags
  have bit := flags.flag card.flags.toNat_lt
  simp only [readCard, identifier.signed, bit, bind, Except.bind]
  rfl

/-- The list is read, with its pages in order. -/
theorem IsListOf.exists_read {pages : List StoredPage} {stride : UInt16}
    (isList : IsListOf pages stride window) (few : pages.length < 0x100000000)
    (each : ∀ page ∈ pages, page.cards.length < 0x10000) :
    ∃ list, ListBlock.read window .two = .ok list ∧
      list.pages = pages.map StoredPage.reference ∧ list.cardReferenceSize = stride.toNat ∧
      list.isChecksumValid = true := by
  have long := isList.header
  obtain ⟨identifier, readIdentifier⟩ := @Window.exists_signed window 0x08 4 (by omega)
  obtain ⟨pageSize, readPageSize⟩ := @Window.exists_unsigned window 0x14 4 (by omega)
  obtain ⟨cardCount, readCardCount⟩ := @Window.exists_unsigned window 0x18 4 (by omega)
  obtain ⟨hashCount, readHashCount⟩ := @Window.exists_unsigned window 0x20 2 (by omega)
  obtain ⟨hashValueCount, readHashValueCount⟩ := @Window.exists_unsigned window 0x22 2 (by omega)
  obtain ⟨totalPageEntryCount, readTotal⟩ := @Window.exists_unsigned window 0x28 4 (by omega)
  have readPages : Window.collect (ListBlock.readPage window) 0 pages.length =
      .ok (pages.map StoredPage.reference) :=
    Window.collect_map fun index inside =>
      ListBlock.readPage_eq (isList.pages.holds inside) (each _ (List.getElem_mem inside))
  have readCount := isList.count.unsigned (by decide) few
  have readStride := isList.stride.unsigned (by decide) stride.toNat_lt
  have readChecksum :=
    isList.checksum.unsigned (by decide) (StoredPage.checksumOfList pages).toNat_lt
  refine ⟨{
    identifier
    pageCount := pages.length
    pageSize
    cardCount
    cardReferenceSize := stride.toNat
    hashCount
    hashValueCount
    checksum := UInt32.ofNat (StoredPage.checksumOfList pages).toNat
    totalPageEntryCount
    pages := pages.map StoredPage.reference }, ?_, rfl, rfl, ?_⟩
  · simp only [ListBlock.read, FormatVersion.shift, readIdentifier, readCount, readPageSize,
      readCardCount, readStride, readHashCount, readHashValueCount, readChecksum, readTotal,
      readPages, bind, Except.bind, liftM_ok]
    rfl
  · rw [ListBlock.isChecksumValid, ListBlock.computedChecksum_eq rfl, UInt32.ofNat_toNat]
    exact beq_self_eq_true _

/-- A page is read, with its entries in order. -/
theorem StoredPage.IsHeld.exists_read {page : StoredPage} {stride : Nat}
    (isHeld : page.IsHeld stride window) (wide : 6 ≤ stride) :
    ∃ block, PageBlock.read window .two page.cards.length stride = .ok block ∧
      block.cards = page.entries ∧ block.isChecksumValid = true := by
  have last := isHeld.checksum 3 (by rw [Window.length_bigEndian]; decide)
  have long := (Window.byte_eq_ok last).1
  obtain ⟨identifier, readIdentifier⟩ := @Window.exists_signed window 0x08 4 (by omega)
  obtain ⟨listId, readListId⟩ := @Window.exists_signed window 0x10 4 (by omega)
  have readCards : Window.collect (PageBlock.readCard window stride) 0 page.cards.length =
      .ok page.entries :=
    Window.collect_map fun index inside => PageBlock.readCard_eq (isHeld.cards.holds inside)
  have readChecksum := isHeld.checksum.unsigned (by decide) page.checksum.toNat_lt
  have enough : ¬(stride < 6 ∧ 0 < page.cards.length) := by omega
  refine ⟨⟨identifier, listId, UInt32.ofNat page.checksum.toNat, page.entries⟩, ?_, rfl, ?_⟩
  · simp only [PageBlock.read, FormatVersion.shift, if_neg enough, readCards, readIdentifier,
      readListId, readChecksum, bind, Except.bind, liftM_ok]
    rfl
  · rw [PageBlock.isChecksumValid, StoredPage.computedChecksum_eq, UInt32.ofNat_toNat]
    exact beq_self_eq_true _

end HyperCard
