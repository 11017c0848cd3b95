import HyperCard.Proofs.Archive.Listing
import HyperCard.Proofs.Block.Directory
import HyperCard.Proofs.Block.Layer

/-!
# The order of cards

The stack block names the list, the list names the pages, and the pages name the cards. Each of
these blocks is looked for in the directory, which may list them in any order. The cards of a stack
come in the order of its pages, however the file is opened and whatever it was asked before.
-/
namespace HyperCard

open RasterStream (wordBytes)
open Window (bigEndian signedWord)

namespace StackFile

section Listing

variable {file : StackFile} {pages : List StoredPage} {stride : UInt16}

/-- Whether a file has the pages of a list, in their order, with entries at a distance. -/
structure HasPages (file : StackFile) (pages : List StoredPage) (stride : UInt16) : Prop where
  /-- The distance leaves room for an entry. -/
  wide : 6 ≤ stride.toNat
  /-- The number of pages can be given. -/
  few : pages.length < 0x100000000
  /-- So can the number of cards of each page. -/
  short : ∀ page ∈ pages, page.cards.length < 0x10000
  /-- The stack block names the list. -/
  list : ∃ window, file.Lists .list file.stack.listId window ∧ IsListOf pages stride window
  /-- The directory lists the pages. -/
  page : ∀ page ∈ pages, ∃ window, file.Lists .page page.identifier.toInt window ∧
    page.IsHeld stride.toNat window

/-- The list is found and passes its check, and it names the pages in their order. -/
theorem HasPages.gives_list (has : file.HasPages pages stride) (second : file.version = .two) :
    ∃ list, file.Gives file.list (.ok list) ∧ list.pages = pages.map StoredPage.reference ∧
      list.cardReferenceSize = stride.toNat := by
  obtain ⟨window, lists, isList⟩ := has.list
  obtain ⟨list, read, order, size, sound⟩ := isList.exists_read has.few has.short
  refine ⟨list, ?_, order, size⟩
  rw [← second] at read
  have fits : (file.configuration.verifyChecksums && !list.isChecksumValid) = false := by
    rw [sound, Bool.not_true, Bool.and_false]
  exact lists.gives_checked read fits

/-- Each page that the list names is found and passes its check, and it holds its entries. -/
theorem HasPages.gives_page (has : file.HasPages pages stride) (second : file.version = .two)
    {list : ListBlock} (size : list.cardReferenceSize = stride.toNat) {page : StoredPage}
    (mem : page ∈ pages) :
    ∃ block, file.Gives (file.page page.reference list) (.ok block) ∧
      block.cards = page.entries := by
  obtain ⟨window, lists, isHeld⟩ := has.page page mem
  obtain ⟨block, read, cards, sound⟩ := isHeld.exists_read has.wide
  refine ⟨block, ?_, cards⟩
  rw [← second, ← size] at read
  have fits : (file.configuration.verifyChecksums && !block.isChecksumValid) = false := by
    rw [sound, Bool.not_true, Bool.and_false]
  exact lists.gives_checked read fits

/-- The entries of the pages come one page after the other. -/
theorem HasPages.gives_entriesOfPages (has : file.HasPages pages stride)
    (second : file.version = .two) {list : ListBlock} (size : list.cardReferenceSize = stride.toNat)
    {some : List StoredPage} (among : ∀ page ∈ some, page ∈ pages) :
    file.Gives (file.entriesOfPages list (some.map StoredPage.reference))
      (.ok (some.flatMap StoredPage.entries)) := by
  induction some with
  | nil => exact gives_result (.ok [])
  | cons page rest ih =>
    obtain ⟨block, given, cards⟩ := has.gives_page second size (among page List.mem_cons_self)
    have later := ih fun other mem => among other (List.mem_cons_of_mem _ mem)
    rw [List.flatMap_cons, ← cards]
    exact given.bind (later.bind (gives_result (.ok _)))

/-- The entries of all cards come in the order of the pages. -/
theorem HasPages.gives_cardReferences (has : file.HasPages pages stride)
    (second : file.version = .two) :
    file.Gives file.cardReferences (.ok (pages.flatMap StoredPage.entries)) := by
  obtain ⟨list, given, order, size⟩ := has.gives_list second
  apply given.bind
  rw [order]
  exact has.gives_entriesOfPages second size fun _ mem => mem

/-- Whether a card is read from the block that the directory lists for an entry. -/
def IsCardOf (file : StackFile) (entry : CardEntry) (card : CardBlock) : Prop :=
  ∃ window, file.Lists .card entry.identifier window ∧
    CardBlock.read window file.version = .ok card

/-- The cards come in the order of the entries. -/
theorem exists_cardsOfEntries {entries : List CardEntry}
    (readable : ∀ entry ∈ entries, ∃ card, file.IsCardOf entry card) :
    ∃ cards, file.Gives (file.cardsOfEntries entries) (.ok cards) ∧
      List.Forall₂ file.IsCardOf entries cards := by
  induction entries with
  | nil => exact ⟨[], gives_result (.ok []), .nil⟩
  | cons entry entries ih =>
    obtain ⟨card, window, lists, read⟩ := readable entry List.mem_cons_self
    obtain ⟨cards, given, same⟩ := ih fun other mem => readable other (List.mem_cons_of_mem _ mem)
    have found : file.Gives (file.card entry.identifier) (.ok card) := lists.gives_read read
    exact ⟨card :: cards, found.bind (given.bind (gives_result (.ok _))),
      .cons ⟨window, lists, read⟩ same⟩

section Settings

variable (configuration : Configuration)

/-- Whether a file has the pages of a list does not depend on the settings. -/
theorem HasPages.withSettings (has : file.HasPages pages stride) :
    HasPages { file with configuration } pages stride where
  wide := has.wide
  few := has.few
  short := has.short
  list := by
    obtain ⟨window, lists, isList⟩ := has.list
    exact ⟨window, lists.withSettings configuration, isList⟩
  page page mem := by
    obtain ⟨window, lists, isHeld⟩ := has.page page mem
    exact ⟨window, lists.withSettings configuration, isHeld⟩

/-- Nor does the card of an entry. -/
theorem IsCardOf.withSettings {entry : CardEntry} {card : CardBlock}
    (isCard : file.IsCardOf entry card) : IsCardOf { file with configuration } entry card := by
  obtain ⟨window, lists, read⟩ := isCard
  exact ⟨window, lists.withSettings configuration, read⟩

end Settings

/-- **The order of cards.** In a file of the second generation that can be opened, where the stack
block names a list, the list names pages with their numbers of cards, the pages hold the entries of
cards at a distance of six bytes or more, and the directory leads to the list, to each page and to
each card, all entries come in the order of the pages and all cards in the order of the entries.
This holds with all settings, those included that check all checksums, and whatever is
remembered. -/
theorem cards_in_order {data : Window} {file : StackFile} (opened : read data {} = .ok file)
    (second : file.version = .two) (sound : IsSound data) {pages : List StoredPage}
    {stride : UInt16} (has : file.HasPages pages stride)
    (readable : ∀ page ∈ pages, ∀ entry ∈ page.entries, ∃ card, file.IsCardOf entry card)
    {configuration : Configuration} (valid : configuration.validate = .ok ()) :
    ∃ later, read data configuration = .ok later ∧
      later.Gives later.cardReferences (.ok (pages.flatMap StoredPage.entries)) ∧
      ∃ cards, later.Gives later.cards (.ok cards) ∧
        List.Forall₂ later.IsCardOf (pages.flatMap StoredPage.entries) cards := by
  refine ⟨_, read_with opened sound valid, ?_⟩
  have references := (has.withSettings configuration).gives_cardReferences second
  refine ⟨references, ?_⟩
  have each : ∀ entry ∈ pages.flatMap StoredPage.entries,
      ∃ card, IsCardOf { file with configuration } entry card := by
    intro entry mem
    obtain ⟨page, among, mem⟩ := List.mem_flatMap.mp mem
    obtain ⟨card, isCard⟩ := readable page among entry mem
    exact ⟨card, isCard.withSettings configuration⟩
  obtain ⟨cards, given, same⟩ := exists_cardsOfEntries each
  exact ⟨cards, references.bind given, same⟩

end Listing

end StackFile

/-- Three pages, of which the first and the last have no cards. -/
def sparsePages : List StoredPage := [⟨7, []⟩, ⟨6, [⟨9, 0x9000⟩, ⟨8, 0x2FFF⟩]⟩, ⟨-1, []⟩]

/-- The bytes of a block before its contents. -/
def headerBytes (length : Nat) (tag : TypeCode) (identifier : Int32) : List UInt8 :=
  bigEndian 4 length ++ bigEndian 4 tag.number.toNat ++ signedWord identifier

/-- The list of the pages, with entries of eight bytes. -/
def sparseList : List UInt8 :=
  headerBytes 66 .list 5 ++ List.replicate 4 0 ++ bigEndian 4 3 ++ List.replicate 8 0 ++
    bigEndian 2 8 ++ List.replicate 6 0 ++
    bigEndian 4 (StoredPage.checksumOfList sparsePages).toNat ++ List.replicate 8 0 ++
    sparsePages.flatMap StoredPage.bytes

/-- A page with entries of eight bytes. -/
def sparsePage (page : StoredPage) : List UInt8 :=
  headerBytes (24 + 8 * page.cards.length) .page page.identifier ++ List.replicate 4 0 ++
    signedWord 5 ++ bigEndian 4 page.checksum.toNat ++
    page.cards.flatMap fun card => card.bytes ++ [0xAB, 0xCD]

/-- A card without parts and texts. -/
def bareCard (identifier : Int32) : LayerLayout .two where
  heading := ⟨#[0, 0, 0, 56, 0x43, 0x41, 0x52, 0x44], rfl⟩
  identifier
  added := .replicate 4 0
  bitmapId := 0
  flags := 0
  kind := .card (.replicate 10 0) 6 1
  nextAvailableId := 1
  parts := []
  contents := []
  name := []
  script := []

/-- A window with the bytes of a bare card is read as a card. -/
theorem exists_bareCard {window : Window} {identifier : Int32}
    (holds : window.Holds 0 (bareCard identifier).bytes) :
    ∃ card, CardBlock.read window .two = .ok card := by
  have wellFormed : (bareCard identifier).WellFormed := by
    constructor <;> simp [bareCard, LayerLayout.contentBytes, storedFrom]
  obtain ⟨layer, read, _⟩ := wellFormed.exists_layer holds
  have long := holds.le_length (List.append_ne_nil_of_right_ne_nil _ (by simp))
  have size : (bareCard identifier).bytes.length = 56 := rfl
  obtain ⟨pageId, readPage⟩ := @Window.exists_signed window 0x20 4 (by omega)
  obtain ⟨backgroundId, readBackground⟩ := @Window.exists_signed window 0x24 4 (by omega)
  have read : LayerBlock.read window .two 0x36 = .ok layer := read
  refine ⟨⟨layer, pageId, backgroundId⟩, ?_⟩
  simp only [CardBlock.read, FormatVersion.shift, read, readPage, readBackground, bind, Except.bind,
    liftM_ok]
  rfl

/-- The stack block of a file with these pages. -/
def sparseStack : List UInt32 :=
  [0x600, 0x5354414B, 0xFFFFFFFF, 0, 10] ++ List.replicate 8 0 ++ [5] ++ List.replicate 14 0 ++
    [0xACABB8A7] ++ List.replicate 355 0

/-- A file with these pages, whose directory lists the cards before the pages. -/
def sparseLayout : StackLayout where
  stack := sparseStack.flatMap wordBytes
  flags := Fin.last 15
  heading := ⟨#[0x4D, 0x41, 0x53, 0x54, 0xFF, 0xFF, 0xFF, 0xFF, 0, 0, 0, 0, 0, 0, 0, 0, 0, 0, 0, 0,
    0, 0, 0, 0, 0, 0, 0, 7], rfl⟩
  slots := [.block 5, .block 4, .stray 0, .block 3, .block 1, .block 0, .block 2]
  remainder := []
  filler := [0, 0, 0, 0]
  blocks := [
    { bytes := sparseList
      header := by decide
      declares := by decide
      filler := List.replicate 30 0
      filled := by decide },
    { bytes := sparsePage ⟨7, []⟩
      header := by decide
      declares := by decide
      filler := List.replicate 8 0
      filled := by decide },
    { bytes := sparsePage ⟨6, [⟨9, 0x9000⟩, ⟨8, 0x2FFF⟩]⟩
      header := by decide
      declares := by decide
      filler := List.replicate 24 0
      filled := by decide },
    { bytes := sparsePage ⟨-1, []⟩
      header := by decide
      declares := by decide
      filler := List.replicate 8 0
      filled := by decide },
    { bytes := (bareCard 9).bytes
      header := by decide
      declares := by decide
      filler := List.replicate 8 0
      filled := by decide },
    { bytes := (bareCard 8).bytes
      header := by decide
      declares := by decide
      filler := List.replicate 8 0
      filled := by decide }]

/-- The layout with pages without cards is well formed. -/
theorem sparseLayout_wellFormed : sparseLayout.WellFormed where
  declares := by decide +kernel
  aligned := by decide +kernel
  filled := by decide +kernel
  distinct := by decide +kernel
  complete := by decide +kernel
  stray := by
    intro word mem
    have slots : DirectorySlot.stray word ∈ [DirectorySlot.block 5, .block 4, .stray 0, .block 3,
      .block 1, .block 0, .block 2] := mem
    obtain rfl : word = 0 := by simpa using slots
    exact .inl rfl
  near := by decide +kernel
  short := by decide +kernel
  last := by decide +kernel

/-- Its stack block is one of the second generation and names the list. -/
theorem readable_sparse : (StackBlock.read (.ofArray sparseLayout.stack.toArray)).toOption.map
    (fun stack => (stack.version, stack.listId)) = some (.two, 5) := by
  decide +kernel

/-- Each page is a block of the layout. -/
theorem sparsePages_stored : ∀ page ∈ sparsePages,
    (∃ index : Fin sparseLayout.blocks.length,
      sparseLayout.blocks[index.val].key = (.page, page.identifier.toInt) ∧
      sparseLayout.blocks[index.val].bytes = sparsePage page) ∧
    ((sparsePage page).drop 0x14).take 4 = bigEndian 4 page.checksum.toNat ∧
    ∀ index (inside : index < (page.cards.map StoredEntry.bytes).length),
      ((sparsePage page).drop (0x18 + 8 * index)).take
        (page.cards.map StoredEntry.bytes)[index].length =
          (page.cards.map StoredEntry.bytes)[index] := by
  decide +kernel

/-- Each card is a block of the layout. -/
theorem sparseCards_stored : ∀ page ∈ sparsePages, ∀ card ∈ page.cards,
    ∃ index : Fin sparseLayout.blocks.length,
      sparseLayout.blocks[index.val].key = (.card, card.identifier.toInt) ∧
      sparseLayout.blocks[index.val].bytes = (bareCard card.identifier).bytes := by
  decide +kernel

section Sparse

variable {file : StackFile} (opened : sparseLayout.Opened file)

include opened in
/-- A file with the layout has its pages, with entries of eight bytes. -/
theorem hasPages_sparse (names : file.stack.listId = 5) : file.HasPages sparsePages 8 where
  wide := by decide
  few := by decide
  short := by decide
  list := by
    obtain ⟨window, holds, lists⟩ := @StackLayout.WellFormed.lists sparseLayout file 0
      sparseLayout_wellFormed opened (by decide) .list 5 (by decide +kernel)
    rw [names]
    refine ⟨window, lists, ?_⟩
    constructor
    case header =>
      have long := holds.le_length (List.ne_nil_of_length_pos (by decide))
      have size : sparseLayout.blocks[0].bytes.length = 66 := by decide +kernel
      omega
    case count => exact holds.piece 0x10 (by decide +kernel)
    case stride => exact holds.piece 0x1C (by decide +kernel)
    case checksum => exact holds.piece 0x24 (by decide +kernel)
    case pages =>
      intro index inside
      apply holds.piece
      revert index inside
      decide +kernel
  page page mem := by
    obtain ⟨⟨index, key, same⟩, checksum, cards⟩ := sparsePages_stored page mem
    obtain ⟨window, holds, lists⟩ := sparseLayout_wellFormed.lists opened index.isLt key
    rw [same] at holds
    exact ⟨window, lists, holds.piece 0x14 checksum, fun index inside =>
      holds.piece _ (cards index inside)⟩

include opened in
/-- Each entry of its pages leads to a card. -/
theorem isCardOf_sparse (second : file.version = .two) {page : StoredPage}
    (mem : page ∈ sparsePages) {entry : CardEntry} (among : entry ∈ page.entries) :
    ∃ card, file.IsCardOf entry card := by
  obtain ⟨card, listed, rfl⟩ := List.mem_map.mp among
  obtain ⟨index, key, same⟩ := sparseCards_stored page mem card listed
  obtain ⟨window, holds, lists⟩ := sparseLayout_wellFormed.lists opened index.isLt key
  rw [same] at holds
  obtain ⟨block, read⟩ := exists_bareCard holds
  rw [← second] at read
  exact ⟨block, window, lists, read⟩

end Sparse

/-- The file begins with words whose sum is zero. -/
theorem isSound_sparse : StackFile.IsSound (.ofArray sparseLayout.bytes.toArray) := by
  have nonempty : sparseLayout.stack ≠ [] := List.ne_nil_of_length_pos (by decide +kernel)
  obtain ⟨stack, cut, _⟩ := StackLayout.holds_stack.exists_sub nonempty
  exact ⟨_, stack, by decide +kernel, cut, sparseStack, by decide +kernel,
    StackLayout.holds_stack.sub cut (by decide +kernel), by decide +kernel⟩

/-- The cards come in the order of the pages, of which two have none, with all checksums checked and
nothing remembered. -/
theorem cards_in_order_sparse : ∃ file,
    StackFile.read (.ofArray sparseLayout.bytes.toArray)
      { verifyChecksums := true, cacheBlocks := false } = .ok file ∧
    (file.cardReferences.run []).1 =
      .ok [⟨9, true, false, false, true⟩, ⟨8, false, true, false, false⟩] ∧
    ∃ cards, (file.cards.run []).1 = .ok cards ∧ cards.length = 2 := by
  have readable := readable_sparse
  cases stack : StackBlock.read (.ofArray sparseLayout.stack.toArray) with
  | error error =>
    rw [stack] at readable
    cases readable
  | ok block =>
    rw [stack] at readable
    obtain ⟨version, names⟩ := Prod.mk.inj (Option.some.inj readable)
    obtain ⟨file, opened, same, isOpened⟩ := sparseLayout_wellFormed.exists_read stack
      (show Configuration.validate {} = .ok () from rfl) rfl
    obtain ⟨_, _, _, _, parts⟩ := StackFile.exists_parts opened
    have valid :
        Configuration.validate { verifyChecksums := true, cacheBlocks := false } = .ok () := rfl
    rw [← same] at version names
    have second := parts.version.trans version
    obtain ⟨later, openedLater, references, cards, given, all⟩ :=
      StackFile.cards_in_order opened second isSound_sparse (hasPages_sparse isOpened names)
        (fun page mem entry among => isCardOf_sparse isOpened second mem among) valid
    have empty : later.Recalls [] := fun _ remembered => nomatch remembered
    obtain ⟨_, runReferences, _⟩ := references [] empty
    obtain ⟨_, runCards, _⟩ := given [] empty
    refine ⟨later, openedLater, ?_, cards, ?_, all.length_eq.symm⟩
    · rw [runReferences]
      rfl
    · rw [runCards]

end HyperCard
