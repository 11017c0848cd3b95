import HyperCard.Archive.Version

/-!
# The directory of cards

The cards of a stack are listed in pages, and the pages in one list. The list gives the number
of cards of each page and the number of bytes of each entry; an entry begins with the identifier
of its card and four flags. Both blocks keep a checksum of what they list.
-/
namespace HyperCard

/-- A page of cards in the list. -/
structure PageReference where
  /-- The identifier of the page. -/
  identifier : Int
  /-- The number of its cards. -/
  cardCount : Nat
  deriving DecidableEq, Repr

/-- The list of pages. -/
structure ListBlock where
  /-- The identifier. -/
  identifier : Int
  /-- The number of pages. -/
  pageCount : Nat
  /-- The number of bytes of a page. -/
  pageSize : Nat
  /-- The number of cards. -/
  cardCount : Nat
  /-- The number of bytes of an entry of a page. -/
  cardReferenceSize : Nat
  /-- The number of search words of an entry. -/
  hashCount : Nat
  /-- A measure of the search words. -/
  hashValueCount : Nat
  /-- The stored checksum. -/
  checksum : UInt32
  /-- The number of entries of all pages. -/
  totalPageEntryCount : Nat
  /-- The pages in order. -/
  pages : List PageReference
  deriving DecidableEq, Repr

/-- The lowest 32 bits of a number in two's complement. -/
def wordOf (number : Int) : UInt32 := UInt32.ofNat (number % 0x100000000).toNat

/-- A word turned to the right by three bits. -/
def turnRight (word : UInt32) : UInt32 := word >>> 3 ||| word <<< 29

namespace ListBlock

/-- The page at an index of the list. -/
def readPage (data : Window) (index : Nat) : Except ReadError PageReference := do
  let offset := 0x30 + 6 * index
  return { identifier := ← data.signed 4 offset, cardCount := ← data.unsigned 2 (offset + 4) }

/-- The list block of a window. -/
def read (data : Window) (version : FormatVersion) : Except ArchiveError ListBlock := do
  let pageCount ← data.unsigned 4 (version.shift 0x10)
  let pages ← Window.collect (readPage data) 0 pageCount
  return {
    identifier := ← data.signed 4 0x08
    pageCount
    pageSize := ← data.unsigned 4 (version.shift 0x14)
    cardCount := ← data.unsigned 4 (version.shift 0x18)
    cardReferenceSize := ← data.unsigned 2 (version.shift 0x1C)
    hashCount := ← data.unsigned 2 (version.shift 0x20)
    hashValueCount := ← data.unsigned 2 (version.shift 0x22)
    checksum := UInt32.ofNat (← data.unsigned 4 (version.shift 0x24))
    totalPageEntryCount := ← data.unsigned 4 (version.shift 0x28)
    pages }

/-- The checksum of the pages. -/
def computedChecksum (list : ListBlock) : UInt32 :=
  list.pages.foldl (fun sum page =>
    turnRight (sum + wordOf page.identifier) + UInt32.ofNat page.cardCount) 0

/-- Whether the stored checksum fits the pages. -/
def isChecksumValid (list : ListBlock) : Bool := list.computedChecksum == list.checksum

end ListBlock

/-- A card in a page. -/
structure CardEntry where
  /-- The identifier of the card. -/
  identifier : Int
  /-- The card is marked. -/
  marked : Bool
  /-- The card has text in its fields. -/
  hasTextContent : Bool
  /-- The card is the first of its background. -/
  isStartOfBackground : Bool
  /-- The card has a name. -/
  hasName : Bool
  deriving DecidableEq, Repr

/-- A page of cards. -/
structure PageBlock where
  /-- The identifier. -/
  identifier : Int
  /-- The list that the page belongs to. -/
  listId : Int
  /-- The stored checksum. -/
  checksum : UInt32
  /-- The cards in order. -/
  cards : List CardEntry
  deriving DecidableEq, Repr

namespace PageBlock

/-- The card at an index of a page with entries of so many bytes. -/
def readCard (data : Window) (size index : Nat) : Except ReadError CardEntry := do
  let offset := 0x18 + size * index
  return {
    identifier := ← data.signed 4 offset
    marked := ← data.flag (offset + 4) 12
    hasTextContent := ← data.flag (offset + 4) 13
    isStartOfBackground := ← data.flag (offset + 4) 14
    hasName := ← data.flag (offset + 4) 15 }

/-- The page block of a window, with the number of cards and the number of bytes of an entry that
the list gives. Entries hold six bytes at least, unless there are none. -/
def read (data : Window) (version : FormatVersion) (cardCount cardReferenceSize : Nat) :
    Except ArchiveError PageBlock := do
  if cardReferenceSize < 6 ∧ 0 < cardCount then
    throw (.corrupt (.cardReferenceTooSmall cardReferenceSize))
  let cards ← Window.collect (readCard data cardReferenceSize) 0 cardCount
  return {
    identifier := ← data.signed 4 0x08
    listId := ← data.signed 4 (version.shift 0x10)
    checksum := UInt32.ofNat (← data.unsigned 4 (version.shift 0x14))
    cards }

/-- The checksum of the cards. -/
def computedChecksum (page : PageBlock) : UInt32 :=
  page.cards.foldl (fun sum card => turnRight (sum + wordOf card.identifier)) 0

/-- Whether the stored checksum fits the cards. -/
def isChecksumValid (page : PageBlock) : Bool := page.computedChecksum == page.checksum

end PageBlock
end HyperCard
