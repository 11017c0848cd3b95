import HyperCard.Block.Directory
import HyperCard.Proofs.Bytes.Lengthening

/-!
# The directory in both generations

The fields of a list and of a page stand four bytes earlier in the first generation of the format
than in the second one, but what they list is looked for at the same offset in both. So a block of
the first generation, with any four bytes put in behind its header, is the same block of the second
one only as far as its fields go. The lengthened block lists what stands four bytes before the place
where the shorter one is read. Both agree exactly when the entries at the two places do.
-/
namespace HyperCard

open Window (IsLengthened FourLater)

section Reads

variable {ε δ α β γ : Type}

/-- Two computations that come to the same agree with the same others. -/
theorem BothOrNeither.congr_right {first : Except ε α} {second other : Except δ α}
    (same : BothOrNeither Eq other second) :
    BothOrNeither Eq first second ↔ BothOrNeither Eq first other := by
  cases same with
  | ok held => rw [held]
  | error =>
    constructor
    all_goals
      intro ended
      cases ended
      exact .error

/-- What succeeds agrees only with what has the same result. -/
theorem BothOrNeither.eq_ok {first : Except ε α} {second : Except δ α} {value : α}
    (alike : BothOrNeither Eq first second) (done : first = .ok value) : second = .ok value := by
  subst done
  cases alike with
  | ok same => rw [same]

/-- Values from which different results follow, if they are different, agree exactly when the
results do. -/
theorem BothOrNeither.bind_iff {first second : Except ReadError α}
    {next : α → Except ArchiveError β} (part : β → α)
    (succeeds : first = second ∨ ∀ value, first = .ok value ∨ second = .ok value →
      ∃ result, next value = .ok result ∧ part result = value) :
    BothOrNeither Eq (liftM first >>= next) (liftM second >>= next) ↔
      BothOrNeither Eq first second := by
  constructor
  · intro ended
    rcases succeeds with rfl | succeeds
    · exact .of_eq rfl
    · cases first with
      | error failure =>
        cases second with
        | error other => exact .error
        | ok value =>
          obtain ⟨result, done, _⟩ := succeeds value (.inr rfl)
          have done : (liftM (Except.ok value : Except ReadError α) >>= next) = .ok result := done
          rw [done] at ended
          cases ended
      | ok value =>
        obtain ⟨result, done, given⟩ := succeeds value (.inl rfl)
        have done : (liftM (Except.ok value : Except ReadError α) >>= next) = .ok result := done
        rw [done] at ended
        cases second with
        | error failure => cases ended
        | ok other =>
          obtain ⟨also, doneAlso, givenAlso⟩ := succeeds other (.inr rfl)
          have doneAlso : (liftM (Except.ok other : Except ReadError α) >>= next) = .ok also :=
            doneAlso
          rw [doneAlso] at ended
          cases ended with
          | ok same => exact .ok (by rw [← given, ← givenAlso, same])
  · intro alike
    exact alike.lift.bind_eq fun value => .of_eq rfl

/-- The first of several records is read before the others. -/
theorem Window.exists_first {read : Nat → Except ReadError α} {count : Nat} {values : List α}
    (done : collect read 0 count = .ok values) (some : 0 < count) :
    ∃ value, read 0 = .ok value := by
  cases count with
  | zero => exact absurd some (Nat.lt_irrefl 0)
  | succ count =>
    obtain ⟨value, found, _⟩ := exists_of_bind done
    exact ⟨value, found⟩

end Reads

namespace ListBlock

/-- The page that stands at an offset. -/
def pageAt (data : Window) (offset : Nat) : Except ReadError PageReference := do
  return { identifier := ← data.signed 4 offset, cardCount := ← data.unsigned 2 (offset + 4) }

/-- So many pages from an offset on. -/
def pagesFrom (data : Window) (first count : Nat) : Except ReadError (List PageReference) :=
  Window.collect (fun index => pageAt data (first + 6 * index)) 0 count

/-- The list with a number of pages and with the pages. -/
def withPages (data : Window) (version : FormatVersion) (pageCount : Nat)
    (pages : List PageReference) : Except ArchiveError ListBlock := do
  return {
    identifier := ← data.signed 4 0x08
    pageCount
    pageSize := ← data.unsigned 4 (version.shift 0x14)
    cardCount := ← data.unsigned 4 (version.shift 0x18)
    cardReferenceSize := ← data.unsigned 2 (version.shift 0x1C)
    hashCount := ← data.unsigned 2 (version.shift 0x20)
    hashValueCount := ← data.unsigned 2 (version.shift 0x22)
    checksum := UInt32.ofNat (← data.unsigned 4 (version.shift 0x24))
    totalPageEntryCount := ← data.unsigned 4 (version.shift 0x28)
    pages }

/-- The list whose pages begin at an offset. -/
def readFrom (first : Nat) (data : Window) (version : FormatVersion) :
    Except ArchiveError ListBlock := do
  let pageCount ← data.unsigned 4 (version.shift 0x10)
  let pages ← pagesFrom data first pageCount
  withPages data version pageCount pages

/-- In both generations the pages begin at the same offset. -/
theorem read_eq (data : Window) (version : FormatVersion) :
    read data version = readFrom 0x30 data version := rfl

variable {short long : Window} {first later : Nat}

/-- The pages from an offset on are those from four bytes later on in the lengthened block. -/
theorem pagesFrom_lengthened (lengthened : IsLengthened short long)
    (four : FourLater first later) (count : Nat) :
    BothOrNeither Eq (pagesFrom short first count) (pagesFrom long later count) := by
  apply BothOrNeither.collect
  intro index
  refine (lengthened.signed (four.add (6 * index)) 4).bind_eq fun identifier => ?_
  refine (lengthened.unsigned ((four.add (6 * index)).add 4) 2).bind_eq fun cardCount => ?_
  exact .ok rfl

/-- All fields of the list stand behind its header, so they are read four bytes further on. -/
theorem withPages_lengthened (lengthened : IsLengthened short long) (pageCount : Nat)
    (pages : List PageReference) :
    BothOrNeither Eq (withPages short .one pageCount pages)
      (withPages long .two pageCount pages) := by
  refine lengthened.identifier.lift.bind_eq fun identifier => ?_
  refine (lengthened.unsigned (.of_shift (by decide)) 4).lift.bind_eq fun pageSize => ?_
  refine (lengthened.unsigned (.of_shift (by decide)) 4).lift.bind_eq fun cardCount => ?_
  refine (lengthened.unsigned (.of_shift (by decide)) 2).lift.bind_eq fun referenceSize => ?_
  refine (lengthened.unsigned (.of_shift (by decide)) 2).lift.bind_eq fun hashCount => ?_
  refine (lengthened.unsigned (.of_shift (by decide)) 2).lift.bind_eq fun hashValueCount => ?_
  refine (lengthened.unsigned (.of_shift (by decide)) 4).lift.bind_eq fun checksum => ?_
  refine (lengthened.unsigned (.of_shift (by decide)) 4).lift.bind_eq fun total => ?_
  exact .ok rfl

/-- The lengthened block is the list whose pages begin four bytes earlier. -/
theorem readFrom_lengthened (lengthened : IsLengthened short long)
    (four : FourLater first later) :
    BothOrNeither Eq (readFrom first short .one) (readFrom later long .two) := by
  refine (lengthened.unsigned (.of_shift (by decide)) 4).lift.bind_eq fun pageCount => ?_
  refine (pagesFrom_lengthened lengthened four pageCount).lift.bind_eq fun pages => ?_
  exact withPages_lengthened lengthened pageCount pages

/-- A list with a page has all its fields in front of it. -/
theorem exists_withPages {count : Nat} {pages : List PageReference} {data : Window}
    (found : pagesFrom data first count = .ok pages) (some : 0 < count) (behind : 0x28 ≤ first) :
    ∃ list, withPages data .one count pages = .ok list ∧ list.pages = pages := by
  obtain ⟨page, read⟩ := Window.exists_first found some
  obtain ⟨_, identified, _⟩ := exists_of_bind read
  have long := Window.le_of_signed identified
  obtain ⟨identifier, readIdentifier⟩ := @Window.exists_signed data 0x08 4 (by omega)
  obtain ⟨pageSize, readPageSize⟩ := @Window.exists_unsigned data 0x10 4 (by omega)
  obtain ⟨cardCount, readCardCount⟩ := @Window.exists_unsigned data 0x14 4 (by omega)
  obtain ⟨referenceSize, readReferenceSize⟩ := @Window.exists_unsigned data 0x18 2 (by omega)
  obtain ⟨hashCount, readHashCount⟩ := @Window.exists_unsigned data 0x1C 2 (by omega)
  obtain ⟨hashValueCount, readHashValueCount⟩ := @Window.exists_unsigned data 0x1E 2 (by omega)
  obtain ⟨checksum, readChecksum⟩ := @Window.exists_unsigned data 0x20 4 (by omega)
  obtain ⟨total, readTotal⟩ := @Window.exists_unsigned data 0x24 4 (by omega)
  refine ⟨{
    identifier
    pageCount := count
    pageSize
    cardCount
    cardReferenceSize := referenceSize
    hashCount
    hashValueCount
    checksum := UInt32.ofNat checksum
    totalPageEntryCount := total
    pages }, ?_, rfl⟩
  simp only [withPages, FormatVersion.shift, readIdentifier, readPageSize, readCardCount,
    readReferenceSize, readHashCount, readHashValueCount, readChecksum, readTotal, bind,
    Except.bind, liftM_ok]
  rfl

/-- A list is the same with its pages at either of two offsets exactly when the pages are. -/
theorem readFrom_alike_iff {other : Nat} {data : Window} (behind : 0x28 ≤ first)
    (also : 0x28 ≤ other) :
    BothOrNeither Eq (readFrom first data .one) (readFrom other data .one) ↔
      ∀ count, data.unsigned 4 (FormatVersion.one.shift 0x10) = .ok count →
        BothOrNeither Eq (pagesFrom data first count) (pagesFrom data other count) := by
  unfold readFrom
  cases counted : data.unsigned 4 (FormatVersion.one.shift 0x10) with
  | error violation => exact iff_of_true .error fun _ found => nomatch found
  | ok count =>
    have iff := @BothOrNeither.bind_iff _ _ (pagesFrom data first count)
      (pagesFrom data other count) (withPages data .one count) (·.pages) <| by
        by_cases some : 0 < count
        · refine .inr fun pages found => ?_
          rcases found with found | found
          · exact exists_withPages found some behind
          · exact exists_withPages found some also
        · obtain rfl : count = 0 := by omega
          exact .inl rfl
    refine iff.trans ⟨fun alike _ found => ?_, fun alike => alike count rfl⟩
    cases found
    exact alike

end ListBlock

namespace PageBlock

/-- The card that stands at an offset. -/
def cardAt (data : Window) (offset : Nat) : Except ReadError CardEntry := do
  return {
    identifier := ← data.signed 4 offset
    marked := ← data.flag (offset + 4) 12
    hasTextContent := ← data.flag (offset + 4) 13
    isStartOfBackground := ← data.flag (offset + 4) 14
    hasName := ← data.flag (offset + 4) 15 }

/-- So many cards from an offset on, each so many bytes behind the one before. -/
def cardsFrom (data : Window) (first size count : Nat) : Except ReadError (List CardEntry) :=
  Window.collect (fun index => cardAt data (first + size * index)) 0 count

/-- The page with its cards. -/
def withCards (data : Window) (version : FormatVersion) (cards : List CardEntry) :
    Except ArchiveError PageBlock := do
  return {
    identifier := ← data.signed 4 0x08
    listId := ← data.signed 4 (version.shift 0x10)
    checksum := UInt32.ofNat (← data.unsigned 4 (version.shift 0x14))
    cards }

/-- The page whose cards begin at an offset. -/
def readFrom (first : Nat) (data : Window) (version : FormatVersion) (count size : Nat) :
    Except ArchiveError PageBlock :=
  if size < 6 ∧ 0 < count then throw (.corrupt (.cardReferenceTooSmall size))
  else do
    let cards ← cardsFrom data first size count
    withCards data version cards

/-- In both generations the cards begin at the same offset. -/
theorem read_eq (data : Window) (version : FormatVersion) (count size : Nat) :
    read data version count size = readFrom 0x18 data version count size := by
  unfold read readFrom
  split <;> rfl

variable {short long : Window} {first later : Nat}

/-- The cards from an offset on are those from four bytes later on in the lengthened block. -/
theorem cardsFrom_lengthened (lengthened : IsLengthened short long) (four : FourLater first later)
    (size count : Nat) :
    BothOrNeither Eq (cardsFrom short first size count) (cardsFrom long later size count) := by
  apply BothOrNeither.collect
  intro index
  have place := four.add (size * index)
  refine (lengthened.signed place 4).bind_eq fun identifier => ?_
  refine (lengthened.flag (place.add 4) 12).bind_eq fun marked => ?_
  refine (lengthened.flag (place.add 4) 13).bind_eq fun hasTextContent => ?_
  refine (lengthened.flag (place.add 4) 14).bind_eq fun isStartOfBackground => ?_
  refine (lengthened.flag (place.add 4) 15).bind_eq fun hasName => ?_
  exact .ok rfl

/-- So are all fields of the page. -/
theorem withCards_lengthened (lengthened : IsLengthened short long) (cards : List CardEntry) :
    BothOrNeither Eq (withCards short .one cards) (withCards long .two cards) := by
  refine lengthened.identifier.lift.bind_eq fun identifier => ?_
  refine (lengthened.signed (.of_shift (by decide)) 4).lift.bind_eq fun listId => ?_
  refine (lengthened.unsigned (.of_shift (by decide)) 4).lift.bind_eq fun checksum => ?_
  exact .ok rfl

/-- The lengthened block is the page whose cards begin four bytes earlier. -/
theorem readFrom_lengthened (lengthened : IsLengthened short long) (four : FourLater first later)
    (count size : Nat) :
    BothOrNeither Eq (readFrom first short .one count size)
      (readFrom later long .two count size) := by
  unfold readFrom
  by_cases small : size < 6 ∧ 0 < count
  · rw [if_pos small, if_pos small]
    exact .error
  · rw [if_neg small, if_neg small]
    refine (cardsFrom_lengthened lengthened four size count).lift.bind_eq fun cards => ?_
    exact withCards_lengthened lengthened cards

/-- A page with a card has all its fields in front of it. -/
theorem exists_withCards {count size : Nat} {cards : List CardEntry} {data : Window}
    (found : cardsFrom data first size count = .ok cards) (some : 0 < count)
    (behind : 0x14 ≤ first) :
    ∃ page, withCards data .one cards = .ok page ∧ page.cards = cards := by
  obtain ⟨card, read⟩ := Window.exists_first found some
  obtain ⟨_, identified, _⟩ := exists_of_bind read
  have long := Window.le_of_signed identified
  obtain ⟨identifier, readIdentifier⟩ := @Window.exists_signed data 0x08 4 (by omega)
  obtain ⟨listId, readListId⟩ := @Window.exists_signed data 0x0C 4 (by omega)
  obtain ⟨checksum, readChecksum⟩ := @Window.exists_unsigned data 0x10 4 (by omega)
  refine ⟨⟨identifier, listId, UInt32.ofNat checksum, cards⟩, ?_, rfl⟩
  simp only [withCards, FormatVersion.shift, readIdentifier, readListId, readChecksum, bind,
    Except.bind, liftM_ok]
  rfl

/-- A page is the same with its cards at either of two offsets exactly when the cards are, or when
they are refused for their size. -/
theorem readFrom_alike_iff {other count size : Nat} {data : Window} (behind : 0x14 ≤ first)
    (also : 0x14 ≤ other) :
    BothOrNeither Eq (readFrom first data .one count size) (readFrom other data .one count size) ↔
      (size < 6 ∧ 0 < count) ∨
        BothOrNeither Eq (cardsFrom data first size count) (cardsFrom data other size count) := by
  unfold readFrom
  by_cases small : size < 6 ∧ 0 < count
  · rw [if_pos small, if_pos small]
    exact iff_of_true .error (.inl small)
  · rw [if_neg small, if_neg small, or_iff_right small]
    apply BothOrNeither.bind_iff (·.cards)
    by_cases some : 0 < count
    · refine .inr fun cards found => ?_
      rcases found with found | found
      · exact exists_withCards found some behind
      · exact exists_withCards found some also
    · obtain rfl : count = 0 := by omega
      exact .inl rfl

end PageBlock

variable {short long : Window}

/-- **Only the fields of the directory move.** A list or a page of the first generation, with any
four bytes put in behind its header, is read as one of the second generation in the way that the
shorter block is when its pages or cards begin four bytes earlier than they are looked for: both
fail, or both have the same fields and list the same. So the two readings agree exactly when
the entries that are looked for agree with those four bytes earlier, as they do where there are none
or where they are refused for their size. -/
theorem Window.IsLengthened.directory_alike_iff (lengthened : IsLengthened short long) :
    BothOrNeither Eq (ListBlock.readFrom 0x2C short .one) (ListBlock.read long .two) ∧
      (BothOrNeither Eq (ListBlock.read short .one) (ListBlock.read long .two) ↔
        ∀ count, short.unsigned 4 0x0C = .ok count →
          BothOrNeither Eq (ListBlock.pagesFrom short 0x30 count)
            (ListBlock.pagesFrom short 0x2C count)) ∧
      ∀ count size,
        BothOrNeither Eq (PageBlock.readFrom 0x14 short .one count size)
            (PageBlock.read long .two count size) ∧
          (BothOrNeither Eq (PageBlock.read short .one count size)
              (PageBlock.read long .two count size) ↔
            (size < 6 ∧ 0 < count) ∨
              BothOrNeither Eq (PageBlock.cardsFrom short 0x18 size count)
                (PageBlock.cardsFrom short 0x14 size count)) := by
  have pages : FourLater 0x2C 0x30 := ⟨by decide, rfl⟩
  have cards : FourLater 0x14 0x18 := ⟨by decide, rfl⟩
  have list := ListBlock.readFrom_lengthened lengthened pages
  refine ⟨list, ?_, fun count size => ?_⟩
  · rw [ListBlock.read_eq, ListBlock.read_eq, BothOrNeither.congr_right list]
    exact ListBlock.readFrom_alike_iff (by decide) (by decide)
  · have page := PageBlock.readFrom_lengthened lengthened cards count size
    rw [PageBlock.read_eq, PageBlock.read_eq]
    refine ⟨page, ?_⟩
    rw [BothOrNeither.congr_right page]
    exact PageBlock.readFrom_alike_iff (by decide) (by decide)

/-- A page of the first generation with given entries. -/
def earlyPage (entries : List UInt8) : List UInt8 :=
  [0, 0, 0, 36, 0x50, 0x41, 0x47, 0x45, 0, 0, 7, 0xD0] ++ [0, 0, 3, 0xE8, 0, 0, 0, 0] ++ entries

/-- A list of the first generation with one page. -/
def earlyList : List UInt8 :=
  [0, 0, 0, 54, 0x4C, 0x49, 0x53, 0x54, 0, 0, 3, 0xE8] ++ [0, 0, 0, 1] ++ List.replicate 28 0 ++
    [0, 0, 0, 100, 0, 3, 0, 0, 0, 0]

/-- A block with four more bytes behind its header. -/
def insertFour (block : List UInt8) : List UInt8 := block.take 12 ++ [0, 0, 0, 0] ++ block.drop 12

/-- Entries that look the same four bytes further on are read alike. -/
theorem Window.IsLengthened.directory_alike_iff_repeating :
    let entries : List UInt8 := [0x10, 0, 0x10, 0, 0x10, 0, 0x10, 0, 0x10, 0]
    IsLengthened (.ofArray (earlyPage entries).toArray)
        (.ofArray (insertFour (earlyPage entries)).toArray) ∧
      ∃ page, PageBlock.read (.ofArray (earlyPage entries).toArray) .one 1 8 = .ok page ∧
        PageBlock.read (.ofArray (insertFour (earlyPage entries)).toArray) .two 1 8 = .ok page ∧
        page.cards = [⟨0x10001000, true, false, false, false⟩] := by
  intro entries
  let short : Window := .ofArray (earlyPage entries).toArray
  let long : Window := .ofArray (insertFour (earlyPage entries)).toArray
  have lengthened : IsLengthened short long :=
    ⟨by decide, [0, 0, 0, 0], rfl, by decide +kernel⟩
  have early : ∃ cards, PageBlock.cardsFrom short 0x14 8 1 = .ok cards ∧
      cards = [⟨0x10001000, true, false, false, false⟩] := exists_of_check (by decide +kernel)
  have late : ∃ cards, PageBlock.cardsFrom short 0x18 8 1 = .ok cards ∧
      cards = [⟨0x10001000, true, false, false, false⟩] := exists_of_check (by decide +kernel)
  have read : ∃ page, PageBlock.read short .one 1 8 = .ok page ∧
      page.cards = [⟨0x10001000, true, false, false, false⟩] := exists_of_check (by decide +kernel)
  obtain ⟨_, early, rfl⟩ := early
  obtain ⟨_, late, rfl⟩ := late
  obtain ⟨page, read, cards⟩ := read
  have same : BothOrNeither Eq (PageBlock.cardsFrom short 0x18 8 1)
      (PageBlock.cardsFrom short 0x14 8 1) := .of_eq (early.trans late.symm)
  have alike := ((directory_alike_iff lengthened).2.2 1 8).2.mpr (.inr same)
  exact ⟨lengthened, page, read, alike.eq_ok read, cards⟩

/-- **The entries of a directory are read four bytes too far on.** The page 100 with its three cards
becomes another page without cards, and the marked card 3000 another card without a mark. -/
theorem exists_directory_misread :
    ∃ list longList page longPage : Window,
      IsLengthened list longList ∧ IsLengthened page longPage ∧
      ¬BothOrNeither Eq (ListBlock.read list .one) (ListBlock.read longList .two) ∧
      ¬BothOrNeither Eq (PageBlock.read page .one 1 8) (PageBlock.read longPage .two 1 8) := by
  let entries : List UInt8 := [0, 0, 0x0B, 0xB8, 0x10, 0, 0, 0] ++ List.replicate 8 0
  let list : Window := .ofArray earlyList.toArray
  let longList : Window := .ofArray (insertFour earlyList).toArray
  let page : Window := .ofArray (earlyPage entries).toArray
  let longPage : Window := .ofArray (insertFour (earlyPage entries)).toArray
  have lists : IsLengthened list longList := ⟨by decide, [0, 0, 0, 0], rfl, by decide +kernel⟩
  have pages : IsLengthened page longPage := ⟨by decide, [0, 0, 0, 0], rfl, by decide +kernel⟩
  have readList : ∃ block, ListBlock.read list .one = .ok block ∧
      block.pages = [⟨0x30000, 0⟩] := exists_of_check (by decide +kernel)
  have readLongList : ∃ block, ListBlock.read longList .two = .ok block ∧
      block.pages = [⟨100, 3⟩] := exists_of_check (by decide +kernel)
  have readPage : ∃ block, PageBlock.read page .one 1 8 = .ok block ∧
      block.cards = [⟨0x10000000, false, false, false, false⟩] :=
    exists_of_check (by decide +kernel)
  have readLongPage : ∃ block, PageBlock.read longPage .two 1 8 = .ok block ∧
      block.cards = [⟨3000, true, false, false, false⟩] := exists_of_check (by decide +kernel)
  obtain ⟨block, readList, listed⟩ := readList
  obtain ⟨longBlock, readLongList, longListed⟩ := readLongList
  obtain ⟨cards, readPage, shown⟩ := readPage
  obtain ⟨longCards, readLongPage, longShown⟩ := readLongPage
  refine ⟨list, longList, page, longPage, lists, pages, ?_, ?_⟩
  · intro alike
    cases (alike.eq_ok readList).symm.trans readLongList
    rw [listed] at longListed
    exact absurd longListed (by decide)
  · intro alike
    cases (alike.eq_ok readPage).symm.trans readLongPage
    rw [shown] at longShown
    exact absurd longShown (by decide)

end HyperCard
