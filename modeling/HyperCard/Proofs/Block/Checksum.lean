import HyperCard.Proofs.Block.Directory
import HyperCard.Proofs.Bytes.Overwriting

/-!
# Checksums catch a change

The checksum of the list and that of a page are folds that add a number to a running word and turn
it. Both steps can be undone, so words that differ once differ after every later entry, too. The
words that the checksum of the stack block covers are added up: a change of one of them changes the
sum by the same amount.
-/
namespace HyperCard

/-- Words that are different are different when turned. -/
theorem rotated_injective : Function.Injective rotated := by
  intro left right same
  have turned : left.toBitVec.rotateRight 3 = right.toBitVec.rotateRight 3 :=
    congrArg UInt32.toBitVec same
  apply UInt32.toBitVec_inj.mp
  apply BitVec.eq_of_getLsbD_eq
  intro place inside
  -- The bit at a place went three places down, or round to the three highest places.
  by_cases low : place < 3
  · have bit := congrArg (BitVec.getLsbD · (29 + place)) turned
    simpa [BitVec.getLsbD_rotateRight, show ¬29 + place < 29 by omega,
      show 29 + place < 32 by omega, BitVec.getLsbD_eq_getElem inside] using bit
  · have bit := congrArg (BitVec.getLsbD · (place - 3)) turned
    simpa [BitVec.getLsbD_rotateRight, show place - 3 < 29 by omega,
      show 3 + (place - 3) = place by omega] using bit

/-- The reader turns words in the same way, so turned words differ there, too. -/
theorem turnRight_injective : Function.Injective turnRight := rotated_injective

/-- Numbers below the size of a word are different as words. -/
theorem word_ne {left right : Nat} (less : left < 0x100000000) (also : right < 0x100000000)
    (differ : left ≠ right) : UInt32.ofNat left ≠ UInt32.ofNat right := by
  intro same
  have numbers := congrArg UInt32.toNat same
  rw [UInt32.toNat_ofNat_of_lt' less, UInt32.toNat_ofNat_of_lt' also] at numbers
  exact differ numbers

/-- So are different numbers with sign. -/
theorem wordOf_ne {left right : Int32} (differ : left ≠ right) :
    wordOf left.toInt ≠ wordOf right.toInt := by
  rw [wordOf_toInt, wordOf_toInt]
  exact fun same => differ (congrArg Int32.ofUInt32 same)

section Folds

variable {Value Entry : Type} {step : Value → Entry → Value}

/-- Values that differ still do after entries whose steps can be undone. -/
theorem foldl_injective (undone : ∀ entry, Function.Injective (step · entry))
    (entries : List Entry) : Function.Injective (entries.foldl step ·) := by
  induction entries with
  | nil => exact fun _ _ same => same
  | cons entry entries ih => exact fun _ _ same => undone entry (ih same)

/-- An entry whose step goes elsewhere changes the whole fold. -/
theorem foldl_ne (undone : ∀ entry, Function.Injective (step · entry)) {entry changed : Entry}
    (differs : ∀ value, step value changed ≠ step value entry) (before after : List Entry)
    (start : Value) :
    (before ++ changed :: after).foldl step start ≠
      (before ++ entry :: after).foldl step start := by
  rw [List.foldl_append, List.foldl_append, List.foldl_cons, List.foldl_cons]
  exact fun same => differs _ (foldl_injective undone after same)

end Folds

namespace ListBlock

variable {list changed : ListBlock} {before after : List PageReference}

/-- The step of a page in the checksum of the list. -/
def addPage (sum : UInt32) (page : PageReference) : UInt32 :=
  turnRight (sum + wordOf page.identifier) + UInt32.ofNat page.cardCount

/-- Words that differ still do after the step of a page. -/
theorem addPage_injective (page : PageReference) : Function.Injective (addPage · page) := by
  intro left right same
  have turned := (UInt32.add_left_inj (UInt32.ofNat page.cardCount)).mp same
  exact (UInt32.add_left_inj (wordOf page.identifier)).mp (turnRight_injective turned)

/-- The checksum of the list changes with one of its pages. -/
theorem computedChecksum_ne {page other : PageReference}
    (differs : ∀ sum, addPage sum other ≠ addPage sum page)
    (pages : list.pages = before ++ page :: after)
    (pagesChanged : changed.pages = before ++ other :: after) :
    changed.computedChecksum ≠ list.computedChecksum := by
  rw [computedChecksum, computedChecksum, pages, pagesChanged]
  exact foldl_ne addPage_injective differs before after 0

/-- A page with another identifier goes elsewhere. -/
theorem addPage_ne_of_identifier {old new : Int32} (differ : new ≠ old) (cardCount : Nat)
    (sum : UInt32) : addPage sum ⟨new.toInt, cardCount⟩ ≠ addPage sum ⟨old.toInt, cardCount⟩ := by
  intro same
  have turned := turnRight_injective ((UInt32.add_left_inj (UInt32.ofNat cardCount)).mp same)
  exact wordOf_ne differ ((UInt32.add_right_inj sum).mp turned)

/-- So does a page with another number of cards. -/
theorem addPage_ne_of_cardCount {old new : UInt16} (differ : new ≠ old) (identifier : Int)
    (sum : UInt32) : addPage sum ⟨identifier, new.toNat⟩ ≠ addPage sum ⟨identifier, old.toNat⟩ := by
  have less := old.toNat_lt
  have lessNew := new.toNat_lt
  have numbers : new.toNat ≠ old.toNat := fun same => differ (UInt16.toNat_inj.mp same)
  intro same
  exact word_ne (by omega) (by omega) numbers ((UInt32.add_right_inj _).mp same)

end ListBlock

namespace PageBlock

variable {page changed : PageBlock} {before after : List CardEntry}

/-- The step of a card in the checksum of its page. -/
def addCard (sum : UInt32) (card : CardEntry) : UInt32 := turnRight (sum + wordOf card.identifier)

/-- Words that differ still do after the step of a card. -/
theorem addCard_injective (card : CardEntry) : Function.Injective (addCard · card) := by
  intro left right same
  exact (UInt32.add_left_inj (wordOf card.identifier)).mp (turnRight_injective same)

/-- The checksum of a page changes with the identifier of one of its cards. -/
theorem computedChecksum_ne {card : CardEntry} {old new : Int32} (differ : new ≠ old)
    (cards : page.cards = before ++ { card with identifier := old.toInt } :: after)
    (cardsChanged : changed.cards = before ++ { card with identifier := new.toInt } :: after) :
    changed.computedChecksum ≠ page.computedChecksum := by
  rw [computedChecksum, computedChecksum, cards, cardsChanged]
  apply foldl_ne addCard_injective
  intro sum same
  exact wordOf_ne differ ((UInt32.add_right_inj sum).mp (turnRight_injective same))

end PageBlock

namespace StackBlock

/-- Whether one word of a stack block was changed, of those that the checksum covers, and no
other. -/
structure ChangedAt (index : Nat) (old new : UInt32) (block changed : Window) : Prop where
  /-- The checksum covers the word. -/
  covered : index < checksumWords
  /-- What it was. -/
  old : block.unsigned 4 (4 * index) = .ok old.toNat
  /-- What it is. -/
  new : changed.unsigned 4 (4 * index) = .ok new.toNat
  /-- The other words are the same. -/
  others : ∀ other < checksumWords, other ≠ index →
    changed.unsigned 4 (4 * other) = block.unsigned 4 (4 * other)

/-- The sum of numbers as words. -/
def sum (words : List Nat) : UInt32 :=
  words.foldl (fun sum word => sum + UInt32.ofNat word) 0

/-- The first word is added to the sum of the others. -/
theorem sum_cons (word : Nat) (words : List Nat) :
    sum (word :: words) = UInt32.ofNat word + sum words := by
  have after : ∀ start : UInt32, words.foldl (fun sum word => sum + UInt32.ofNat word) start =
      start + sum words := by
    unfold sum
    induction words with
    | nil => exact fun start => (UInt32.add_zero start).symm
    | cons word words ih =>
      intro start
      rw [List.foldl_cons, List.foldl_cons, ih, ih (0 + _), UInt32.zero_add, UInt32.add_assoc]
  rw [sum, List.foldl_cons, after, UInt32.zero_add]

/-- The sum changes with a word by the same amount. -/
theorem sum_set {words : List Nat} {index : Nat} (inside : index < words.length) (word : Nat) :
    sum (words.set index word) =
      sum words - UInt32.ofNat words[index] + UInt32.ofNat word := by
  induction words generalizing index with
  | nil => cases inside
  | cons first words ih =>
    cases index with
    | zero =>
      rw [List.set_cons_zero, sum_cons, sum_cons, List.getElem_cons_zero,
        UInt32.add_comm (UInt32.ofNat first), UInt32.add_sub_cancel, UInt32.add_comm]
    | succ index =>
      rw [List.set_cons_succ, sum_cons, sum_cons, List.getElem_cons_succ,
        ih (Nat.lt_of_succ_lt_succ inside), UInt32.sub_eq_add_neg, UInt32.sub_eq_add_neg,
        UInt32.add_assoc, UInt32.add_assoc, UInt32.add_assoc]

variable {block changed : Window} {index : Nat} {old new residue : UInt32}

/-- A block with all the words that the checksum covers has a sum of them. -/
theorem exists_checksumResidue (long : 4 * checksumWords ≤ block.length) :
    ∃ residue, checksumResidue block = .ok residue := by
  let words := (List.range checksumWords).map fun index =>
    (block.unsigned 4 (4 * index)).toOption.getD 0
  have count : words.length = checksumWords := by
    rw [List.length_map, List.length_range]
  have read : Window.collect (fun index => block.unsigned 4 (4 * index)) 0 checksumWords =
      .ok words := by
    rw [← count]
    apply Window.collect_eq
    intro index inside
    rw [count] at inside
    obtain ⟨number, found⟩ := @Window.exists_unsigned block (4 * index) 4 (by omega)
    simp only [words, Nat.zero_add, List.getElem_map, List.getElem_range, found, Except.toOption,
      Option.getD_some]
  exact ⟨sum words, by rw [checksumResidue, read]; rfl⟩

/-- A word that is written over another one changes it and no other. -/
theorem changedAt_overwritten (covered : index < checksumWords)
    (stored : block.unsigned 4 (4 * index) = .ok old.toNat) (new : UInt32) :
    ChangedAt index old new block
      (block.overwritten (4 * index) (Window.bigEndian 4 new.toNat)) := by
  have alike := block.alikeApart_overwritten (4 * index) (Window.bigEndian 4 new.toNat)
  rw [Window.length_bigEndian] at alike
  refine ⟨covered, stored, Window.unsigned_overwritten (Window.le_of_unsigned stored) new, ?_⟩
  intro other _ differs
  exact alike.unsigned (by omega)

/-- The sum changes with one of the words by the same amount. -/
theorem ChangedAt.checksumResidue_eq (change : ChangedAt index old new block changed)
    (added : checksumResidue block = .ok residue) :
    checksumResidue changed = .ok (residue - old + new) := by
  obtain ⟨words, read, summed⟩ := exists_of_bind added
  obtain ⟨count, each⟩ := Window.each_of_collect read
  have inside : index < words.length := by
    rw [count]
    exact change.covered
  have here := each index inside
  rw [Nat.zero_add, change.old] at here
  have readChanged := @Window.collect_set _ _ (fun index => changed.unsigned 4 (4 * index)) _ _ _ _
    read change.new change.others
  rw [checksumResidue, readChanged]
  cases summed
  change Except.ok (sum (words.set index new.toNat)) = _
  rw [sum_set inside, ← Except.ok.inj here, UInt32.ofNat_toNat, UInt32.ofNat_toNat]
  rfl

end StackBlock

/-- **Checksums catch every single change.** In a stack block with all the words that the checksum
covers, the sum of these words changes with each of them. The checksum of a list changes with the
identifier of each page and with the number of its cards, and that of a page changes with the
identifier of each card. -/
theorem checksums_catch_changes :
    (∀ (block changed : Window) (index : Nat) (old new : UInt32), 0x600 ≤ block.length →
      StackBlock.ChangedAt index old new block changed → new ≠ old →
      ∃ residue other, StackBlock.checksumResidue block = .ok residue ∧
        StackBlock.checksumResidue changed = .ok other ∧ other ≠ residue) ∧
    (∀ (list changed : ListBlock) (before after : List PageReference) (old new : Int32)
      (cardCount : Nat), list.pages = before ++ ⟨old.toInt, cardCount⟩ :: after →
      changed.pages = before ++ ⟨new.toInt, cardCount⟩ :: after → new ≠ old →
      changed.computedChecksum ≠ list.computedChecksum) ∧
    (∀ (list changed : ListBlock) (before after : List PageReference) (identifier : Int)
      (old new : UInt16), list.pages = before ++ ⟨identifier, old.toNat⟩ :: after →
      changed.pages = before ++ ⟨identifier, new.toNat⟩ :: after → new ≠ old →
      changed.computedChecksum ≠ list.computedChecksum) ∧
    (∀ (page changed : PageBlock) (before after : List CardEntry) (card : CardEntry)
      (old new : Int32), page.cards = before ++ { card with identifier := old.toInt } :: after →
      changed.cards = before ++ { card with identifier := new.toInt } :: after → new ≠ old →
      changed.computedChecksum ≠ page.computedChecksum) := by
  refine ⟨?_, ?_, ?_, ?_⟩
  · intro block changed index old new long change differ
    obtain ⟨residue, added⟩ := StackBlock.exists_checksumResidue long
    refine ⟨residue, residue - old + new, added, change.checksumResidue_eq added, ?_⟩
    intro same
    apply differ
    rw [← UInt32.add_right_inj (residue - old), same, UInt32.sub_add_cancel]
  · intro list changed before after old new cardCount pages pagesChanged differ
    exact ListBlock.computedChecksum_ne (ListBlock.addPage_ne_of_identifier differ cardCount) pages
      pagesChanged
  · intro list changed before after identifier old new pages pagesChanged differ
    exact ListBlock.computedChecksum_ne (ListBlock.addPage_ne_of_cardCount differ identifier) pages
      pagesChanged
  · intro page changed before after card old new cards cardsChanged differ
    exact PageBlock.computedChecksum_ne differ cards cardsChanged

/-- The last word of a block of zeros is changed, an identifier and the number of cards of a page of
a list, and an identifier of a card. -/
theorem checksums_catch_changes_last :
    let block := Window.ofArray (Array.replicate 0x600 0)
    let changed := block.overwritten (4 * 0x17F) (Window.bigEndian 4 (1 : UInt32).toNat)
    let list (pages : List PageReference) : ListBlock :=
      ⟨5, pages.length, 0x800, 3, 32, 1, 1, 0, 3, pages⟩
    let page (identifier : Int) : PageBlock := ⟨7, 5, 0, [⟨identifier, true, false, true, false⟩]⟩
    0x600 ≤ block.length ∧ StackBlock.ChangedAt 0x17F 0 1 block changed ∧
      (∃ residue other, StackBlock.checksumResidue block = .ok residue ∧
        StackBlock.checksumResidue changed = .ok other ∧ other ≠ residue) ∧
      (list [⟨7, 2⟩, ⟨-1, 1⟩]).computedChecksum ≠ (list [⟨7, 2⟩, ⟨8, 1⟩]).computedChecksum ∧
      (list [⟨7, 0⟩, ⟨8, 1⟩]).computedChecksum ≠ (list [⟨7, 2⟩, ⟨8, 1⟩]).computedChecksum ∧
      (page 12).computedChecksum ≠ (page 9).computedChecksum := by
  intro block changed list page
  have long : 0x600 ≤ block.length := Nat.le_of_eq Array.size_replicate.symm
  have stored : ∃ number, block.unsigned 4 (4 * 0x17F) = .ok number ∧ number = (0 : UInt32).toNat :=
    exists_of_check (by decide +kernel)
  obtain ⟨_, stored, rfl⟩ := stored
  have change := StackBlock.changedAt_overwritten (by decide) stored 1
  obtain ⟨words, identifiers, counts, cards⟩ := checksums_catch_changes
  refine ⟨long, change, words block changed 0x17F 0 1 long change (by decide), ?_, ?_, ?_⟩
  · exact identifiers _ _ [⟨7, 2⟩] [] 8 (-1) 1 rfl rfl (by decide)
  · exact counts _ _ [] [⟨8, 1⟩] 7 2 0 rfl rfl (by decide)
  · exact cards _ _ [] [] ⟨0, true, false, true, false⟩ 9 12 rfl rfl (by decide)

end HyperCard
