import HyperCard.Proofs.Archive.Request

/-!
# Asking a file with other settings

A file may be asked for many things in a row. Every remembered block is the one that the directory
gives for its key, and a request keeps that so, also one that fails, so a request has a result of
its own, whatever was asked before. Settings leave the directory as it is. They decide whether
blocks are remembered, which changes no result, whether the checksums of the list and of a page must
fit, and how far the ring of backgrounds is followed. So a result with narrower settings is the one
with others, or an error that the narrower ones refuse with; this passes from requests to those that
are put together from them.
-/
namespace HyperCard

/-- What a file can be asked for. -/
inductive Operation
  /-- The block with a key. -/
  | find (tag : TypeCode) (identifier : Int)
  /-- All blocks. -/
  | blocks
  /-- All blocks of a type. -/
  | blocksOfType (tag : TypeCode)
  /-- The list of pages. -/
  | list
  /-- A page of a list. -/
  | page (reference : PageReference) (pages : ListBlock)
  /-- A card. -/
  | card (identifier : Int)
  /-- A background. -/
  | background (identifier : Int)
  /-- A picture. -/
  | bitmap (identifier : Int)
  /-- The table of text styles. -/
  | styleTable
  /-- The table of fonts. -/
  | fontTable
  /-- The entries of all cards. -/
  | cardReferences
  /-- All cards. -/
  | cards
  /-- All backgrounds. -/
  | backgrounds

namespace Operation

/-- What an operation that succeeds gives. -/
abbrev Value : Operation → Type
  | .find _ _ => Block
  | .blocks | .blocksOfType _ => List Block
  | .list => ListBlock
  | .page _ _ => PageBlock
  | .card _ => CardBlock
  | .background _ => BackgroundBlock
  | .bitmap _ => BitmapBlock
  | .styleTable => Option StyleTable
  | .fontTable => Option FontTable
  | .cardReferences => List CardEntry
  | .cards => List CardBlock
  | .backgrounds => List BackgroundBlock

/-- The request of an operation to a file. -/
def request (file : StackFile) : (operation : Operation) → Request operation.Value
  | .find tag identifier => file.findBlock tag identifier
  | .blocks => file.blocks
  | .blocksOfType tag => file.blocksOfType tag
  | .list => file.list
  | .page reference pages => file.page reference pages
  | .card identifier => file.card identifier
  | .background identifier => file.background identifier
  | .bitmap identifier => file.bitmap identifier
  | .styleTable => file.styleTable
  | .fontTable => file.fontTable
  | .cardReferences => file.cardReferences
  | .cards => file.cards
  | .backgrounds => file.backgrounds

end Operation

/-- An operation with its result. -/
abbrev Answer := (operation : Operation) × Except ArchiveError operation.Value

/-- How a result may differ from one with wider settings. -/
inductive Tightens {ε α : Type} (refused : ε → Prop) : Except ε α → Except ε α → Prop
  /-- It is the same one. -/
  | same (result : Except ε α) : Tightens refused result result
  /-- It is an error of the settings. -/
  | refusal {error : ε} (refuses : refused error) (result : Except ε α) :
    Tightens refused (.error error) result

/-- Whether settings give what others give, or refuse it with certain errors; both may remember
blocks or not. -/
structure Configuration.IsNarrower (refused : ArchiveError → Prop) (narrow wide : Configuration) :
    Prop where
  /-- Checksums are checked alike, or not by the others, and those that do not fit are refused. -/
  checksums : narrow.verifyChecksums = wide.verifyChecksums ∨
    wide.verifyChecksums = false ∧ ∀ tag identifier stored computed, tag = .list ∨ tag = .page →
      refused (.checksumMismatch tag identifier stored computed)
  /-- Chains are followed as far, or not further, and those that are too long are refused. -/
  chains : narrow.maxChainLength = wide.maxChainLength ∨
    narrow.maxChainLength ≤ wide.maxChainLength ∧
      refused (.corrupt (.chainTooLong narrow.maxChainLength))

namespace StackFile

/-- The results of operations one after the other, from a state on. -/
def answers (file : StackFile) : Cache → List Operation → List Answer
  | _, [] => []
  | cache, operation :: operations =>
    let result := (operation.request file).run cache
    ⟨operation, result.1⟩ :: file.answers result.2 operations

/-- The same file, opened with other settings. -/
def under (file : StackFile) (configuration : Configuration) : StackFile :=
  { file with configuration }

/-- Whether every remembered block is the one that the directory gives for its key. -/
def Recalls (file : StackFile) (cache : Cache) : Prop :=
  ∀ block ∈ cache, file.locate block.tag block.identifier file.records = .ok block

/-- Whether a request has a result in every state that agrees with the directory, and leaves such
a state behind. -/
def Gives {α : Type} (file : StackFile) (request : Request α) (result : Except ArchiveError α) :
    Prop :=
  ∀ cache, file.Recalls cache → ∃ later, request.run cache = (result, later) ∧ file.Recalls later

/-- Whether a request, in states that agree with the directory, has a result that another one has
too, unless it is refused. -/
def Restricts {α : Type} (file : StackFile) (refused : ArchiveError → Prop)
    (narrow wide : Request α) : Prop :=
  ∃ result other, file.Gives narrow result ∧ file.Gives wide other ∧ Tightens refused result other

section Combining

variable {α β : Type} {file : StackFile} {refused : ArchiveError → Prop}
  {request narrow wide : Request α} {next nextNarrow nextWide : α → Request β}

/-- What needs no block has its own result. -/
theorem gives_result (result : Except ArchiveError α) : file.Gives (liftM result) result :=
  fun cache recalls => ⟨cache, rfl, recalls⟩

/-- Requests one after the other give what the last one gives. -/
theorem Gives.bind {value : α} {result : Except ArchiveError β}
    (first : file.Gives request (.ok value)) (second : file.Gives (next value) result) :
    file.Gives (request >>= next) result := by
  intro cache recalls
  obtain ⟨later, run, kept⟩ := first cache recalls
  obtain ⟨last, runNext, keptNext⟩ := second later kept
  exact ⟨last, (Request.run_bind_ok run).trans runNext, keptNext⟩

/-- After a failure nothing else is asked. -/
theorem Gives.bind_error {error : ArchiveError} (first : file.Gives request (.error error)) :
    file.Gives (request >>= next) (.error error) := by
  intro cache recalls
  obtain ⟨later, run, kept⟩ := first cache recalls
  exact ⟨later, Request.run_bind_error run, kept⟩

/-- Whatever does not look at the settings has the same result. -/
theorem restricts_same {result : Except ArchiveError α} (given : file.Gives narrow result)
    (givenWide : file.Gives wide result) : file.Restricts refused narrow wide :=
  ⟨result, result, given, givenWide, .same result⟩

/-- A result that needs no block is the same with all settings. -/
theorem restricts_result (result : Except ArchiveError α) :
    file.Restricts refused (liftM result) (liftM result) :=
  restricts_same (gives_result result) (gives_result result)

/-- Requests one after the other are restricted if each of them is. -/
theorem Restricts.bind (first : file.Restricts refused narrow wide)
    (second : ∀ value, file.Restricts refused (nextNarrow value) (nextWide value)) :
    file.Restricts refused (narrow >>= nextNarrow) (wide >>= nextWide) := by
  obtain ⟨result, other, given, givenWide, tightens⟩ := first
  cases tightens with
  | same =>
    cases result with
    | error error => exact restricts_same given.bind_error givenWide.bind_error
    | ok value =>
      obtain ⟨_, _, later, laterWide, tightensLater⟩ := second value
      exact ⟨_, _, given.bind later, givenWide.bind laterWide, tightensLater⟩
  | refusal refuses =>
    cases other with
    | error error =>
      exact ⟨_, _, given.bind_error, givenWide.bind_error, .refusal refuses _⟩
    | ok value =>
      obtain ⟨_, last, _, laterWide, _⟩ := second value
      exact ⟨_, _, given.bind_error, givenWide.bind laterWide, .refusal refuses last⟩

/-- A check that is made alike, or that only narrow settings make, refuses at most. -/
theorem restricts_check {fails failsWide : Bool} {error : ArchiveError}
    (checks : fails = failsWide ∨ failsWide = false ∧ refused error) (value : α) :
    file.Restricts refused
      (do
        if fails then throw error
        return value)
      (do
        if failsWide then throw error
        return value) := by
  cases fails with
  | false =>
    obtain rfl : failsWide = false := checks.elim Eq.symm And.left
    exact restricts_result (.ok value)
  | true =>
    obtain rfl | ⟨rfl, refuses⟩ := checks
    · exact restricts_result (.error error)
    · exact ⟨_, _, gives_result (.error error), gives_result (.ok value), .refusal refuses _⟩

end Combining

variable {file : StackFile}

/-- A block that is read has the key of its header. -/
theorem key_of_blockAt {offset : Nat} {header : BlockHeader} {block : Block}
    (read : file.blockAt offset header = .ok block) :
    block.tag = header.tag ∧ block.identifier = header.identifier := by
  unfold blockAt at read
  cases cut : file.data.sub offset header.length with
  | error error =>
    rw [cut] at read
    cases read
  | ok window =>
    rw [cut] at read
    cases read
    exact ⟨rfl, rfl⟩

/-- The directory gives a block only for the key that the block has. -/
theorem key_of_locate {tag : TypeCode} {identifier : Int} {records : List DirectoryRecord}
    {block : Block} (found : file.locate tag identifier records = .ok block) :
    block.tag = tag ∧ block.identifier = identifier := by
  induction records with
  | nil => cases found
  | cons record records ih =>
    by_cases may : record.mayHold identifier
    · cases headed : file.header? record with
      | error error =>
        rw [locate, if_pos may, headed] at found
        cases found
      | ok header? =>
        by_cases leads : ∃ header ∈ header?, (header.tag, header.identifier) = (tag, identifier)
        · obtain ⟨header, mem, key⟩ := leads
          obtain rfl : header? = some header := mem
          rw [locate_cons_of_key may headed key] at found
          obtain ⟨rfl, rfl⟩ := Prod.mk.inj key
          exact key_of_blockAt found
        · rw [locate_cons_of_other headed fun _ header mem key => leads ⟨header, mem, key⟩] at found
          exact ih found
    · rw [locate, if_neg may] at found
      exact ih found

/-- A lookup gives what the directory gives, remembered or not. -/
theorem gives_findBlock (tag : TypeCode) (identifier : Int) :
    file.Gives (file.findBlock tag identifier) (file.locate tag identifier file.records) := by
  intro cache recalls
  by_cases caches : file.configuration.cacheBlocks = true
  · cases known : cache.find? tag identifier with
    | some block =>
      have key := List.find?_some known
      rw [Bool.and_eq_true, beq_iff_eq, beq_iff_eq] at key
      have fresh := recalls block (List.mem_of_find?_eq_some known)
      rw [key.1, key.2] at fresh
      rw [fresh]
      exact ⟨cache, run_findBlock_known caches known, recalls⟩
    | none =>
      cases found : file.locate tag identifier file.records with
      -- A lookup that fails leaves nothing behind.
      | error error => exact ⟨cache, run_findBlock_missing caches known found, recalls⟩
      | ok block =>
        refine ⟨block :: cache, run_findBlock_found caches known found, ?_⟩
        intro other remembered
        cases remembered with
        | head =>
          obtain ⟨rfl, rfl⟩ := key_of_locate found
          exact found
        | tail _ earlier => exact recalls other earlier
  · exact ⟨cache, run_findBlock_direct caches, recalls⟩

/-- The directory gives the same block with all settings. -/
theorem locate_under (configuration : Configuration) (tag : TypeCode) (identifier : Int)
    (records : List DirectoryRecord) :
    (file.under configuration).locate tag identifier records =
      file.locate tag identifier records := by
  induction records with
  | nil => rfl
  | cons record records ih =>
    rw [locate, locate, ih]
    rfl

/-- The directory lists the same blocks with all settings. -/
theorem blocksOfRecords_under (configuration : Configuration) (records : List DirectoryRecord) :
    (file.under configuration).blocksOfRecords records = file.blocksOfRecords records := by
  induction records with
  | nil => rfl
  | cons record records ih =>
    rw [blocksOfRecords, blocksOfRecords, ih]
    rfl

/-- The states that agree with the directory are the same with all settings. -/
theorem recalls_under {configuration : Configuration} {cache : Cache} :
    (file.under configuration).Recalls cache ↔ file.Recalls cache := by
  have same : (file.under configuration).locate = file.locate := by
    funext tag identifier records
    exact locate_under configuration tag identifier records
  rw [Recalls, Recalls, same]
  rfl

/-- So a request gives the same in a file opened with other settings. -/
theorem gives_under {configuration : Configuration} {α : Type} {request : Request α}
    {result : Except ArchiveError α} :
    (file.under configuration).Gives request result ↔ file.Gives request result := by
  simp only [Gives, recalls_under]

section Restricting

variable {refused : ArchiveError → Prop} {narrow wide : Configuration}

/-- A lookup does not look at the settings. -/
theorem restricts_findBlock (tag : TypeCode) (identifier : Int) :
    file.Restricts refused ((file.under narrow).findBlock tag identifier)
      ((file.under wide).findBlock tag identifier) := by
  have found (configuration : Configuration) :
      file.Gives ((file.under configuration).findBlock tag identifier)
        (file.locate tag identifier file.records) := by
    rw [← locate_under configuration]
    exact gives_under.mp (gives_findBlock tag identifier)
  exact restricts_same (found narrow) (found wide)

/-- Nor does a block that is looked for and then read. -/
theorem restricts_read {α : Type} (tag : TypeCode) (identifier : Int)
    (reader : Block → Except ArchiveError α) :
    file.Restricts refused
      ((file.under narrow).findBlock tag identifier >>= fun block => liftM (reader block))
      ((file.under wide).findBlock tag identifier >>= fun block => liftM (reader block)) :=
  .bind (restricts_findBlock tag identifier) fun block => restricts_result (reader block)

/-- A card is read alike with all settings. -/
theorem restricts_card (identifier : Int) :
    file.Restricts refused ((file.under narrow).card identifier)
      ((file.under wide).card identifier) :=
  restricts_read .card identifier fun block => CardBlock.read block.window file.version

/-- So is a background. -/
theorem restricts_background (identifier : Int) :
    file.Restricts refused ((file.under narrow).background identifier)
      ((file.under wide).background identifier) :=
  restricts_read .background identifier fun block =>
    BackgroundBlock.read block.window file.version

/-- Nor does a block that may be named. -/
theorem restricts_named {α : Type} (tag : TypeCode) (named : Option Int)
    (reader : Block → Except ArchiveError α) :
    file.Restricts refused
      (match named with
      | none => return none
      | some identifier => do
        let block ← (file.under narrow).findBlock tag identifier
        return some (← reader block))
      (match named with
      | none => return none
      | some identifier => do
        let block ← (file.under wide).findBlock tag identifier
        return some (← reader block)) := by
  cases named with
  | none => exact restricts_result (.ok none)
  | some identifier =>
    apply Restricts.bind (restricts_findBlock tag identifier)
    intro block
    apply Restricts.bind (restricts_result (reader block))
    intro value
    exact restricts_result (.ok (some value))

/-- Cards are read one after the other, each of them alike. -/
theorem restricts_cardsOfEntries (entries : List CardEntry) :
    file.Restricts refused ((file.under narrow).cardsOfEntries entries)
      ((file.under wide).cardsOfEntries entries) := by
  induction entries with
  | nil => exact restricts_result (.ok [])
  | cons entry entries ih =>
    apply Restricts.bind (restricts_card entry.identifier)
    intro card
    apply Restricts.bind ih
    intro cards
    exact restricts_result (.ok (card :: cards))

section Checking

variable (narrower : Configuration.IsNarrower refused narrow wide)

include narrower

/-- A block with a checksum is checked alike, or refused. -/
theorem checks_alike {tag : TypeCode} (listing : tag = .list ∨ tag = .page) (broken : Bool)
    (identifier : Int) (stored computed : UInt32) :
    (narrow.verifyChecksums && broken) = (wide.verifyChecksums && broken) ∨
      (wide.verifyChecksums && broken) = false ∧
        refused (.checksumMismatch tag identifier stored computed) := by
  obtain same | ⟨unchecked, refuses⟩ := narrower.checksums
  · rw [same]
    exact .inl rfl
  · rw [unchecked, Bool.false_and]
    exact .inr ⟨rfl, refuses tag identifier stored computed listing⟩

/-- The list is read alike, or its checksum is refused. -/
theorem restricts_list :
    file.Restricts refused (file.under narrow).list (file.under wide).list := by
  unfold list
  apply Restricts.bind (restricts_findBlock .list file.stack.listId)
  intro block
  apply Restricts.bind (restricts_result (ListBlock.read block.window file.version))
  intro list
  exact restricts_check (checks_alike narrower (.inl rfl) (!list.isChecksumValid) _ _ _) list

/-- So is a page. -/
theorem restricts_page (reference : PageReference) (pages : ListBlock) :
    file.Restricts refused ((file.under narrow).page reference pages)
      ((file.under wide).page reference pages) := by
  unfold page
  apply Restricts.bind (restricts_findBlock .page reference.identifier)
  intro block
  apply Restricts.bind (restricts_result (PageBlock.read block.window file.version
    reference.cardCount pages.cardReferenceSize))
  intro page
  exact restricts_check (checks_alike narrower (.inr rfl) (!page.isChecksumValid) _ _ _) page

/-- Pages are read one after the other, and the first one that is refused ends the request. -/
theorem restricts_entriesOfPages (pages : ListBlock) (references : List PageReference) :
    file.Restricts refused ((file.under narrow).entriesOfPages pages references)
      ((file.under wide).entriesOfPages pages references) := by
  induction references with
  | nil => exact restricts_result (.ok [])
  | cons reference references ih =>
    apply Restricts.bind (restricts_page narrower reference pages)
    intro page
    apply Restricts.bind ih
    intro entries
    exact restricts_result (.ok (page.cards ++ entries))

/-- The entries of all cards are those of the list and its pages, unless one of them is refused. -/
theorem restricts_cardReferences :
    file.Restricts refused (file.under narrow).cardReferences
      (file.under wide).cardReferences := by
  apply Restricts.bind (restricts_list narrower)
  intro pages
  exact restricts_entriesOfPages narrower pages pages.pages

/-- So are all cards. -/
theorem restricts_cards :
    file.Restricts refused (file.under narrow).cards (file.under wide).cards := by
  apply Restricts.bind (restricts_cardReferences narrower)
  intro entries
  exact restricts_cardsOfEntries entries

end Checking

section Following

variable (first : Int) {fewer more : Nat} (visited : List Int) (identifier : Int)

/-- A link of the ring is followed alike. -/
theorem restricts_link
    (later : ∀ visited identifier, file.Restricts refused
      ((file.under narrow).ringFrom first fewer visited identifier)
      ((file.under wide).ringFrom first more visited identifier)) :
    file.Restricts refused
      ((file.under narrow).ringFrom first (fewer + 1) visited identifier)
      ((file.under wide).ringFrom first (more + 1) visited identifier) := by
  unfold ringFrom
  by_cases seen : visited.contains identifier = true
  · simp only [seen, ↓reduceIte]
    exact restricts_result (.error (.corrupt (.chainLoops identifier first)))
  · simp only [seen, Bool.false_eq_true, ↓reduceIte]
    apply Restricts.bind (restricts_background identifier)
    intro background
    by_cases closed : background.nextBackgroundId = first
    · simp only [closed, ↓reduceIte]
      exact restricts_result (.ok [background])
    · simp only [closed, ↓reduceIte]
      apply Restricts.bind (later (identifier :: visited) background.nextBackgroundId)
      intro others
      exact restricts_result (.ok (background :: others))

/-- With the same limit the ring is followed as far. -/
theorem restricts_ringFrom_same (same : narrow.maxChainLength = wide.maxChainLength)
    (remaining : Nat) :
    file.Restricts refused ((file.under narrow).ringFrom first remaining visited identifier)
      ((file.under wide).ringFrom first remaining visited identifier) := by
  induction remaining generalizing visited identifier with
  | zero =>
    have given : file.Gives ((file.under narrow).ringFrom first 0 visited identifier)
        (.error (.corrupt (.chainTooLong wide.maxChainLength))) := by
      rw [← same]
      exact gives_result (.error (.corrupt (.chainTooLong narrow.maxChainLength)))
    exact restricts_same given (gives_result _)
  | succ remaining ih => exact restricts_link first visited identifier ih

/-- With a lower limit the ring is followed alike until there are no links left. -/
theorem restricts_ringFrom_fewer
    (refuses : refused (.corrupt (.chainTooLong narrow.maxChainLength))) (least : fewer ≤ more) :
    file.Restricts refused ((file.under narrow).ringFrom first fewer visited identifier)
      ((file.under wide).ringFrom first more visited identifier) := by
  induction fewer generalizing more visited identifier with
  | zero =>
    obtain ⟨_, result, _, given, _⟩ :=
      @restricts_ringFrom_same file refused wide wide first visited identifier rfl more
    exact ⟨_, result, gives_result (.error (.corrupt (.chainTooLong narrow.maxChainLength))),
      given, .refusal refuses result⟩
  | succ fewer ih =>
    obtain ⟨more, rfl⟩ : ∃ less, more = less + 1 := ⟨more - 1, by omega⟩
    exact restricts_link first visited identifier fun visited identifier =>
      ih visited identifier (Nat.le_of_succ_le_succ least)

end Following

/-- Every operation is restricted at most. -/
theorem restricts_request (narrower : Configuration.IsNarrower refused narrow wide)
    (operation : Operation) :
    file.Restricts refused (operation.request (file.under narrow))
      (operation.request (file.under wide)) := by
  have all (configuration : Configuration) : (file.under configuration).blocks = file.blocks :=
    blocksOfRecords_under configuration file.records
  cases operation with
  | find tag identifier => exact restricts_findBlock tag identifier
  | blocks =>
    unfold Operation.request
    simp only [all]
    exact restricts_result file.blocks
  | blocksOfType tag =>
    unfold Operation.request blocksOfType
    simp only [all]
    exact restricts_result (List.filter (·.tag == tag) <$> file.blocks)
  | list => exact restricts_list narrower
  | page reference pages => exact restricts_page narrower reference pages
  | card identifier => exact restricts_card identifier
  | background identifier => exact restricts_background identifier
  | bitmap identifier =>
    exact restricts_read .bitmap identifier fun block => BitmapBlock.read block.window file.version
  | styleTable =>
    exact restricts_named .styleTable file.stack.styleBlockId fun block =>
      StyleTable.read block.window file.version
  | fontTable =>
    exact restricts_named .fontTable file.stack.fontBlockId fun block =>
      FontTable.read block.window file.version
  | cardReferences => exact restricts_cardReferences narrower
  | cards => exact restricts_cards narrower
  | backgrounds =>
    obtain same | ⟨least, refuses⟩ := narrower.chains
    · have given := @restricts_ringFrom_same file refused narrow wide
        file.stack.firstBackgroundId [] file.stack.firstBackgroundId same narrow.maxChainLength
      unfold Operation.request backgrounds
      dsimp only [under] at given ⊢
      rw [← same]
      exact given
    · exact restricts_ringFrom_fewer file.stack.firstBackgroundId [] file.stack.firstBackgroundId
        refuses least

end Restricting

end StackFile
end HyperCard
