import HyperCard.Proofs.Archive.Enumeration

/-!
# Which checksums are reported

Readers report reads outside a block and contents that contradict the format, but no checksum. So a
computation that is put together from readers and checks reports only what its checks do, and a
request to a file reports only what the checks of the list and of pages do.
-/
namespace HyperCard

/-- Whether the checksums that a computation reports are only such ones. -/
def ReportsOnly {α : Type} (reported : TypeCode → Int → UInt32 → UInt32 → Prop)
    (result : Except ArchiveError α) : Prop :=
  ∀ tag identifier stored computed,
    result = .error (.checksumMismatch tag identifier stored computed) →
      reported tag identifier stored computed

namespace ReportsOnly

variable {α β : Type} {reported : TypeCode → Int → UInt32 → UInt32 → Prop}
  {result : Except ArchiveError α} {next : α → Except ArchiveError β}

/-- A computation that succeeds reports nothing. -/
theorem ok (value : α) : ReportsOnly reported (.ok value) :=
  fun _ _ _ _ failed => nomatch failed

/-- A read outside a window is no checksum. -/
theorem lift (read : Except ReadError α) :
    ReportsOnly reported (liftM read : Except ArchiveError α) := by
  intro tag identifier stored computed failed
  cases read with
  | ok value => cases failed
  | error violation => cases failed

/-- Nor are contents that contradict the format. -/
theorem corrupt (cause : Corruption) :
    ReportsOnly reported (.error (.corrupt cause) : Except ArchiveError α) := by
  intro tag identifier stored computed failed
  cases failed

/-- Computations one after the other report what each of them does. -/
theorem bind (first : ReportsOnly reported result)
    (second : ∀ value, result = .ok value → ReportsOnly reported (next value)) :
    ReportsOnly reported (result >>= next) := by
  intro tag identifier stored computed failed
  cases result with
  | error error =>
    cases failed
    exact first tag identifier stored computed rfl
  | ok value => exact second value rfl tag identifier stored computed failed

/-- A read comes before the rest. -/
theorem read {read : Except ReadError α}
    (second : ∀ value, read = .ok value → ReportsOnly reported (next value)) :
    ReportsOnly reported (liftM read >>= next) := by
  refine (lift read).bind fun value lifted => ?_
  cases read with
  | ok => exact second value (Except.ok.inj lifted ▸ rfl)
  | error violation => cases lifted

/-- A check reports one checksum at most. -/
theorem check {fails : Bool} {tag : TypeCode} {identifier : Int} {stored computed : UInt32}
    (right : fails = true → reported tag identifier stored computed) :
    ReportsOnly reported
      (if fails then throw (.checksumMismatch tag identifier stored computed) else pure ()) := by
  intro _ _ _ _ failed
  cases fails with
  | false => cases failed
  | true =>
    cases failed
    exact right rfl

end ReportsOnly

section Readers

variable (reported : TypeCode → Int → UInt32 → UInt32 → Prop) (data : Window)
  (version : FormatVersion)

/-- Reading a list without a check reports no checksum. -/
theorem reportsOnly_list : ReportsOnly reported (ListBlock.read data version) := by
  unfold ListBlock.read
  iterate 10 refine .read fun _ _ => ?_
  exact .ok _

/-- Nor does reading a page, which may refuse its entries as too small. -/
theorem reportsOnly_page (cardCount stride : Nat) :
    ReportsOnly reported (PageBlock.read data version cardCount stride) := by
  unfold PageBlock.read
  split
  · exact .corrupt _
  · iterate 4 refine .read fun _ _ => ?_
    exact .ok _

/-- A number that is no format is not a checksum. -/
theorem reportsOnly_version (format : Nat) :
    ReportsOnly reported (FormatVersion.ofFormat format) := by
  unfold FormatVersion.ofFormat
  intro _ _ _ _ failed
  split at failed
  · cases failed
  · split at failed <;> cases failed

/-- Reading a stack block reports no checksum, although an unknown version or level is an error. -/
theorem reportsOnly_stack : ReportsOnly reported (StackBlock.read data) := by
  unfold StackBlock.read
  refine .read fun format _ => (reportsOnly_version reported format).bind fun version _ =>
    .read fun level _ => ?_
  cases UserLevel.ofNumber? level with
  | none => exact .corrupt _
  | some userLevel =>
    iterate 31 refine .read fun _ _ => ?_
    exact .ok _

/-- Reading parts reports no checksum, although a part that is too short is an error. -/
theorem reportsOnly_parts (count offset : Nat) :
    ReportsOnly reported (LayerBlock.readParts data count offset) := by
  induction count generalizing offset with
  | zero => exact .ok []
  | succ count ih =>
    unfold LayerBlock.readParts
    refine .read fun size _ => ?_
    split
    · exact .corrupt _
    · exact .read fun part _ => (ih (offset + size)).bind fun parts _ => .ok (part :: parts)

/-- So does reading what cards and backgrounds have in common. -/
theorem reportsOnly_layer (partOffset : Nat) :
    ReportsOnly reported (LayerBlock.read data version partOffset) := by
  unfold LayerBlock.read
  iterate 4 refine .read fun _ _ => ?_
  refine (reportsOnly_parts reported data _ partOffset).bind fun parts _ => ?_
  split
  all_goals
    iterate 9 refine .read fun _ _ => ?_
    exact .ok _

/-- Reading a card reports no checksum. -/
theorem reportsOnly_card : ReportsOnly reported (CardBlock.read data version) := by
  unfold CardBlock.read
  refine (reportsOnly_layer reported data version _).bind fun layer _ => ?_
  iterate 2 refine .read fun _ _ => ?_
  exact .ok _

/-- Reading a background reports no checksum. -/
theorem reportsOnly_background : ReportsOnly reported (BackgroundBlock.read data version) := by
  unfold BackgroundBlock.read
  refine (reportsOnly_layer reported data version _).bind fun layer _ => ?_
  iterate 3 refine .read fun _ _ => ?_
  exact .ok _

/-- Reading the header of a picture reports no checksum, with and without declared lengths. -/
theorem reportsOnly_bitmap : ReportsOnly reported (BitmapBlock.read data version) := by
  unfold BitmapBlock.read
  dsimp only
  split
  · refine .read fun mask _ => .read fun image _ => .bind (.ok (mask, image)) fun lengths _ => ?_
    iterate 4 refine .read fun _ _ => ?_
    exact .ok _
  · refine .bind (.ok (0, 0)) fun lengths _ => ?_
    iterate 4 refine .read fun _ _ => ?_
    exact .ok _

/-- Reading a table of styles reports no checksum. -/
theorem reportsOnly_styleTable : ReportsOnly reported (StyleTable.read data version) := by
  unfold StyleTable.read
  iterate 4 refine .read fun _ _ => ?_
  exact .ok _

/-- Reading a table of fonts reports no checksum. -/
theorem reportsOnly_fontTable : ReportsOnly reported (FontTable.read data version) := by
  unfold FontTable.read
  iterate 3 refine .read fun _ _ => ?_
  exact .ok _

end Readers

namespace StackFile

/-- Whether the checksums that a request to a file reports are only such ones. -/
def RequestReportsOnly {α : Type} (file : StackFile)
    (reported : TypeCode → Int → UInt32 → UInt32 → Prop) (request : Request α) : Prop :=
  ∃ result, file.Gives request result ∧ ReportsOnly reported result

section Combining

variable {α β : Type} {file : StackFile} {reported : TypeCode → Int → UInt32 → UInt32 → Prop}
  {request : Request α} {next : α → Request β} {result : Except ArchiveError α}

/-- What needs no block reports what its result is. -/
theorem requestReportsOnly_result (reports : ReportsOnly reported result) :
    file.RequestReportsOnly reported (liftM result) :=
  ⟨result, gives_result result, reports⟩

/-- After a request that gives a result comes what follows a value. -/
theorem requestReportsOnly_bind (given : file.Gives request result)
    (reports : ReportsOnly reported result)
    (second : ∀ value, result = .ok value → file.RequestReportsOnly reported (next value)) :
    file.RequestReportsOnly reported (request >>= next) := by
  cases result with
  | error error =>
    refine ⟨.error error, given.bind_error, fun tag identifier stored computed failed => ?_⟩
    cases failed
    exact reports tag identifier stored computed rfl
  | ok value =>
    obtain ⟨last, later, reportsLater⟩ := second value rfl
    exact ⟨last, given.bind later, reportsLater⟩

/-- Requests one after the other report what each of them does. -/
theorem RequestReportsOnly.bind (first : file.RequestReportsOnly reported request)
    (second : ∀ value, file.RequestReportsOnly reported (next value)) :
    file.RequestReportsOnly reported (request >>= next) := by
  obtain ⟨result, given, reports⟩ := first
  exact requestReportsOnly_bind given reports fun value _ => second value

/-- A check that follows reports one checksum at most. -/
theorem requestReportsOnly_check {fails : Bool} {tag : TypeCode} {identifier : Int}
    {stored computed : UInt32} (value : α)
    (right : fails = true → reported tag identifier stored computed) :
    file.RequestReportsOnly reported (do
      if fails then throw (.checksumMismatch tag identifier stored computed)
      return value) := by
  cases fails with
  | false => exact requestReportsOnly_result (.ok value)
  | true =>
    refine ⟨.error (.checksumMismatch tag identifier stored computed), gives_result _, ?_⟩
    intro _ _ _ _ failed
    cases failed
    exact right rfl

end Combining

variable {file : StackFile} {reported : TypeCode → Int → UInt32 → UInt32 → Prop}

/-- Looking for a block reports no checksum. -/
theorem reportsOnly_locate (tag : TypeCode) (identifier : Int) (records : List DirectoryRecord) :
    ReportsOnly reported (file.locate tag identifier records) := by
  induction records with
  | nil => exact fun _ _ _ _ failed => nomatch failed
  | cons record records ih =>
    rw [locate_cons]
    split
    · unfold blockAt
      exact .read fun window _ => .ok _
    · exact ih

/-- A block that is looked for and then read reports what the reader does. -/
theorem requestReportsOnly_read {α : Type} (tag : TypeCode) (identifier : Int)
    {reader : Block → Except ArchiveError α}
    (reports : ∀ block, ReportsOnly reported (reader block)) :
    file.RequestReportsOnly reported
      (file.findBlock tag identifier >>= fun block => liftM (reader block)) :=
  requestReportsOnly_bind (gives_findBlock tag identifier)
    (reportsOnly_locate tag identifier file.records)
    fun block _ => requestReportsOnly_result (reports block)

/-- So does one that may be named. -/
theorem requestReportsOnly_named {α : Type} (tag : TypeCode) (named : Option Int)
    {reader : Block → Except ArchiveError α}
    (reports : ∀ block, ReportsOnly reported (reader block)) :
    file.RequestReportsOnly reported
      (match named with
      | none => return none
      | some identifier => do
        let block ← file.findBlock tag identifier
        return some (← reader block)) := by
  cases named with
  | none => exact requestReportsOnly_result (.ok none)
  | some identifier =>
    apply requestReportsOnly_bind (gives_findBlock tag identifier)
      (reportsOnly_locate tag identifier file.records)
    intro block _
    apply requestReportsOnly_bind (gives_result (reader block)) (reports block)
    intro value _
    exact requestReportsOnly_result (.ok (some value))

/-- A request for a card reports no checksum of its own. -/
theorem requestReportsOnly_card (identifier : Int) :
    file.RequestReportsOnly reported (file.card identifier) :=
  requestReportsOnly_read .card identifier fun block =>
    reportsOnly_card reported block.window file.version

/-- Nor does a request for a background. -/
theorem requestReportsOnly_background (identifier : Int) :
    file.RequestReportsOnly reported (file.background identifier) :=
  requestReportsOnly_read .background identifier fun block =>
    reportsOnly_background reported block.window file.version

/-- Following the ring of backgrounds reports no checksum, wherever it ends. -/
theorem requestReportsOnly_ringFrom (first : Int) (remaining : Nat) (visited : List Int)
    (identifier : Int) :
    file.RequestReportsOnly reported (file.ringFrom first remaining visited identifier) := by
  induction remaining generalizing visited identifier with
  | zero =>
    exact requestReportsOnly_result (.corrupt (.chainTooLong file.configuration.maxChainLength))
  | succ remaining ih =>
    unfold ringFrom
    by_cases seen : visited.contains identifier = true
    · simp only [seen, ↓reduceIte]
      exact requestReportsOnly_result (.corrupt (.chainLoops identifier first))
    · simp only [seen, Bool.false_eq_true, ↓reduceIte]
      apply (requestReportsOnly_background identifier).bind
      intro background
      by_cases closed : background.nextBackgroundId = first
      · simp only [closed, ↓reduceIte]
        exact requestReportsOnly_result (.ok [background])
      · simp only [closed, ↓reduceIte]
        apply (ih (identifier :: visited) background.nextBackgroundId).bind
        intro others
        exact requestReportsOnly_result (.ok (background :: others))

/-- Reading the cards of entries reports no checksum. -/
theorem requestReportsOnly_cardsOfEntries (entries : List CardEntry) :
    file.RequestReportsOnly reported (file.cardsOfEntries entries) := by
  induction entries with
  | nil => exact requestReportsOnly_result (.ok [])
  | cons entry entries ih =>
    apply (requestReportsOnly_card entry.identifier).bind
    intro card
    apply ih.bind
    intro cards
    exact requestReportsOnly_result (.ok (card :: cards))

/-- The entries of some pages report what the pages do. -/
theorem requestReportsOnly_entriesOfPages {pages : ListBlock} {references : List PageReference}
    (each : ∀ reference ∈ references,
      file.RequestReportsOnly reported (file.page reference pages)) :
    file.RequestReportsOnly reported (file.entriesOfPages pages references) := by
  induction references with
  | nil => exact requestReportsOnly_result (.ok [])
  | cons reference references ih =>
    apply (each reference List.mem_cons_self).bind
    intro page
    apply (ih fun other mem => each other (List.mem_cons_of_mem _ mem)).bind
    intro entries
    exact requestReportsOnly_result (.ok (page.cards ++ entries))

end StackFile
end HyperCard
