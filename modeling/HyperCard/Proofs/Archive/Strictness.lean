import HyperCard.Proofs.Archive.Settings
import HyperCard.Proofs.Bytes.Contents
import Mathlib.Data.List.Forall2

/-!
# Strict settings only refuse

Settings are stricter than others if they check whatever the others check and allow no longer
chains. They are narrower then: a result with stricter settings is the one with the others, or an
error that the settings are to blame for, and that holds of one operation after the other. Opening a
file is a computation of its own, in which the settings decide about themselves and about the
checksum of the stack block.
-/
namespace HyperCard

namespace Configuration

/-- Whether settings refuse whatever others refuse; both may remember blocks or not. -/
structure IsStricter (strict loose : Configuration) : Prop where
  /-- The checksums that the others check are checked. -/
  verifies : loose.verifyChecksums = true → strict.verifyChecksums = true
  /-- A chain that is too long for the others is too long. -/
  limit : strict.maxChainLength ≤ loose.maxChainLength

/-- The errors of a request that settings are to blame for. -/
inductive Refuses (configuration : Configuration) : ArchiveError → Prop
  /-- A checksum of the directory of cards does not fit. -/
  | checksum {tag : TypeCode} (verifies : configuration.verifyChecksums = true)
    (listing : tag = .list ∨ tag = .page) (identifier : Int) (stored computed : UInt32) :
    Refuses configuration (.checksumMismatch tag identifier stored computed)
  /-- The ring of backgrounds is longer than the limit. -/
  | chain : Refuses configuration (.corrupt (.chainTooLong configuration.maxChainLength))

/-- The errors of opening a file that settings are to blame for. -/
inductive RefusesToOpen (configuration : Configuration) : ArchiveError → Prop
  /-- No chain is allowed at all. -/
  | limit (none : configuration.maxChainLength = 0) : RefusesToOpen configuration .zeroChainLimit
  /-- The stack block ends before the words that its checksum covers. -/
  | short {stack : Window} {violation : ReadError} (verifies : configuration.verifyChecksums = true)
    (ends : StackBlock.checksumResidue stack = .error violation) :
    RefusesToOpen configuration (.bounds violation)
  /-- The checksum of the stack block does not fit. -/
  | checksum (verifies : configuration.verifyChecksums = true) (stored computed : UInt32) :
    RefusesToOpen configuration (.checksumMismatch .stack (-1) stored computed)

end Configuration

/-- Stricter settings refuse at most what they are to blame for. -/
theorem Configuration.IsStricter.isNarrower {strict loose : Configuration}
    (stricter : strict.IsStricter loose) :
    Configuration.IsNarrower strict.Refuses strict loose where
  checksums := by
    cases verifies : strict.verifyChecksums with
    | false =>
      cases verifiesLoose : loose.verifyChecksums with
      | false => exact .inl rfl
      | true => exact absurd (verifies.symm.trans (stricter.verifies verifiesLoose)) (by decide)
    | true =>
      cases loose.verifyChecksums with
      | true => exact .inl rfl
      | false =>
        exact .inr ⟨rfl, fun _ identifier stored computed listing =>
          .checksum verifies listing identifier stored computed⟩
  chains := .inr ⟨stricter.limit, .chain⟩

/-- How the answer to an operation may differ from one with looser settings. -/
inductive Answer.Tightens (refused : ArchiveError → Prop) : Answer → Answer → Prop
  /-- The results of the operation differ in that way. -/
  | results {operation : Operation} {strict loose : Except ArchiveError operation.Value}
    (tightens : HyperCard.Tightens refused strict loose) :
    Answer.Tightens refused ⟨operation, strict⟩ ⟨operation, loose⟩

/-- Computations one after the other are tightened if each of them is. -/
theorem Tightens.bind {ε α β : Type} {refused : ε → Prop} {strict loose : Except ε α}
    {nextStrict nextLoose : α → Except ε β} (first : Tightens refused strict loose)
    (second : ∀ value, Tightens refused (nextStrict value) (nextLoose value)) :
    Tightens refused (strict >>= nextStrict) (loose >>= nextLoose) := by
  cases first with
  | same =>
    cases strict with
    | error error => exact .same (.error error)
    | ok value => exact second value
  | refusal refuses => exact .refusal refuses _

namespace StackFile

variable {file : StackFile} {strict loose : Configuration}

/-- From states that agree with the directory on, the answers to operations one after the other
differ by refusals only. -/
theorem answers_tightened (stricter : strict.IsStricter loose) (operations : List Operation)
    {cache other : Cache} (recalls : file.Recalls cache) (recallsOther : file.Recalls other) :
    List.Forall₂ (Answer.Tightens strict.Refuses)
      ((file.under strict).answers cache operations)
      ((file.under loose).answers other operations) := by
  induction operations generalizing cache other with
  | nil => exact .nil
  | cons operation operations ih =>
    obtain ⟨strictResult, looseResult, givesStrict, givesLoose, tightens⟩ :=
      @restricts_request file _ _ _ stricter.isNarrower operation
    obtain ⟨later, run, kept⟩ := givesStrict cache recalls
    obtain ⟨laterOther, runOther, keptOther⟩ := givesLoose other recallsOther
    rw [answers, answers, run, runOther]
    exact .cons (.results tightens) (ih kept keptOther)

section Opening

/-- The check of the stack block, if settings ask for it. -/
def checkStack (configuration : Configuration) (stack : StackBlock) (window : Window) :
    Except ArchiveError Unit := do
  if configuration.verifyChecksums && stack.version.isTwo then
    let residue ← StackBlock.checksumResidue window
    if residue != 0 then
      throw (.checksumMismatch .stack (-1) stack.checksum (stack.checksum - residue))

/-- Opening a file is one step after the other, and the check is one of them. -/
theorem read_eq_checkStack (data : Window) (configuration : Configuration) :
    read data configuration = (do
      configuration.validate
      let stackLength ← data.unsigned 4 0
      let stackWindow ← data.sub 0 stackLength
      let stack ← StackBlock.read stackWindow
      checkStack configuration stack stackWindow
      let masterLength ← data.unsigned 4 stackLength
      let master ← data.sub stackLength (masterLength % 0x10000000)
      let _ ← BlockHeader.read master 0
      let records ← DirectoryRecord.readAll master
      return { data, version := stack.version, stack, records, configuration }) := by
  unfold read checkStack
  refine bind_congr fun _ => bind_congr fun stackLength => bind_congr fun stackWindow =>
    bind_congr fun stack => ?_
  split
  · rw [bind_assoc]
    refine bind_congr fun residue => ?_
    split <;> rfl
  · rfl

/-- A file has the settings that it was opened with. -/
theorem read_under (data : Window) (configuration : Configuration) :
    (·.under configuration) <$> read data configuration = read data configuration := by
  simp only [read_eq_checkStack, map_bind]
  rfl

/-- The check fails only where settings ask for it. -/
theorem refusesToOpen_of_checkStack {stack : StackBlock} {window : Window} {error : ArchiveError}
    (failed : checkStack strict stack window = .error error) : strict.RefusesToOpen error := by
  by_cases checks : (strict.verifyChecksums && stack.version.isTwo) = true
  · have verifies := (Bool.and_eq_true_iff.mp checks).1
    rw [checkStack, if_pos checks] at failed
    cases computed : StackBlock.checksumResidue window with
    | error violation =>
      rw [computed] at failed
      cases failed
      exact .short verifies computed
    | ok residue =>
      simp only [computed, liftM_ok, bind, Except.bind] at failed
      by_cases broken : (residue != 0) = true
      · rw [if_pos broken] at failed
        cases failed
        exact .checksum verifies stack.checksum (stack.checksum - residue)
      · rw [if_neg broken] at failed
        cases failed
  · rw [checkStack, if_neg checks] at failed
    cases failed

variable (stricter : strict.IsStricter loose)

include stricter

/-- Strict settings are refused for their limit, or accepted as the others are. -/
theorem validate_tightened :
    Tightens strict.RefusesToOpen strict.validate loose.validate := by
  by_cases none : strict.maxChainLength = 0
  · rw [Configuration.validate, if_pos none]
    exact .refusal (.limit none) loose.validate
  · have least := stricter.limit
    have some : ¬loose.maxChainLength = 0 := by omega
    rw [Configuration.validate, Configuration.validate, if_neg none, if_neg some]
    exact .same (.ok ())

/-- The stack block is checked alike, or only strict settings check it and may refuse it. -/
theorem checkStack_tightened (stack : StackBlock) (window : Window) :
    Tightens strict.RefusesToOpen (checkStack strict stack window)
      (checkStack loose stack window) := by
  by_cases verifies : loose.verifyChecksums = true
  · have same : checkStack strict stack window = checkStack loose stack window := by
      rw [checkStack, checkStack, verifies, stricter.verifies verifies]
    rw [same]
    exact .same (checkStack loose stack window)
  · have passes : checkStack loose stack window = .ok () := by
      rw [checkStack, Bool.eq_false_iff.mpr verifies]
      rfl
    rw [passes]
    cases checked : checkStack strict stack window with
    | ok => exact .same (.ok ())
    | error error => exact .refusal (refusesToOpen_of_checkStack checked) (.ok ())

/-- Strict settings open a file as others do, or refuse to. -/
theorem read_tightened (data : Window) :
    Tightens strict.RefusesToOpen (read data strict) ((·.under strict) <$> read data loose) := by
  simp only [read_eq_checkStack, map_bind]
  apply Tightens.bind (validate_tightened stricter)
  intro _
  refine .bind (.same _) fun stackLength => .bind (.same _) fun stackWindow =>
    .bind (.same _) fun stack => ?_
  apply Tightens.bind (checkStack_tightened stricter stack stackWindow)
  intro _
  exact .same _

end Opening

/-- **Stricter settings only refuse.** A file is opened as with other settings, unless the stricter
ones are to blame, and what cannot be opened with the others cannot be opened with these. Where it
is opened, it can be opened with the others too, and may be asked for any operations in a row. Each
operation then gives the same value or the same error in both files, or else an error that the
stricter settings are to blame for. So whatever fails with the others fails with these, and what
these give, such as the ring of backgrounds within a smaller limit, the others give. -/
theorem stricter_only_refuses (data : Window) (stricter : strict.IsStricter loose) :
    Tightens strict.RefusesToOpen (read data strict) ((·.under strict) <$> read data loose) ∧
    ∀ file, read data strict = .ok file → read data loose = .ok (file.under loose) ∧
      ∀ operations, List.Forall₂ (Answer.Tightens strict.Refuses)
        (file.answers [] operations) ((file.under loose).answers [] operations) := by
  have tightened := read_tightened stricter data
  refine ⟨tightened, fun file opened => ?_⟩
  rw [opened] at tightened
  cases openedLoose : read data loose with
  | error error =>
    rw [openedLoose] at tightened
    cases tightened
  | ok other =>
    have own := read_under data loose
    rw [openedLoose] at tightened own
    cases tightened
    have empty : other.Recalls [] := fun _ remembered => nomatch remembered
    refine ⟨own.symm, fun operations => ?_⟩
    exact answers_tightened stricter operations empty empty

end StackFile

/-- A file of the first generation with a list whose checksum does not fit. -/
def damagedFile : List UInt8 :=
  [0, 0, 1, 0xC0] ++ List.replicate 15 0 ++ [8] ++ List.replicate 35 0 ++ [5] ++
    List.replicate 392 0 ++
    [0, 0, 0, 36, 0x4D, 0x41, 0x53, 0x54] ++ List.replicate 24 0 ++ [0, 0, 0x10, 5] ++
    List.replicate 28 0 ++
    [0, 0, 0, 40, 0x4C, 0x49, 0x53, 0x54, 0, 0, 0, 5] ++ List.replicate 20 0 ++ [0, 0, 0, 1] ++
    List.replicate 4 0

/-- Strict settings open the file and refuse the list, which the usual ones give. -/
theorem stricter_only_refuses_damaged :
    let data := Window.ofArray damagedFile.toArray
    let strict : Configuration := { maxChainLength := 1, verifyChecksums := true }
    strict.IsStricter {} ∧ ∃ file, StackFile.read data strict = .ok file ∧
      StackFile.read data {} = .ok (file.under {}) ∧
      (∀ operations, List.Forall₂ (Answer.Tightens strict.Refuses)
        (file.answers [] operations) ((file.under {}).answers [] operations)) ∧
      (file.list.run []).1 = .error (.checksumMismatch .list 5 1 0) ∧
      ((file.under {}).list.run []).1.toOption.map ListBlock.checksum = some 1 := by
  intro data strict
  have stricter : strict.IsStricter {} := ⟨fun _ => rfl, by decide⟩
  have opened : ∃ file, StackFile.read data strict = .ok file ∧
      (file.list.run []).1 = .error (.checksumMismatch .list 5 1 0) ∧
      ((file.under {}).list.run []).1.toOption.map ListBlock.checksum = some 1 :=
    exists_of_check (by decide +kernel)
  obtain ⟨file, read, results⟩ := opened
  obtain ⟨readLoose, answers⟩ := (StackFile.stricter_only_refuses data stricter).2 file read
  exact ⟨stricter, file, read, readLoose, answers, results⟩

end HyperCard
