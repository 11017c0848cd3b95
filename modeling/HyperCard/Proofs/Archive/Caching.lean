import HyperCard.Proofs.Archive.Settings

/-!
# Remembering blocks changes no answer

A file may be asked for many things in a row, and whether it remembers the blocks that it finds is a
setting. No operation refuses anything because of it, so each request has one result, whatever was
asked before and with either setting.
-/
namespace HyperCard

namespace StackFile

/-- The same file, opened to remember blocks or not. -/
def caching (file : StackFile) (remembers : Bool) : StackFile :=
  { file with configuration := { file.configuration with cacheBlocks := remembers } }

/-- Whether a request has one result with either setting. -/
def Determines {α : Type} (file : StackFile) (request : Bool → Request α) : Prop :=
  ∃ result, ∀ remembers, file.Gives (request remembers) result

variable {file : StackFile}

/-- Every operation has one result with either setting. -/
theorem determines_request (operation : Operation) :
    file.Determines fun remembers => operation.request (file.caching remembers) := by
  have alike : Configuration.IsNarrower (fun _ => False)
      { file.configuration with cacheBlocks := true }
      { file.configuration with cacheBlocks := false } := ⟨.inl rfl, .inl rfl⟩
  obtain ⟨result, _, remembering, forgetting, tightens⟩ :=
    @restricts_request file _ _ _ alike operation
  cases tightens with
  | same =>
    refine ⟨result, fun remembers => ?_⟩
    cases remembers with
    | false => exact forgetting
    | true => exact remembering
  | refusal refuses => exact refuses.elim

/-- With either setting, the one result is what comes out where nothing is remembered yet. -/
theorem Determines.gives {α : Type} {request : Bool → Request α}
    (determines : file.Determines request) (remembers : Bool) :
    file.Gives (request remembers) ((request true).run []).1 := by
  obtain ⟨result, gives⟩ := determines
  obtain ⟨later, run, _⟩ := gives true [] fun _ remembered => nomatch remembered
  rw [run]
  exact gives remembers

/-- From a state that agrees with the directory on, each operation has its own result. -/
theorem answers_eq (remembers : Bool) (operations : List Operation) (cache : Cache)
    (recalls : file.Recalls cache) :
    (file.caching remembers).answers cache operations = operations.map fun operation =>
      ⟨operation, ((operation.request (file.caching true)).run []).1⟩ := by
  induction operations generalizing cache with
  | nil => rfl
  | cons operation operations ih =>
    obtain ⟨later, run, kept⟩ := (determines_request operation).gives remembers cache recalls
    rw [answers, run, List.map_cons, ih later kept]

/-- Opening a file does not depend on whether it is to remember blocks. -/
theorem read_caching (data : Window) (configuration : Configuration) (remembers : Bool) :
    read data { configuration with cacheBlocks := remembers } =
      (caching · remembers) <$> read data configuration := by
  unfold read
  simp only [map_bind, apply_ite]
  rfl

/-- A file that remembers blocks opens as one that does not, and gives the same answers, which are
those to each operation asked of the file alone. -/
theorem answers_caching (data : Window) (configuration : Configuration) :
    (∃ error, ∀ remembers,
      read data { configuration with cacheBlocks := remembers } = .error error) ∨
    ∃ file : StackFile,
      (∀ remembers, read data { configuration with cacheBlocks := remembers } =
        .ok (file.caching remembers)) ∧
      ∀ operations,
        (file.caching true).answers [] operations = (file.caching false).answers [] operations ∧
        (file.caching true).answers [] operations = operations.map fun operation =>
          ⟨operation, ((operation.request (file.caching true)).run []).1⟩ := by
  cases opened : read data configuration with
  | error error =>
    left
    refine ⟨error, fun remembers => ?_⟩
    rw [read_caching, opened]
    rfl
  | ok file =>
    right
    refine ⟨file, fun remembers => ?_, fun operations => ?_⟩
    · rw [read_caching, opened]
      rfl
    · have empty : file.Recalls [] := fun _ remembered => nomatch remembered
      have remembering := answers_eq true operations [] empty
      exact ⟨remembering.trans (answers_eq false operations [] empty).symm, remembering⟩

end StackFile
end HyperCard
