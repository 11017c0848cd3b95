import HyperCard.Archive.File

/-!
# Laws of requests

A request either fails or gives a value, and in both cases leaves a state behind: what it
remembers. Two requests one after the other are the first one, then the second one in the state
that the first one leaves. A lookup first asks what is remembered, where the settings let it, and
remembers what it finds in the directory. There it stops at the first record that may stand for the
identifier and points at a header with the key.
-/
namespace HyperCard

namespace Request

variable {α β : Type} {request : Request α} {next : α → Request β} {cache later : Cache}

/-- What comes next depends on the result of a request and on the state that it leaves. -/
theorem run_bind : (request >>= next).run cache =
    ExceptT.bindCont next (request.run cache).1 (request.run cache).2 := rfl

/-- After a value comes the next request. -/
theorem run_bind_ok {value : α} (run : request.run cache = (.ok value, later)) :
    (request >>= next).run cache = (next value).run later := by
  rw [run_bind, run]
  rfl

/-- A failure is the result of all that was to come. -/
theorem run_bind_error {error : ArchiveError} (run : request.run cache = (.error error, later)) :
    (request >>= next).run cache = (.error error, later) := by
  rw [run_bind, run]
  rfl

end Request

namespace StackFile

variable {file : StackFile} {tag : TypeCode} {identifier : Int} {cache : Cache} {block : Block}
  {error : ArchiveError}

/-- Where blocks are remembered, a lookup begins with those. -/
theorem run_findBlock (caches : file.configuration.cacheBlocks = true) :
    (file.findBlock tag identifier).run cache =
      ((cache.find? tag identifier).elim (do
        let block ← file.locate tag identifier file.records
        modify (block :: ·)
        return block) fun block => (return block : Request Block)).run cache := by
  have asked : (get : Request Cache).run cache = (.ok cache, cache) := rfl
  rw [findBlock, if_pos caches, Request.run_bind_ok asked]
  cases cache.find? tag identifier <;> rfl

/-- A remembered block is found without the directory. -/
theorem run_findBlock_known (caches : file.configuration.cacheBlocks = true)
    (known : cache.find? tag identifier = some block) :
    (file.findBlock tag identifier).run cache = (.ok block, cache) := by
  rw [run_findBlock caches, known]
  rfl

/-- A block that is not remembered is looked for in the directory and then remembered. -/
theorem run_findBlock_found (caches : file.configuration.cacheBlocks = true)
    (unknown : cache.find? tag identifier = none)
    (found : file.locate tag identifier file.records = .ok block) :
    (file.findBlock tag identifier).run cache = (.ok block, block :: cache) := by
  rw [run_findBlock caches, unknown, found]
  rfl

/-- A lookup that fails leaves what is remembered as it was. -/
theorem run_findBlock_missing (caches : file.configuration.cacheBlocks = true)
    (unknown : cache.find? tag identifier = none)
    (missing : file.locate tag identifier file.records = .error error) :
    (file.findBlock tag identifier).run cache = (.error error, cache) := by
  rw [run_findBlock caches, unknown, missing]
  rfl

/-- Where nothing is remembered the directory answers. -/
theorem run_findBlock_direct (forgets : ¬file.configuration.cacheBlocks = true) :
    (file.findBlock tag identifier).run cache =
      (file.locate tag identifier file.records, cache) := by
  rw [findBlock, if_neg forgets]
  rfl

section Directory

variable {record : DirectoryRecord}

/-- A record that may stand for the identifier and points at the key decides a lookup. -/
theorem locate_cons_of_key {header : BlockHeader} (may : record.mayHold identifier = true)
    (headed : file.header? record = .ok (some header))
    (key : (header.tag, header.identifier) = (tag, identifier)) (records : List DirectoryRecord) :
    file.locate tag identifier (record :: records) = file.blockAt record.offset header := by
  obtain ⟨rfl, rfl⟩ := Prod.mk.inj key
  rw [locate, if_pos may, headed]
  simp only [bind, Except.bind, beq_self_eq_true, Bool.and_self, ↓reduceIte]

/-- Any other record is passed over. -/
theorem locate_cons_of_other {header? : Option BlockHeader}
    (headed : file.header? record = .ok header?)
    (other : record.mayHold identifier = true → ∀ header ∈ header?,
      (header.tag, header.identifier) ≠ (tag, identifier)) (records : List DirectoryRecord) :
    file.locate tag identifier (record :: records) = file.locate tag identifier records := by
  rw [locate, headed]
  by_cases may : record.mayHold identifier = true
  · rw [if_pos may]
    cases header? with
    | none => rfl
    | some header =>
      have differs : ¬(header.tag == tag && header.identifier == identifier) = true := by
        rw [Bool.and_eq_true, beq_iff_eq, beq_iff_eq]
        exact fun equals => other may header rfl (Prod.ext equals.1 equals.2)
      simp only [bind, Except.bind, if_neg differs]
  · rw [if_neg may]

end Directory

end StackFile
end HyperCard
