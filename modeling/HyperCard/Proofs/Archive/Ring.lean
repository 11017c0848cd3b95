import HyperCard.Proofs.Archive.Enumeration
import HyperCard.Proofs.Archive.Strictness

/-!
# The ring of backgrounds

Each background names the next one, and the stack block names the first. Following the links visits
one identifier after the other. It comes to an end in one of four ways: a link leads back to the
first identifier, the background of an identifier cannot be read, a link leads back to another
identifier, or there are as many backgrounds as the settings allow and the last link leads to yet
another identifier than the first. Only in the first way are there backgrounds to give, and then
these are all that were visited, in order.
-/
namespace HyperCard

namespace StackFile

/-- The background with an identifier, as the directory gives it. -/
def backgroundAt (file : StackFile) (identifier : Int) : Except ArchiveError BackgroundBlock := do
  let block ← file.locate .background identifier file.records
  BackgroundBlock.read block.window file.version

/-- A background that was visited. -/
structure Visit where
  /-- The identifier that it was looked for with. -/
  identifier : Int
  /-- The background. -/
  background : BackgroundBlock

/-- Whether following the links from the first background visits these, one after the other, and
leads to an identifier in the end. -/
inductive Walk (file : StackFile) : List Visit → Int → Prop
  /-- The stack block names the first identifier. -/
  | start : Walk file [] file.stack.firstBackgroundId
  /-- A background names the next one. -/
  | next {visits : List Visit} {identifier : Int} {background : BackgroundBlock}
    (walk : Walk file visits identifier) (read : file.backgroundAt identifier = .ok background) :
    Walk file (visits ++ [⟨identifier, background⟩]) background.nextBackgroundId

/-- The identifiers of visits. -/
abbrev identifiers (visits : List Visit) : List Int := visits.map Visit.identifier

/-- Whether backgrounds are the ring of a file: the links lead from the first one through all of
them back to it, no identifier is visited twice, and there are no more than are allowed. -/
def IsRing (file : StackFile) (limit : Nat) (backgrounds : List BackgroundBlock) : Prop :=
  ∃ visits, visits ≠ [] ∧ file.Walk visits file.stack.firstBackgroundId ∧
    (identifiers visits).Nodup ∧ visits.length ≤ limit ∧
    backgrounds = visits.map Visit.background

/-- Why a file has no ring of backgrounds. Up to there, no identifier was visited twice. -/
inductive Breaks (file : StackFile) (limit : Nat) : ArchiveError → Prop
  /-- The background of an identifier cannot be found or cannot be read. -/
  | unreadable {visits : List Visit} {identifier : Int} {error : ArchiveError}
    (walk : file.Walk visits identifier) (distinct : (identifiers visits).Nodup)
    (fresh : identifier ∉ identifiers visits) (short : visits.length < limit)
    (failed : file.backgroundAt identifier = .error error) : Breaks file limit error
  /-- An identifier other than the first is visited again. -/
  | loops {visits : List Visit} {identifier : Int} (walk : file.Walk visits identifier)
    (distinct : (identifiers visits).Nodup) (again : identifier ∈ identifiers visits)
    (away : identifier ≠ file.stack.firstBackgroundId) (short : visits.length < limit) :
    Breaks file limit (.corrupt (.chainLoops identifier file.stack.firstBackgroundId))
  /-- As many backgrounds as are allowed do not lead back to the first identifier. -/
  | tooLong {visits : List Visit} {identifier : Int} (walk : file.Walk visits identifier)
    (distinct : (identifiers visits).Nodup) (away : identifier ≠ file.stack.firstBackgroundId)
    (full : visits.length = limit) : Breaks file limit (.corrupt (.chainTooLong limit))

variable {file : StackFile} {visits : List Visit} {identifier : Int}

/-- The first identifier is visited first. -/
theorem Walk.first_mem (walk : file.Walk visits identifier) (some : visits ≠ []) :
    file.stack.firstBackgroundId ∈ identifiers visits := by
  induction walk with
  | start => exact absurd rfl some
  | @next visits identifier background walk read ih =>
    rw [identifiers, List.map_append, List.mem_append]
    cases walk with
    | start => exact .inr List.mem_cons_self
    | next walk read => exact .inl (ih (by simp))

/-- A walk ends with a background that names the identifier. -/
theorem Walk.exists_last (walk : file.Walk visits identifier) (some : visits ≠ []) :
    ∃ before last background, visits = before ++ [⟨last, background⟩] ∧ file.Walk before last ∧
      file.backgroundAt last = .ok background ∧ background.nextBackgroundId = identifier := by
  cases walk with
  | start => exact absurd rfl some
  | next walk read => exact ⟨_, _, _, rfl, walk, read, rfl⟩

/-- Where one more identifier is visited once, it is a new one. -/
theorem nodup_visit {visit : Visit} : (identifiers (visits ++ [visit])).Nodup ↔
    (identifiers visits).Nodup ∧ visit.identifier ∉ identifiers visits := by
  rw [identifiers, List.map_append, List.nodup_append]
  simp [identifiers]

/-- A file has the settings that it was opened with. -/
theorem configuration_of_read {data : Window} {configuration : Configuration}
    (opened : read data configuration = .ok file) : file.configuration = configuration := by
  have same := read_under data configuration
  rw [opened] at same
  exact (congrArg StackFile.configuration (Except.ok.inj same)).symm

/-- Some chain is allowed wherever a file was opened. -/
theorem positive_of_read {data : Window} {configuration : Configuration}
    (opened : read data configuration = .ok file) : 0 < configuration.maxChainLength := by
  obtain ⟨_, valid, _⟩ := exists_of_bind opened
  by_cases none : configuration.maxChainLength = 0
  · rw [Configuration.validate, if_pos none] at valid
    cases valid
  · exact Nat.pos_of_ne_zero none

/-- Following the links from where a walk has led comes to an end, with the ring or without. -/
theorem Walk.isRing_or_breaks {limit : Nat} (positive : 0 < limit)
    (walk : file.Walk visits identifier) (distinct : (identifiers visits).Nodup)
    (away : visits ≠ [] → identifier ≠ file.stack.firstBackgroundId)
    (within : visits.length ≤ limit) :
    (∃ backgrounds, file.IsRing limit backgrounds) ∨ ∃ error, file.Breaks limit error := by
  -- The induction is on how many more backgrounds may be visited.
  induction remaining : limit - visits.length generalizing visits identifier with
  | zero =>
    have some : visits ≠ [] := List.ne_nil_of_length_pos (by omega)
    exact .inr ⟨_, .tooLong walk distinct (away some) (by omega)⟩
  | succ remaining ih =>
    by_cases again : identifier ∈ identifiers visits
    · have some : visits ≠ [] := by
        rintro rfl
        cases again
      exact .inr ⟨_, .loops walk distinct again (away some) (by omega)⟩
    · cases found : file.backgroundAt identifier with
      | error error => exact .inr ⟨error, .unreadable walk distinct again (by omega) found⟩
      | ok background =>
        have longer := walk.next found
        have apart : (identifiers (visits ++ [⟨identifier, background⟩])).Nodup :=
          nodup_visit.mpr ⟨distinct, again⟩
        have count : (visits ++ [Visit.mk identifier background]).length = visits.length + 1 := by
          rw [List.length_append, List.length_singleton]
        by_cases closed : background.nextBackgroundId = file.stack.firstBackgroundId
        · rw [closed] at longer
          exact .inl ⟨_, _, by simp, longer, apart, by omega, rfl⟩
        · exact ih longer apart (fun _ => closed) (by omega) (by omega)

section Following

variable {first : Int} {remaining : Nat} {visited : List Int}
  {background : BackgroundBlock} {result : Except ArchiveError (List BackgroundBlock)}

/-- A request for a background gives what the directory gives. -/
theorem gives_background (identifier : Int) :
    file.Gives (file.background identifier) (file.backgroundAt identifier) := by
  have found := @gives_findBlock file .background identifier
  unfold background backgroundAt
  cases located : file.locate .background identifier file.records with
  | error error =>
    rw [located] at found
    exact found.bind_error
  | ok block =>
    rw [located] at found
    exact found.bind (gives_result _)

/-- An identifier that was visited before is not visited again. -/
theorem gives_seen (seen : identifier ∈ visited) :
    file.Gives (file.ringFrom first (remaining + 1) visited identifier)
      (.error (.corrupt (.chainLoops identifier first))) := by
  unfold ringFrom
  rw [if_pos (List.contains_iff_mem.mpr seen)]
  exact gives_result (.error _)

/-- An identifier that is new is looked for. -/
theorem ringFrom_fresh (fresh : identifier ∉ visited) :
    file.ringFrom first (remaining + 1) visited identifier = do
      let background ← file.background identifier
      if background.nextBackgroundId = first then return [background]
      return background ::
        (← file.ringFrom first remaining (identifier :: visited) background.nextBackgroundId) := by
  rw [ringFrom, if_neg (mt List.contains_iff_mem.mp fresh)]

/-- A background that cannot be read ends the ring with the error of the read. -/
theorem gives_unreadable {error : ArchiveError} (fresh : identifier ∉ visited)
    (failed : file.backgroundAt identifier = .error error) :
    file.Gives (file.ringFrom first (remaining + 1) visited identifier) (.error error) := by
  have given := @gives_background file identifier
  rw [failed] at given
  rw [ringFrom_fresh fresh]
  exact given.bind_error

/-- A background that names the first one closes the ring. -/
theorem gives_last (fresh : identifier ∉ visited)
    (read : file.backgroundAt identifier = .ok background)
    (closed : background.nextBackgroundId = first) :
    file.Gives (file.ringFrom first (remaining + 1) visited identifier) (.ok [background]) := by
  have given := @gives_background file identifier
  rw [read] at given
  rw [ringFrom_fresh fresh]
  refine given.bind ?_
  rw [if_pos closed]
  exact gives_result (.ok _)

/-- A background that names another one comes before what follows from there. -/
theorem gives_next (fresh : identifier ∉ visited)
    (read : file.backgroundAt identifier = .ok background)
    (away : background.nextBackgroundId ≠ first)
    (later : file.Gives (file.ringFrom first remaining (identifier :: visited)
      background.nextBackgroundId) result) :
    file.Gives (file.ringFrom first (remaining + 1) visited identifier)
      ((background :: ·) <$> result) := by
  have given := @gives_background file identifier
  rw [read] at given
  rw [ringFrom_fresh fresh]
  refine given.bind ?_
  rw [if_neg away]
  cases result with
  | error error => exact later.bind_error
  | ok backgrounds => exact later.bind (gives_result (.ok _))

/-- What follows a walk comes behind the backgrounds that were visited. -/
theorem gives_walk (walk : file.Walk visits identifier) (distinct : (identifiers visits).Nodup)
    (away : visits ≠ [] → identifier ≠ file.stack.firstBackgroundId)
    (later : file.Gives (file.ringFrom file.stack.firstBackgroundId remaining
      (identifiers visits).reverse identifier) result) :
    file.Gives (file.ringFrom file.stack.firstBackgroundId (visits.length + remaining) []
        file.stack.firstBackgroundId)
      ((visits.map Visit.background ++ ·) <$> result) := by
  induction walk generalizing remaining result with
  | start =>
    have same : ([] ++ ·) <$> result = result := by cases result <;> rfl
    rw [List.map_nil, same, List.length_nil, Nat.zero_add]
    exact later
  | @next visits identifier background walk read ih =>
    obtain ⟨apart, fresh⟩ := nodup_visit.mp distinct
    have unseen : identifier ∉ (identifiers visits).reverse := mt List.mem_reverse.mp fresh
    have onwards : file.Gives (file.ringFrom file.stack.firstBackgroundId remaining
        (identifier :: (identifiers visits).reverse) background.nextBackgroundId) result := by
      rw [identifiers, List.map_append, List.reverse_append] at later
      exact later
    have given := ih apart
      (fun some same => fresh (same ▸ walk.first_mem some))
      (gives_next unseen read (away (by simp)) onwards)
    have joined :
        ((visits ++ [Visit.mk identifier background]).map Visit.background ++ ·) <$> result =
          (visits.map Visit.background ++ ·) <$> (background :: ·) <$> result := by
      cases result with
      | error error => rfl
      | ok backgrounds => simp [Functor.map, Except.map]
    rw [joined, List.length_append, List.length_singleton, Nat.add_assoc, Nat.add_comm 1]
    exact given

/-- The backgrounds of a ring are given. -/
theorem gives_ring {backgrounds : List BackgroundBlock}
    (ring : file.IsRing file.configuration.maxChainLength backgrounds) :
    file.Gives file.backgrounds (.ok backgrounds) := by
  obtain ⟨visits, some, walk, distinct, within, rfl⟩ := ring
  obtain ⟨before, last, background, rfl, walk, read, closed⟩ := walk.exists_last some
  obtain ⟨apart, fresh⟩ := nodup_visit.mp distinct
  have unseen : last ∉ (identifiers before).reverse := mt List.mem_reverse.mp fresh
  rw [List.length_append, List.length_singleton] at within
  obtain ⟨unused, limit⟩ := Nat.exists_eq_add_of_le within
  have given := gives_walk walk apart (fun some same => fresh (same ▸ walk.first_mem some))
    (@gives_last file _ _ unused _ _ unseen read closed)
  rw [backgrounds, limit, List.map_append, Nat.add_assoc, Nat.add_comm 1]
  exact given

/-- Where there is no ring, the reason is given. -/
theorem gives_break {error : ArchiveError}
    (breaks : file.Breaks file.configuration.maxChainLength error) :
    file.Gives file.backgrounds (.error error) := by
  unfold backgrounds
  cases breaks with
  | @unreadable visits identifier _ walk distinct fresh short failed =>
    obtain ⟨unused, limit⟩ := Nat.exists_eq_add_of_lt short
    have unseen : identifier ∉ (identifiers visits).reverse := mt List.mem_reverse.mp fresh
    rw [limit, Nat.add_assoc]
    exact gives_walk walk distinct (fun some same => fresh (same ▸ walk.first_mem some))
      (@gives_unreadable file _ _ unused _ _ unseen failed)
  | @loops visits identifier walk distinct again away short =>
    obtain ⟨unused, limit⟩ := Nat.exists_eq_add_of_lt short
    rw [limit, Nat.add_assoc]
    exact gives_walk walk distinct (fun _ => away)
      (@gives_seen file _ _ unused _ (List.mem_reverse.mpr again))
  | @tooLong visits identifier walk distinct away full =>
    have given := @gives_walk file visits identifier 0 _ walk distinct (fun _ => away)
      (gives_result (.error (.corrupt (.chainTooLong file.configuration.maxChainLength))))
    rw [Nat.add_zero, full] at given
    exact given

end Following

/-- A request gives its own result, whatever was asked before. -/
theorem Gives.run_after {α : Type} {request : Request α} {result : Except ArchiveError α}
    (gives : file.Gives request result) (earlier : List Operation) :
    (request.run (file.stateAfter earlier)).1 = result := by
  obtain ⟨later, run, _⟩ := gives _ (recalls_stateAfter file earlier)
  rw [run]

/-- **The backgrounds of a file are its ring.** Following the links always comes to an end. Whatever
was asked before, asking an opened file for its backgrounds gives them exactly where they are the
ring, and an error exactly for the reason that there is none. -/
theorem backgrounds_follow_ring {data : Window} {configuration : Configuration}
    (opened : read data configuration = .ok file) (earlier : List Operation) :
    ((∃ backgrounds, file.IsRing configuration.maxChainLength backgrounds) ∨
      ∃ error, file.Breaks configuration.maxChainLength error) ∧
    (∀ backgrounds, (file.backgrounds.run (file.stateAfter earlier)).1 = .ok backgrounds ↔
      file.IsRing configuration.maxChainLength backgrounds) ∧
    ∀ error, (file.backgrounds.run (file.stateAfter earlier)).1 = .error error ↔
      file.Breaks configuration.maxChainLength error := by
  have positive := positive_of_read opened
  obtain rfl := configuration_of_read opened
  have begun : file.Walk [] file.stack.firstBackgroundId := .start
  have ends := begun.isRing_or_breaks positive List.nodup_nil (fun none => absurd rfl none)
    (Nat.zero_le _)
  refine ⟨ends, ?_⟩
  obtain ⟨found, ring⟩ | ⟨failure, breaks⟩ := ends
  · have given := (gives_ring ring).run_after earlier
    rw [given]
    refine ⟨fun backgrounds => ⟨?_, fun other => ?_⟩, fun error => ⟨nofun, fun breaks => ?_⟩⟩
    · rintro ⟨⟩
      exact ring
    · exact given.symm.trans ((gives_ring other).run_after earlier)
    · exact given.symm.trans ((gives_break breaks).run_after earlier)
  · have given := (gives_break breaks).run_after earlier
    rw [given]
    refine ⟨fun backgrounds => ⟨nofun, fun ring => ?_⟩, fun error => ⟨?_, fun other => ?_⟩⟩
    · exact given.symm.trans ((gives_ring ring).run_after earlier)
    · rintro ⟨⟩
      exact breaks
    · exact given.symm.trans ((gives_break other).run_after earlier)

end StackFile

/-- The block of a background that names the next one, without anything else. -/
def linkBlock (identifier next : UInt8) : List UInt8 :=
  [0, 0, 0, 52, 0x42, 0x4B, 0x47, 0x44, 0, 0, 0, identifier] ++ List.replicate 16 0 ++
    [0, 0, 0, next] ++ List.replicate 20 0

/-- A file with two backgrounds that name each other. -/
def pairFile : List UInt8 :=
  [0, 0, 1, 0xC0] ++ List.replicate 15 0 ++ [10] ++ List.replicate 23 0 ++ [5] ++
    List.replicate 404 0 ++ [0, 0, 0, 64, 0x4D, 0x41, 0x53, 0x54] ++ List.replicate 24 0 ++
    [0, 0, 0x10, 5, 0, 0, 0x12, 7] ++ List.replicate 24 0 ++ linkBlock 5 7 ++
    List.replicate 12 0 ++ linkBlock 7 5

/-- Both backgrounds are given where no chain may be longer than two. -/
theorem backgrounds_follow_ring_pair :
    ∃ file, StackFile.read (.ofArray pairFile.toArray) { maxChainLength := 2 } = .ok file ∧
      ∀ earlier, ∃ backgrounds,
        (file.backgrounds.run (file.stateAfter earlier)).1 = .ok backgrounds ∧
          backgrounds.map (·.layer.identifier) = [5, 7] := by
  have linked : ∃ file,
      StackFile.read (.ofArray pairFile.toArray) { maxChainLength := 2 } = .ok file ∧
      file.stack.firstBackgroundId = 5 ∧
      (file.backgroundAt 5).toOption.any (fun background =>
        background.layer.identifier = 5 ∧ background.nextBackgroundId = 7) = true ∧
      (file.backgroundAt 7).toOption.any (fun background =>
        background.layer.identifier = 7 ∧ background.nextBackgroundId = 5) = true :=
    exists_of_check (by decide +kernel)
  obtain ⟨file, opened, first, five, seven⟩ := linked
  obtain ⟨one, readOne, nameOne, nextOne⟩ := exists_of_check five
  obtain ⟨two, readTwo, nameTwo, nextTwo⟩ := exists_of_check seven
  have walk : file.Walk [⟨5, one⟩, ⟨7, two⟩] 5 := by
    have begun : file.Walk [] 5 := first ▸ .start
    have onwards := begun.next readOne
    rw [nextOne] at onwards
    have back := onwards.next readTwo
    rw [nextTwo] at back
    exact back
  have ring : file.IsRing 2 [one, two] := by
    refine ⟨[⟨5, one⟩, ⟨7, two⟩], by simp, ?_, by simp [StackFile.identifiers], by simp, rfl⟩
    rw [first]
    exact walk
  refine ⟨file, opened, fun earlier => ⟨[one, two], ?_, by simp [nameOne, nameTwo]⟩⟩
  exact ((StackFile.backgrounds_follow_ring opened earlier).2.1 _).mpr ring

end HyperCard
