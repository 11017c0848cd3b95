import HyperCard.Proofs.Grammar.Denotation

/-!
# How the texts of rules end

Blanks are read before a text or a nested rule and never after it. So the texts of a rule end in no
blank, as long as no branch ends in an element that takes blanks itself.
-/
namespace HyperCard.Grammar

variable {ι : Type} {Val : ι → Type} {Value : Type}

/-- Whether an occurrence of an element ends in no blank, if the texts of rules do. -/
def Element.endsSolid (element : Element Val Value) : Bool :=
  match element.pattern with
  | .literal literal => literal.text.characters.getLast?.all fun last => !Character.isBlank last
  | .character set => !set.accepts Character.space && !set.accepts Character.tabulation
  | .nested _ _ => true

/-- Whether a branch ends in no blank: from the last element on that has to occur, none does. -/
def branchEndsSolid : Branch Val Value → Bool
  | [] => true
  | element :: following =>
    branchEndsSolid following &&
      (element.endsSolid || following.any fun other => 0 < other.minimum)

/-- A text that ends in no blank. -/
def EndsSolid (text : List UInt8) : Prop := ∀ last ∈ text.getLast?, Character.isBlank last = false

/-- The last of two texts decides, if it has characters. -/
theorem EndsSolid.append {left right : List UInt8} (nonempty : right ≠ [])
    (solid : EndsSolid right) : EndsSolid (left ++ right) := by
  rw [EndsSolid, List.getLast?_eq_some_getLast nonempty] at solid
  rw [EndsSolid, List.getLast?_append, List.getLast?_eq_some_getLast nonempty]
  exact solid

variable {language : Language ι} {text : List UInt8} {previous : Option UInt8}

/-- One occurrence of an element that ends in no blank does not, if the texts of nested rules do
not. -/
theorem Segment.endsSolid {element : Element Val Value}
    (segment : Segment (fun _ _ text => EndsSolid text) text previous element.pattern)
    (solid : element.endsSolid = true) : EndsSolid text := by
  unfold Element.endsSolid at solid
  revert solid
  generalize element.pattern = pattern at segment
  cases segment with
  | @character _ set _ character accepted =>
    intro solid last member
    obtain rfl : character = last := by simpa using member
    rw [Bool.and_eq_true, Bool.not_eq_true', Bool.not_eq_true'] at solid
    cases blank : Character.isBlank character with
    | false => rfl
    | true =>
      simp only [Character.isBlank, Bool.or_eq_true, beq_iff_eq] at blank
      rcases blank with rfl | rfl
      · rw [accepted] at solid
        cases solid.1
      · rw [accepted] at solid
        cases solid.2
  | @literal _ literal _ _ _ _ _ _ spells =>
    intro solid
    have listed : literal.text.characters.getLast?.all fun last => !Character.isBlank last := solid
    refine EndsSolid.append (List.cons_ne_nil _ _) (spells.last_solid fun last member => ?_)
    rw [Option.mem_def.mp member] at listed
    simpa using listed
  | nested _ _ _ inner => exact fun _ => EndsSolid.append (List.cons_ne_nil _ _) inner

/-- Nor do several of them: the last one has characters. -/
theorem Repeats.endsSolid {element : Element Val Value} {index count position : Nat}
    {occurrences : List Occurrence}
    (repeats : Repeats (fun _ _ text => EndsSolid text) text previous element.pattern index count
      position occurrences)
    (solid : element.endsSolid = true) : EndsSolid text := by
  generalize same : element.pattern = pattern at repeats
  induction repeats with
  | none => exact fun _ member => by cases member
  | @more _ _ _ first rest _ _ _ _ segment _ ih =>
    subst same
    by_cases nonempty : rest = []
    · subst nonempty
      rw [List.append_nil]
      exact segment.endsSolid solid
    · exact EndsSolid.append nonempty (ih solid rfl)

/-- Nor does what a whole branch reads: behind its last occurrence no element has to occur. -/
theorem Reads.endsSolid {branch : Branch Val Value} {index position : Nat}
    {occurrences : List Occurrence}
    (reads : Reads (fun _ _ text => EndsSolid text) text previous branch index position
      occurrences)
    (solid : branchEndsSolid branch = true) : EndsSolid text := by
  induction reads with
  | nil => exact fun _ member => by cases member
  | @cons _ element following _ first rest _ _ _ _ _ repeats _ _ reads ih =>
    rw [branchEndsSolid, Bool.and_eq_true, Bool.or_eq_true] at solid
    obtain ⟨after, here⟩ := solid
    by_cases nonempty : rest = []
    · subst nonempty
      rw [List.append_nil]
      refine repeats.endsSolid (here.resolve_right fun needed => ?_)
      obtain ⟨other, member, least⟩ := List.any_eq_true.mp needed
      have absent := List.all_eq_true.mp (reads_nil_iff.mp reads).2 other member
      rw [beq_iff_eq] at absent
      rw [absent] at least
      cases least
    · exact EndsSolid.append nonempty (ih after)

/-- Where all branches end in no blank, the texts of rules do. -/
theorem Matches.endsSolid {grammar : Grammar Val} {name : ι}
    (solid : ∀ name, ∀ branch ∈ (grammar.rule name).branches, branchEndsSolid branch = true)
    (matched : grammar.Matches name previous text) : EndsSolid text := by
  refine Matches.induction (motive := fun _ _ text => EndsSolid text) ?_ matched
  intro name previous text branch occurrences member reads
  exact (reads.mono fun _ _ _ known => known.2).endsSolid (solid name branch member)

end HyperCard.Grammar
