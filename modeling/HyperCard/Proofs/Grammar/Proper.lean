import HyperCard.Proofs.Grammar.Language

/-!
# Checking that a grammar is proper

Of a grammar with finitely many rules it can be computed that it is proper. Every text is looked
at, and the rules that each branch may begin with are listed: they must all have a lower rank
than the rule of the branch, so that no rule begins with itself.
-/
namespace HyperCard.Grammar

variable {ι : Type} {Val : ι → Type} {Value : Type}

/-- Whether the text of an element, if it has one, can be matched. -/
def Element.hasProperText (element : Element Val Value) : Bool :=
  match element.pattern with
  | .literal literal => literal.text.characters.head?.any fun first => !Character.isBlank first
  | _ => true

/-- The rules that a branch may begin with. -/
def leading : Branch Val Value → List ι
  | [] => []
  | element :: following =>
    let others := if element.minimum == 0 then leading following else []
    match element.pattern with
    | .nested rule _ => rule :: others
    | _ => others

/-- The check of an element finds texts that begin with a blank, or with nothing. -/
theorem Element.proper_of_hasProperText {element : Element Val Value} {literal : Literal Value}
    (proper : element.hasProperText) (pattern : element.pattern = .literal literal) :
    literal.Proper := by
  unfold Element.hasProperText at proper
  rw [pattern] at proper
  cases characters : literal.text.characters with
  | nil => simp [characters] at proper
  | cons first rest => exact ⟨first, rest, characters, by simpa [characters] using proper⟩

/-- A branch may begin with the rules that stand after elements which may be absent. -/
theorem mem_leading {skipped following : Branch Val Value} {element : Element Val Value}
    {rule : ι} {update : Value → Val rule → Value}
    (absent : ∀ other ∈ skipped, other.minimum = 0)
    (pattern : element.pattern = .nested rule update) :
    rule ∈ leading (skipped ++ element :: following) := by
  induction skipped with
  | nil => simp [leading, pattern]
  | cons first skipped ih =>
    have later := ih fun other member => absent other (by simp [member])
    have none : first.minimum = 0 := absent first (by simp)
    simp only [List.cons_append, leading, none, beq_self_eq_true, ↓reduceIte]
    split
    · exact List.mem_cons_of_mem _ later
    · exact later

variable {grammar : Grammar Val}

/-- A grammar is proper if its texts can be matched and no rule begins with one of its own rank
or of a higher one. -/
theorem Proper.of_rank (rank : ι → Nat) (names : List ι) (bound : names.length ≤ grammar.size)
    (listed : ∀ name, name ∈ names)
    (checked : ∀ name ∈ names, ∀ branch ∈ (grammar.rule name).branches,
      branch.all Element.hasProperText = true ∧ ∀ rule ∈ leading branch, rank rule < rank name) :
    grammar.Proper := by
  have descends : ∀ name rule, grammar.Leads name rule → rank rule < rank name := by
    intro name rule leads
    obtain ⟨branch, member, skipped, element, following, rfl, absent, update, pattern⟩ := leads
    exact (checked name (listed name) _ member).2 rule (mem_leading absent pattern)
  have lower : ∀ name rule, Relation.TransGen grammar.Leads name rule → rank rule < rank name := by
    intro name rule reached
    induction reached with
    | single leads => exact descends _ _ leads
    | tail _ leads ih => exact Nat.lt_trans (descends _ _ leads) ih
  refine ⟨?_, fun name reached => Nat.lt_irrefl _ (lower name name reached),
    names, bound, fun name _ => listed name⟩
  intro name branch member element inside literal pattern
  have all := (checked name (listed name) branch member).1
  exact element.proper_of_hasProperText (List.all_eq_true.mp all element inside) pattern

/-- Brackets around a letter, counted: a rule that contains itself but does not begin with
itself. -/
def brackets : Grammar fun _ : Unit => Nat where
  rule _ :=
    { name := "brackets"
      initial := 0
      definition := some
        [[.keyword "x"],
          [.literal "(", .nested () fun _ depth => depth + 1, .literal ")"]] }
  size := 1

/-- Brackets are matched as their rule says. -/
theorem brackets_proper : brackets.Proper :=
  .of_rank (fun _ => 0) [()] (by decide) (by simp) (by decide)

end HyperCard.Grammar
