import HyperCard.Proofs.Grammar.Reading

/-!
# How a reading goes on

A matcher learns a reading one occurrence at a time, so the rules for whole branches are taken
apart here: after some occurrences of an element comes another one, if its bounds allow, or the
elements after it. `Best` says of an optional value that it is the one which the foremost of
several things gives; where the things are tried in order, the first value found is best.
-/
namespace HyperCard.Grammar

variable {ι : Type} {Val : ι → Type} {Value : Type} {language : Language ι}

/-- No segment is empty. -/
theorem Segment.ne_nil {text : List UInt8} {previous : Option UInt8} {pattern : Pattern Val Value}
    (segment : Segment language text previous pattern) : text ≠ [] := by
  cases segment <;> simp

/-- The occurrences that may come when so many occurrences of an element are complete: more of
that element, then those of the elements after it. -/
def Continues (language : Language ι) (text : List UInt8) (previous : Option UInt8)
    (element : Element Val Value) (following : Branch Val Value) (index count position : Nat)
    (occurrences : List Occurrence) : Prop :=
  ∃ first rest these those more, text = first ++ rest ∧ occurrences = these ++ those ∧
    Repeats language first previous element.pattern index more position these ∧
    element.minimum ≤ count + more ∧ (∀ most ∈ element.maximum, count + more ≤ most) ∧
    Reads language rest (before previous first) following (index + 1) (position + first.length)
      those

/-- The occurrences that may come of which the next one is of the current element. -/
def Begins (language : Language ι) (text : List UInt8) (previous : Option UInt8)
    (element : Element Val Value) (following : Branch Val Value) (index count position : Nat)
    (occurrences : List Occurrence) : Prop :=
  ∃ first rest others, text = first ++ rest ∧
    occurrences = ⟨index, position + first.length⟩ :: others ∧
    Segment language first previous element.pattern ∧
    Continues language rest (before previous first) element following index (count + 1)
      (position + first.length) others

/-- The occurrences of a branch are those that may come before any of its first element. -/
theorem reads_cons_iff {text : List UInt8} {previous : Option UInt8} {element : Element Val Value}
    {following : Branch Val Value} {index position : Nat} {occurrences : List Occurrence} :
    Reads language text previous (element :: following) index position occurrences ↔
      Continues language text previous element following index 0 position occurrences := by
  constructor
  · intro reads
    cases reads with
    | cons repeats enough allowed others =>
      exact ⟨_, _, _, _, _, rfl, rfl, repeats, by simpa using enough, by simpa using allowed,
        others⟩
  · rintro ⟨first, rest, these, those, more, rfl, rfl, repeats, enough, allowed, others⟩
    exact .cons repeats (by simpa using enough) (by simpa using allowed) others

/-- After some occurrences of an element come those of the elements after it, or one more. -/
theorem continues_iff {text : List UInt8} {previous : Option UInt8} {element : Element Val Value}
    {following : Branch Val Value} {index count position : Nat} {occurrences : List Occurrence} :
    Continues language text previous element following index count position occurrences ↔
      (element.minimum ≤ count ∧ (∀ most ∈ element.maximum, count ≤ most) ∧
        Reads language text previous following (index + 1) position occurrences) ∨
      Begins language text previous element following index count position occurrences := by
  constructor
  · rintro ⟨first, rest, these, those, more, rfl, rfl, repeats, enough, allowed, others⟩
    cases repeats with
    | none => exact .inl ⟨by simpa using enough, by simpa using allowed, by simpa using others⟩
    | @more _ _ _ head tail _ fewer _ occurrences segment repeats =>
      refine .inr ⟨head, tail ++ rest, occurrences ++ those, by simp, rfl, segment, tail, rest,
        occurrences, those, fewer, rfl, rfl, repeats, by omega, ?_, ?_⟩
      · intro most found
        have := allowed most found
        omega
      · simpa [Nat.add_assoc] using others
  · rintro (⟨enough, allowed, others⟩ | ⟨head, rest, others, rfl, rfl, segment, tail, after, these,
      those, more, rfl, rfl, repeats, enough, allowed, reads⟩)
    · exact ⟨[], text, [], occurrences, 0, rfl, rfl, .none, by simpa using enough,
        by simpa using allowed, by simpa using others⟩
    · refine ⟨head ++ tail, after, _ :: these, those, more + 1, by simp, rfl,
        .more segment repeats, by omega, ?_, ?_⟩
      · intro most found
        have := allowed most found
        omega
      · simpa [Nat.add_assoc] using reads

/-- The empty text begins with no occurrence. -/
theorem not_begins_nil {previous : Option UInt8} {element : Element Val Value}
    {following : Branch Val Value} {index count position : Nat} {occurrences : List Occurrence} :
    ¬ Begins language [] previous element following index count position occurrences := by
  rintro ⟨first, rest, others, whole, _, segment, _⟩
  exact segment.ne_nil (List.append_eq_nil_iff.mp whole.symm).1

/-- The occurrences that come first are of the first element or of a later one. -/
theorem Reads.index_le {text : List UInt8} {previous : Option UInt8} {branch : Branch Val Value}
    {index position : Nat} {first : Occurrence} {others : List Occurrence}
    (reads : Reads language text previous branch index position (first :: others)) :
    index ≤ first.index := by
  induction branch generalizing index with
  | nil => cases reads
  | cons element following ih =>
    rw [reads_cons_iff, continues_iff] at reads
    rcases reads with ⟨_, _, reads⟩ | ⟨_, _, _, _, same, _⟩
    · have := ih reads
      omega
    · simp only [List.cons.injEq] at same
      simp [same.1]

/-- Without occurrences a branch reads the empty text only. -/
theorem Reads.eq_nil {text : List UInt8} {previous : Option UInt8} {branch : Branch Val Value}
    {index position : Nat} (reads : Reads language text previous branch index position []) :
    text = [] := by
  induction branch generalizing index with
  | nil =>
    cases reads
    rfl
  | cons element following ih =>
    rw [reads_cons_iff, continues_iff] at reads
    rcases reads with ⟨_, _, reads⟩ | ⟨_, _, _, _, same, _⟩
    · exact ih reads
    · cases same

/-- Occurrences that begin with the current element come before those of later elements. -/
theorem Begins.precedes {text : List UInt8} {previous : Option UInt8}
    {element : Element Val Value} {following : Branch Val Value} {index count position : Nat}
    {left right : List Occurrence}
    (begins : Begins language text previous element following index count position left)
    (reads : Reads language text previous following (index + 1) position right) :
    Precedes left right := by
  cases right with
  | nil =>
    rw [reads.eq_nil] at begins
    exact (not_begins_nil begins).elim
  | cons first others =>
    have later := reads.index_le
    obtain ⟨_, _, _, _, rfl, _⟩ := begins
    exact .earlier later

/-- Only a branch all of whose elements may be absent reads the empty text. -/
theorem reads_nil_iff {previous : Option UInt8} {branch : Branch Val Value} {index position : Nat}
    {occurrences : List Occurrence} :
    Reads language [] previous branch index position occurrences ↔
      occurrences = [] ∧ canEnd branch = true := by
  induction branch generalizing index with
  | nil =>
    constructor
    · intro reads
      generalize ([] : List UInt8) = text at reads
      cases reads
      exact ⟨rfl, rfl⟩
    · rintro ⟨rfl, _⟩
      exact .nil
  | cons element following ih =>
    rw [reads_cons_iff, continues_iff, ih]
    simp only [not_begins_nil, or_false, canEnd, List.all_cons, Bool.and_eq_true, beq_iff_eq,
      Nat.le_zero_eq, Nat.zero_le, implies_true, true_and]
    exact ⟨fun ⟨absent, empty, rest⟩ => ⟨empty, absent, rest⟩,
      fun ⟨empty, absent, rest⟩ => ⟨absent, empty, rest⟩⟩

/-- An optional value is what the foremost of some things gives, and is absent if there is no
such thing. -/
def Best {α : Type} (precedes : α → α → Prop) (holds : α → Prop) (gives : α → Value → Prop) :
    Option Value → Prop
  | none => ∀ thing, ¬ holds thing
  | some value => ∃ thing, Foremost precedes holds thing ∧ gives thing value

namespace Best

variable {α : Type} {precedes : α → α → Prop} {holds others : α → Prop}
  {gives : α → Value → Prop} {found : Option Value}

/-- Only which things there are matters. -/
theorem congr (best : Best precedes holds gives found)
    (same : ∀ thing, holds thing ↔ others thing) : Best precedes others gives found := by
  obtain rfl : holds = others := funext fun thing => propext (same thing)
  exact best

/-- The first of two values is best if the things of the first kind come first. -/
theorem orElse {second : Option Value} (best : Best precedes holds gives found)
    (next : Best precedes others gives second)
    (order : ∀ left right, holds left → others right → precedes left right) :
    Best precedes (fun thing => holds thing ∨ others thing) gives (found <|> second) := by
  cases found with
  | none =>
    refine congr next fun thing => ?_
    simp [best thing]
  | some value =>
    obtain ⟨thing, ⟨held, least⟩, given⟩ := best
    refine ⟨thing, ⟨.inl held, ?_⟩, given⟩
    rintro other (same | later)
    · exact least other same
    · exact .inr (order thing other held later)

/-- What is best stays so under a map that keeps the order. -/
theorem map {β : Type} {order : β → β → Prop} {others : β → Value → Prop} {transform : α → β}
    (best : Best precedes holds gives found)
    (monotone : ∀ left right, precedes left right → order (transform left) (transform right))
    (extend : ∀ thing value, gives thing value → others (transform thing) value) :
    Best order (fun image => ∃ thing, image = transform thing ∧ holds thing) others found := by
  cases found with
  | none =>
    rintro _ ⟨thing, rfl, held⟩
    exact best thing held
  | some value =>
    obtain ⟨thing, ⟨held, least⟩, given⟩ := best
    refine ⟨transform thing, ⟨⟨thing, rfl, held⟩, ?_⟩, extend thing value given⟩
    rintro _ ⟨other, rfl, otherHeld⟩
    rcases least other otherHeld with rfl | later
    · exact .inl rfl
    · exact .inr (monotone thing other later)

end Best

end HyperCard.Grammar
