import HyperCard.Proofs.Grammar.Language

/-!
# What a literal text matches

The matcher of a literal text advances over the characters that may be written for the text,
one by one, and is complete exactly at the end of such a writing. `Finishes` is what its state
asks of the characters to come: blanks between two words of the text may go on after the first.
-/
namespace HyperCard.Grammar

variable {ι : Type} {Val : ι → Type} {Value : Type}

namespace Literal

/-- Match characters one by one, or fail. -/
def advanceAll (literal : Literal Value) (progress : LiteralProgress) :
    List UInt8 → Option LiteralProgress
  | [] => some progress
  | character :: rest =>
    match literal.advance progress character with
    | some advanced => literal.advanceAll advanced rest
    | none => none

/-- Whether a text is complete. -/
def IsComplete : LiteralProgress → Prop
  | .inside _ [] _ => True
  | _ => False

/-- What is still to be written for the rest of a text: blanks may go on after a blank of the
text that another character follows. -/
inductive Finishes (literal : Literal Value) : Bool → List UInt8 → List UInt8 → Prop
  /-- Nothing at the end of the text. -/
  | done {afterBlank : Bool} : Finishes literal afterBlank [] []
  /-- One more blank than the text has. -/
  | extra {expected character : UInt8} {text input : List UInt8}
      (blank : Character.isBlank character) (solid : Character.isBlank expected = false)
      (others : Finishes literal true (expected :: text) input) :
      Finishes literal true (expected :: text) (character :: input)
  /-- The next character of the text. -/
  | take {afterBlank : Bool} {expected character : UInt8} {text input : List UInt8}
      (admitted : literal.admits expected character)
      (others : Finishes literal (Character.isBlank expected) text input) :
      Finishes literal afterBlank (expected :: text) (character :: input)

end Literal

/-- A small letter stands for no blank. -/
theorem isBlank_toLower (character : UInt8) :
    Character.isBlank (Character.toLower character) = Character.isBlank character := by
  unfold Character.toLower
  split
  · rename_i capital
    simp only [Character.isCapital, Bool.and_eq_true, decide_eq_true_eq] at capital
    simp only [Character.isBlank, Character.space, Character.tabulation]
    have low := UInt8.le_iff_toNat_le.mp capital.1
    have high := UInt8.le_iff_toNat_le.mp capital.2
    have sum : (character + 0x20).toNat = character.toNat + 32 := by
      rw [UInt8.toNat_add]
      simp only [UInt8.reduceToNat] at high ⊢
      omega
    rw [Bool.eq_iff_iff]
    simp only [Bool.or_eq_true, beq_iff_eq, ← UInt8.toNat_inj, sum, UInt8.reduceToNat] at low ⊢
    omega
  · rfl

/-- Characters that stand for each other are both blanks or both not. -/
theorem Same.isBlank_eq {ignoresCase : Bool} {expected character : UInt8}
    (same : Same ignoresCase expected character) :
    Character.isBlank expected = Character.isBlank character := by
  unfold Same at same
  split at same
  · rw [← isBlank_toLower expected, same, isBlank_toLower]
  · rw [same]

/-- Only nothing is written for the empty text. -/
theorem Spells.eq_nil {ignoresCase : Bool} {input : List UInt8}
    (spells : Spells ignoresCase [] input) : input = [] := by
  generalize empty : ([] : List UInt8) = text at spells
  cases spells with
  | nil => rfl
  | character => cases empty
  | gap nonempty => exact absurd (List.append_eq_nil_iff.mp empty.symm).1 nonempty

/-- Nothing is written only for the empty text. -/
theorem Spells.text_eq_nil {ignoresCase : Bool} {text : List UInt8}
    (spells : Spells ignoresCase text []) : text = [] := by
  generalize empty : ([] : List UInt8) = input at spells
  cases spells with
  | nil => rfl
  | character => cases empty
  | gap nonempty _ _ _ enough =>
    obtain ⟨rfl, _⟩ := List.append_eq_nil_iff.mp empty.symm
    exact absurd (List.eq_nil_of_length_eq_zero (Nat.le_zero.mp enough)) nonempty

/-- What holds of blanks and does not depend on what stands for a character holds of everything
that is written for a text if it holds of the text. -/
theorem Spells.forall_mem {ignoresCase : Bool} {text input : List UInt8} {p : UInt8 → Prop}
    (spells : Spells ignoresCase text input)
    (same : ∀ expected character, Same ignoresCase expected character → p expected → p character)
    (blank : ∀ character, Character.isBlank character → p character)
    (all : ∀ character ∈ text, p character) : ∀ character ∈ input, p character := by
  induction spells with
  | nil => simp
  | @character expected character text input _ stands _ ih =>
    intro other member
    rcases List.mem_cons.mp member with rfl | member
    · exact same expected _ stands (all expected (by simp))
    · exact ih (fun other member => all other (by simp [member])) other member
  | gap _ _ blanks _ _ _ _ ih =>
    intro other member
    rcases List.mem_append.mp member with here | there
    · exact blank other (blanks other here)
    · exact ih (fun other member => all other (by simp [member])) other there

/-- What is written for a text that ends in no blank ends in no blank. -/
theorem Spells.last_solid {ignoresCase : Bool} {text input : List UInt8}
    (spells : Spells ignoresCase text input)
    (solid : ∀ last ∈ text.getLast?, Character.isBlank last = false) :
    ∀ last ∈ input.getLast?, Character.isBlank last = false := by
  induction spells with
  | nil => simp
  | @character expected character text input expectedSolid stands others ih =>
    cases text with
    | nil =>
      obtain rfl := others.eq_nil
      rw [stands.isBlank_eq] at expectedSolid
      simpa using expectedSolid
    | cons next text =>
      have rest := ih (by simpa [List.getLast?_cons_cons] using solid)
      cases input with
      | nil => simpa [stands.isBlank_eq.symm] using expectedSolid
      | cons => simpa [List.getLast?_cons_cons] using rest
  | @gap gap blanks text input nonempty gapBlank _ _ enough _ others ih =>
    cases text with
    | nil =>
      have last := List.getLast?_eq_some_getLast nonempty
      have blank := gapBlank _ (List.getLast_mem nonempty)
      rw [List.append_nil, last] at solid
      simp [solid _ rfl] at blank
    | cons next text =>
      have rest := ih (by simpa using solid)
      cases input with
      | nil =>
        have := others.text_eq_nil
        simp at this
      | cons => simpa using rest

/-- A symbol is written as one that stands for it. -/
theorem Spells.singleton {ignoresCase : Bool} {expected : UInt8} {input : List UInt8}
    (spells : Spells ignoresCase [expected] input) (solid : Character.isBlank expected = false) :
    ∃ character, input = [character] ∧ Same ignoresCase expected character := by
  generalize one : [expected] = text at spells
  cases spells with
  | nil => cases one
  | character _ same others =>
    obtain ⟨rfl, rfl⟩ := List.cons.inj one
    exact ⟨_, by rw [others.eq_nil], same⟩
  | @gap gap _ _ _ nonempty gapBlank =>
    cases gap with
    | nil => exact absurd rfl nonempty
    | cons first gap =>
      have blank := gapBlank first (by simp)
      simp [← (List.cons.inj one).1, solid] at blank

/-- What is written for a text that begins with no blank is a character for the first one and then
what is written for the others. -/
theorem spells_cons_iff {ignoresCase : Bool} {expected character : UInt8}
    {text input : List UInt8} (solid : Character.isBlank expected = false) :
    Spells ignoresCase (expected :: text) (character :: input) ↔
      Same ignoresCase expected character ∧ Spells ignoresCase text input := by
  constructor
  · intro spells
    generalize whole : expected :: text = source at spells
    generalize written : character :: input = target at spells
    cases spells with
    | nil => cases whole
    | character _ same others =>
      obtain ⟨rfl, rfl⟩ := List.cons.inj whole
      obtain ⟨rfl, rfl⟩ := List.cons.inj written
      exact ⟨same, others⟩
    | @gap gap _ _ _ nonempty gapBlank =>
      cases gap with
      | nil => exact absurd rfl nonempty
      | cons first gap =>
        have blank := gapBlank first (by simp)
        simp [← (List.cons.inj whole).1, solid] at blank
  · rintro ⟨same, others⟩
    exact .character solid same others

/-- The first character that is written for a text stands for its first one. -/
theorem Spells.head_same {ignoresCase : Bool} {expected character : UInt8}
    {text input : List UInt8} (spells : Spells ignoresCase (expected :: text) (character :: input))
    (solid : Character.isBlank expected = false) : Same ignoresCase expected character :=
  ((spells_cons_iff solid).mp spells).1

/-- A character stands for itself. -/
theorem Same.refl (ignoresCase : Bool) (character : UInt8) :
    Same ignoresCase character character := by
  unfold Same
  split <;> rfl

/-- A text is written as itself. -/
theorem Spells.refl (ignoresCase : Bool) (text : List UInt8) : Spells ignoresCase text text := by
  induction length : text.length using Nat.strongRecOn generalizing text with
  | ind bound ih =>
    cases text with
    | nil => exact .nil
    | cons first rest =>
      by_cases blank : Character.isBlank first
      · have parts := List.takeWhile_append_dropWhile (p := Character.isBlank) (l := first :: rest)
        have nonempty : (first :: rest).takeWhile Character.isBlank ≠ [] := by
          simp [blank]
        have shorter : ((first :: rest).dropWhile Character.isBlank).length < bound := by
          have lengths := congrArg List.length parts
          have := List.length_pos_iff.mpr nonempty
          rw [List.length_append] at lengths
          omega
        have gapBlank : ∀ character ∈ (first :: rest).takeWhile Character.isBlank,
            Character.isBlank character := fun character member =>
          List.all_eq_true.mp List.all_takeWhile character member
        rw [← parts]
        refine .gap nonempty gapBlank gapBlank ?_ (Nat.le_refl _) (fun _ => rfl)
          (ih _ shorter _ rfl)
        intro character found
        have := List.head?_dropWhile_not Character.isBlank (first :: rest)
        rw [found] at this
        simpa using this
      · exact .character (by simpa using blank) (.refl _ _)
          (ih rest.length (by simp [← length]) rest rfl)

/-- What may be written for a character of a text: any blank for a blank, and otherwise the
character itself. -/
theorem Literal.admits_iff (literal : Literal Value) (expected character : UInt8) :
    literal.admits expected character = true ↔
      if Character.isBlank expected then Character.isBlank character = true
      else Same literal.ignoresCase expected character := by
  unfold Literal.admits Same
  split
  · rfl
  · split <;> simp

namespace Literal

variable (literal : Literal Value)

/-- A blank of a text may be written as any blank. -/
theorem admits_blank {expected character : UInt8} (blank : Character.isBlank expected) :
    literal.admits expected character = Character.isBlank character := by
  simp [admits, blank]

/-- A blank is written for blanks only. -/
theorem isBlank_of_admits {expected character : UInt8}
    (admitted : literal.admits expected character) :
    Character.isBlank character = Character.isBlank expected := by
  rw [admits_iff] at admitted
  by_cases blank : Character.isBlank expected
  · simpa [blank] using admitted
  · simp only [blank, Bool.false_eq_true, ↓reduceIte] at admitted
    exact admitted.isBlank_eq.symm

/-- Blanks at least as many as those of the text finish them, and no more than those at its
end. -/
theorem Finishes.of_blanks {gap blanks text input : List UInt8} (afterBlank : Bool)
    (gapBlank : ∀ character ∈ gap, Character.isBlank character)
    (blank : ∀ character ∈ blanks, Character.isBlank character)
    (maximal : ∀ character ∈ text.head?, Character.isBlank character = false)
    (enough : gap.length ≤ blanks.length) (final : text = [] → blanks.length = gap.length)
    (started : gap = [] → blanks ≠ [] → afterBlank = true)
    (others : ∀ afterBlank, literal.Finishes afterBlank text input) :
    literal.Finishes afterBlank (gap ++ text) (blanks ++ input) := by
  induction blanks generalizing gap afterBlank with
  | nil =>
    obtain rfl : gap = [] := List.eq_nil_of_length_eq_zero (by simpa using enough)
    exact others afterBlank
  | cons character blanks ih =>
    have characterBlank := blank character (by simp)
    have restBlank : ∀ character ∈ blanks, Character.isBlank character :=
      fun character member => blank character (by simp [member])
    cases gap with
    | nil =>
      obtain rfl := started rfl (by simp)
      cases text with
      | nil => simp at final
      | cons expected text =>
        exact .extra characterBlank (maximal expected (by simp))
          (ih true gapBlank restBlank (by simp) (by simp) (fun _ _ => rfl))
    | cons expected gap =>
      have expectedBlank := gapBlank expected (by simp)
      refine .take (by rw [admits_blank literal expectedBlank]; exact characterBlank) ?_
      rw [expectedBlank]
      exact ih true (fun character member => gapBlank character (by simp [member])) restBlank
        (by simpa using enough) (by simpa using final) (fun _ _ => rfl)

/-- Every writing of a text finishes it from its start. -/
theorem Finishes.of_spells {text input : List UInt8}
    (spells : Spells literal.ignoresCase text input) :
    ∀ afterBlank, literal.Finishes afterBlank text input := by
  induction spells with
  | nil => exact fun _ => .done
  | character solid same _ ih =>
    intro afterBlank
    refine .take ?_ (ih _)
    simpa [admits_iff, solid] using same
  | gap nonempty gapBlank blank maximal enough final _ ih =>
    intro afterBlank
    exact Finishes.of_blanks literal afterBlank gapBlank blank maximal enough final
      (fun empty => absurd empty nonempty) ih

/-- What finishes a text is a writing of it, after any blanks that the text goes on with. -/
theorem Finishes.split {afterBlank : Bool} {text input : List UInt8}
    (finishes : literal.Finishes afterBlank text input) :
    ∃ gap blanks after rest, text = gap ++ after ∧ input = blanks ++ rest ∧
      (∀ character ∈ gap, Character.isBlank character) ∧
      (∀ character ∈ blanks, Character.isBlank character) ∧
      (∀ character ∈ after.head?, Character.isBlank character = false) ∧
      gap.length ≤ blanks.length ∧ (after = [] → blanks.length = gap.length) ∧
      (afterBlank = false → gap = [] → blanks = []) ∧
      Spells literal.ignoresCase after rest := by
  induction finishes with
  | done => exact ⟨[], [], [], [], by simp [Spells.nil]⟩
  | @extra expected character text input blank solid _ ih =>
    obtain ⟨gap, blanks, after, rest, whole, rfl, gapBlank, restBlank, maximal, enough, final, _,
      spells⟩ := ih
    obtain rfl : gap = [] := by
      cases gap with
      | nil => rfl
      | cons first gap =>
        simp only [List.cons_append, List.cons.injEq] at whole
        have := gapBlank first (by simp)
        simp [← whole.1, solid] at this
    refine ⟨[], character :: blanks, after, rest, whole, rfl, by simp, ?_, maximal, by simp, ?_,
      by simp, spells⟩
    · simpa [blank] using restBlank
    · rintro rfl
      simp at whole
  | @take afterBlank expected character text input admitted _ ih =>
    obtain ⟨gap, blanks, after, rest, rfl, rfl, gapBlank, restBlank, maximal, enough, final,
      started, spells⟩ := ih
    have sameKind := literal.isBlank_of_admits admitted
    by_cases blank : Character.isBlank expected
    · refine ⟨expected :: gap, character :: blanks, after, rest, rfl, rfl, ?_, ?_, maximal,
        by simpa using enough, by simpa using final, by simp, spells⟩
      · simpa [blank] using gapBlank
      · simpa [sameKind, blank] using restBlank
    · have solid : Character.isBlank expected = false := by simpa using blank
      have same : Same literal.ignoresCase expected character := by
        simpa [admits_iff, solid] using admitted
      refine ⟨[], [], expected :: gap ++ after, character :: blanks ++ rest, rfl, rfl, by simp,
        by simp, by simpa using solid, by simp, by simp, by simp, .character solid same ?_⟩
      cases gap with
      | nil =>
        rw [started solid rfl]
        exact spells
      | cons first gap =>
        exact .gap (by simp) gapBlank restBlank maximal enough final spells

/-- What finishes a text from its start are its writings. -/
theorem finishes_false_iff {text input : List UInt8} :
    literal.Finishes false text input ↔ Spells literal.ignoresCase text input := by
  constructor
  · intro finishes
    obtain ⟨gap, blanks, after, rest, rfl, rfl, gapBlank, blank, maximal, enough, final, started,
      spells⟩ := Finishes.split literal finishes
    cases gap with
    | nil =>
      rw [started rfl rfl]
      exact spells
    | cons first gap => exact .gap (by simp) gapBlank blank maximal enough final spells
  · intro spells
    exact Finishes.of_spells literal spells false

/-- Matching goes on over one text after another. -/
theorem advanceAll_append (progress : LiteralProgress) (left right : List UInt8) :
    literal.advanceAll progress (left ++ right) =
      (literal.advanceAll progress left).bind fun reached => literal.advanceAll reached right := by
  induction left generalizing progress with
  | nil => rfl
  | cons character left ih =>
    simp only [List.cons_append, advanceAll]
    cases literal.advance progress character with
    | none => rfl
    | some advanced => exact ih advanced

/-- No character is matched after the end of a text. -/
theorem advanceAll_complete {progress : LiteralProgress} (complete : IsComplete progress)
    {input : List UInt8} {later : LiteralProgress}
    (reached : literal.advanceAll progress input = some later) : input = [] := by
  cases input with
  | nil => rfl
  | cons character input =>
    match progress, complete with
    | .inside afterBlank [] matched, _ => simp [advanceAll, advance] at reached

/-- A character is one more blank, where the text may go on with one, or the next of the text. -/
theorem finishes_cons_iff {afterBlank : Bool} {expected character : UInt8}
    {text input : List UInt8} :
    literal.Finishes afterBlank (expected :: text) (character :: input) ↔
      if Character.isBlank character && afterBlank && !Character.isBlank expected then
        literal.Finishes afterBlank (expected :: text) input
      else literal.admits expected character = true ∧
        literal.Finishes (Character.isBlank expected) text input := by
  split
  case isTrue more =>
    simp only [Bool.and_eq_true, Bool.not_eq_true'] at more
    obtain ⟨⟨blank, rfl⟩, solid⟩ := more
    constructor
    · intro finishes
      cases finishes with
      | extra _ _ others => exact others
      | take admitted others =>
        have same := literal.isBlank_of_admits admitted
        rw [blank, solid] at same
        cases same
    · exact fun others => .extra blank solid others
  case isFalse more =>
    constructor
    · intro finishes
      cases finishes with
      | extra blank solid others => simp [blank, solid] at more
      | take admitted others => exact ⟨admitted, others⟩
    · exact fun taken => .take taken.1 taken.2

/-- Inside a text, one character is matched exactly as `Finishes` takes it. -/
theorem finishes_iff (afterBlank : Bool) (text input matched : List UInt8) :
    literal.Finishes afterBlank text input ↔
      ∃ final, literal.advanceAll (.inside afterBlank text matched) input =
        some (.inside final [] (input.reverse ++ matched)) := by
  induction input generalizing afterBlank text matched with
  | nil =>
    constructor
    · intro finishes
      cases finishes
      exact ⟨afterBlank, rfl⟩
    · rintro ⟨final, reached⟩
      simp only [advanceAll, Option.some.injEq, LiteralProgress.inside.injEq] at reached
      obtain ⟨_, rfl, _⟩ := reached
      exact .done
  | cons character input ih =>
    cases text with
    | nil =>
      constructor
      · intro finishes
        cases finishes
      · rintro ⟨final, reached⟩
        simp [advanceAll, advance] at reached
    | cons expected text =>
      have matchedAll : (character :: input).reverse ++ matched =
          input.reverse ++ character :: matched := by simp
      rw [finishes_cons_iff, matchedAll]
      simp only [advanceAll, advance]
      split
      · exact ih afterBlank (expected :: text) (character :: matched)
      · by_cases admitted : literal.admits expected character = true
        · simp only [admitted, ↓reduceIte, true_and]
          exact ih (Character.isBlank expected) text (character :: matched)
        · simp only [admitted, Bool.false_eq_true, ↓reduceIte, false_and, reduceCtorEq,
            exists_const]

/-- Inside a text, the characters that are matched come before those matched earlier. -/
theorem advanceAll_inside {afterBlank : Bool} {text input matched : List UInt8}
    {later : LiteralProgress}
    (reached : literal.advanceAll (.inside afterBlank text matched) input = some later) :
    ∃ final rest, later = .inside final rest (input.reverse ++ matched) := by
  induction input generalizing afterBlank text matched with
  | nil => exact ⟨afterBlank, text, (Option.some.inj reached).symm⟩
  | cons character input ih =>
    cases text with
    | nil => simp [advanceAll, advance] at reached
    | cons expected text =>
      simp only [advanceAll, advance] at reached
      rw [List.reverse_cons, List.append_assoc]
      split at reached
      · rename_i advanced found
        split at found
        · obtain rfl := Option.some.inj found
          exact ih reached
        · split at found
          · obtain rfl := Option.some.inj found
            exact ih reached
          · cases found
      · cases reached

variable {literal}

/-- Blanks before a text are skipped. -/
theorem advanceAll_blanks (proper : literal.Proper) {previous : Option UInt8}
    {blanks : List UInt8} (blank : ∀ character ∈ blanks, Character.isBlank character) :
    literal.advanceAll (.awaiting previous) blanks =
      some (.awaiting (before previous blanks)) := by
  obtain ⟨expected, rest, text, _⟩ := proper
  induction blanks generalizing previous with
  | nil => rfl
  | cons character blanks ih =>
    have first := blank character (by simp)
    simp only [advanceAll, advance, text, first, ↓reduceIte, before]
    exact ih (fun other member => blank other (by simp [member]))

/-- The first character of a text stands for itself and does not join the word before it. -/
theorem advance_awaiting {expected : UInt8} {rest : List UInt8}
    (text : literal.text.characters = expected :: rest) {previous : Option UInt8}
    {character : UInt8} (solid : Character.isBlank character = false) :
    literal.advance (.awaiting previous) character =
      if literal.admits expected character && !Character.joinsWord previous character then
        some (.inside (Character.isBlank expected) rest [character])
      else none := by
  simp [advance, text, solid]

end Literal

/-- A text is all blanks, or it has a first other character. -/
theorem exists_blanks (text : List UInt8) :
    (∀ character ∈ text, Character.isBlank character) ∨
      ∃ blanks first rest, text = blanks ++ first :: rest ∧
        (∀ character ∈ blanks, Character.isBlank character) ∧
        Character.isBlank first = false := by
  induction text with
  | nil => exact .inl (by simp)
  | cons character text ih =>
    by_cases blank : Character.isBlank character
    · rcases ih with all | ⟨blanks, first, rest, rfl, blanksBlank, solid⟩
      · exact .inl (by simpa [blank] using all)
      · exact .inr ⟨character :: blanks, first, rest, rfl, by simpa [blank] using blanksBlank,
          solid⟩
    · exact .inr ⟨[], character, text, rfl, by simp, by simpa using blank⟩

/-- Dropping blanks leaves the text from its first other character on. -/
theorem dropBlanks_append {blanks rest : List UInt8} {first : UInt8}
    (blank : ∀ character ∈ blanks, Character.isBlank character)
    (solid : Character.isBlank first = false) :
    RomanString.dropBlanks (blanks ++ first :: rest) = first :: rest := by
  unfold RomanString.dropBlanks
  rw [List.dropWhile_append_of_pos blank, List.dropWhile_cons_of_neg (by simp [solid])]

/-- A text that is complete has matched all but the blanks in front. -/
theorem Literal.matched_eq {literal : Literal Value} (proper : literal.Proper)
    {previous : Option UInt8} {text : List UInt8} {later : LiteralProgress}
    (reached : literal.advanceAll (.awaiting previous) text = some later)
    (complete : IsComplete later) :
    ∃ final, later = .inside final [] (RomanString.dropBlanks text).reverse := by
  obtain ⟨expected, remaining, characters, _⟩ := id proper
  rcases exists_blanks text with blank | ⟨blanks, first, rest, rfl, blank, solid⟩
  · rw [advanceAll_blanks proper blank] at reached
    obtain rfl := Option.some.inj reached
    exact complete.elim
  · rw [dropBlanks_append blank solid]
    rw [advanceAll_append, advanceAll_blanks proper blank] at reached
    simp only [Option.bind_some, advanceAll, advance_awaiting characters solid] at reached
    split at reached
    · rename_i found
      split at found
      · obtain rfl := Option.some.inj found
        obtain ⟨final, left, rfl⟩ := advanceAll_inside literal reached
        cases left with
        | nil => exact ⟨final, by simp⟩
        | cons _ _ => exact complete.elim
      · cases found
    · cases reached

/-- A literal text matches exactly what brings it from its start to its end. -/
theorem segment_literal_iff {language : Language ι} {literal : Literal Value}
    (proper : literal.Proper) {previous : Option UInt8} {text : List UInt8} :
    Segment language text previous (.literal literal : Pattern Val Value) ↔
      ∃ later, literal.advanceAll (.awaiting previous) text = some later ∧
        Literal.IsComplete later := by
  obtain ⟨expected, remaining, characters, expectedSolid⟩ := id proper
  constructor
  · intro segment
    cases segment with
    | @literal _ _ _ blanks rest first blank apart spells =>
      rw [characters] at spells
      have finishes := (literal.finishes_false_iff).mpr spells
      cases finishes with
      | take admitted others =>
        have solid := literal.isBlank_of_admits admitted
        rw [expectedSolid] at solid
        obtain ⟨final, reached⟩ := (literal.finishes_iff _ _ _ [first]).mp others
        refine ⟨.inside final [] (rest.reverse ++ [first]), ?_, trivial⟩
        rw [Literal.advanceAll_append, Literal.advanceAll_blanks proper blank]
        simp only [Option.bind_some, Literal.advanceAll,
          Literal.advance_awaiting characters solid, admitted, apart, Bool.not_false,
          Bool.and_true, ↓reduceIte]
        exact reached
  · rintro ⟨later, reached, complete⟩
    obtain ⟨final, rfl⟩ := Literal.matched_eq proper reached complete
    rcases exists_blanks text with blank | ⟨blanks, first, rest, rfl, blank, solid⟩
    · simp [Literal.advanceAll_blanks proper blank] at reached
    · rw [dropBlanks_append blank solid, Literal.advanceAll_append,
        Literal.advanceAll_blanks proper blank] at reached
      simp only [Option.bind_some, Literal.advanceAll,
        Literal.advance_awaiting characters solid] at reached
      by_cases begun : literal.admits expected first &&
          !Character.joinsWord (before previous blanks) first
      · simp only [begun, ↓reduceIte] at reached
        simp only [Bool.and_eq_true, Bool.not_eq_true'] at begun
        have others := (literal.finishes_iff _ _ _ [first]).mpr ⟨final, by simpa using reached⟩
        refine .literal blank begun.2 ?_
        rw [characters]
        exact (literal.finishes_false_iff).mp (.take begun.1 others)
      · simp [begun] at reached

namespace Literal

/-- No text begins with two different writings of a text. -/
theorem first_unique {literal : Literal Value} {progress : LiteralProgress}
    {first other rest tail : List UInt8} {later another : LiteralProgress}
    (reached : literal.advanceAll progress first = some later) (complete : IsComplete later)
    (otherReached : literal.advanceAll progress other = some another)
    (otherComplete : IsComplete another) (same : first ++ rest = other ++ tail) :
    first = other ∧ rest = tail := by
  rcases List.append_eq_append_iff.mp same with ⟨more, rfl, rfl⟩ | ⟨more, rfl, rfl⟩
  · rw [advanceAll_append, reached] at otherReached
    obtain rfl := advanceAll_complete literal complete otherReached
    simp
  · rw [advanceAll_append, otherReached] at reached
    obtain rfl := advanceAll_complete literal otherComplete reached
    simp

/-- Whether a text stops being a writing before it is complete. -/
def fails (literal : Literal Value) (progress : LiteralProgress) : List UInt8 → Bool
  | [] => false
  | character :: rest =>
    match literal.advance progress character with
    | none => true
    | some (.inside _ [] _) => false
    | some later => literal.fails later rest

/-- Whether nothing that begins with a character is a writing of a text. -/
def refuses (literal : Literal Value) (character : UInt8) : Bool :=
  !Character.isBlank character &&
    literal.text.characters.head?.all fun expected => !literal.admits expected character

/-- A text fails at once at a character that it refuses. -/
theorem fails_of_refuses {literal : Literal Value} {character : UInt8}
    (refuses : literal.refuses character = true) (previous : Option UInt8) (rest : List UInt8) :
    literal.fails (.awaiting previous) (character :: rest) = true := by
  simp only [Literal.refuses, Bool.and_eq_true, Bool.not_eq_true'] at refuses
  unfold fails advance
  cases characters : literal.text.characters with
  | nil => rfl
  | cons expected remaining =>
    have other : literal.admits expected character = false := by
      simpa [characters] using refuses.2
    simp [refuses.1, other]

/-- What a text does to a value makes no difference to where it fails. -/
theorem fails_congr {Other : Type} {literal : Literal Value} {other : Literal Other}
    (text : literal.text = other.text) (ignoresCase : literal.ignoresCase = other.ignoresCase)
    (progress : LiteralProgress) (input : List UInt8) :
    literal.fails progress input = other.fails progress input := by
  have advances : ∀ progress character,
      literal.advance progress character = other.advance progress character := by
    obtain ⟨_, _, _⟩ := literal
    obtain ⟨_, _, _⟩ := other
    subst text ignoresCase
    exact fun _ _ => rfl
  induction input generalizing progress with
  | nil => rfl
  | cons character rest ih =>
    rw [fails, fails, advances]
    simp only [ih]

/-- What fails after a blank fails with the blank in front. -/
theorem fails_after_blank {literal : Literal Value} {blank : UInt8} {previous : Option UInt8}
    {rest : List UInt8} (isBlank : Character.isBlank blank)
    (fails : literal.fails (.awaiting (some blank)) rest = true) :
    literal.fails (.awaiting previous) (blank :: rest) = true := by
  rw [Literal.fails, advance]
  cases characters : literal.text.characters with
  | nil => rfl
  | cons expected remaining => simpa [isBlank] using fails

/-- No beginning of a text that has failed is complete. -/
theorem not_isComplete_of_fails {literal : Literal Value} {progress later : LiteralProgress}
    {text more first rest : List UInt8} (fails : literal.fails progress text = true)
    (whole : text ++ more = first ++ rest) (nonempty : first ≠ [])
    (reached : literal.advanceAll progress first = some later) : ¬ IsComplete later := by
  induction text generalizing progress first with
  | nil => cases fails
  | cons character text ih =>
    cases first with
    | nil => exact absurd rfl nonempty
    | cons next first =>
      obtain ⟨rfl, others⟩ := List.cons.inj whole
      simp only [Literal.fails] at fails
      simp only [advanceAll] at reached
      cases found : literal.advance progress character with
      | none => simp [found] at reached
      | some advanced =>
        simp only [found] at fails reached
        have going : literal.fails advanced text = true ∧ ¬ IsComplete advanced := by
          match advanced, fails with
          | .awaiting _, fails => exact ⟨fails, id⟩
          | .inside _ (_ :: _) _, fails => exact ⟨fails, id⟩
        cases first with
        | nil =>
          obtain rfl := Option.some.inj reached
          exact going.2
        | cons other first => exact ih going.1 others (by simp) reached

end Literal

/-- A text that has failed begins with no writing. -/
theorem not_segment_of_fails {language : Language ι} {literal : Literal Value}
    (proper : literal.Proper) {previous : Option UInt8} {text more first rest : List UInt8}
    (fails : literal.fails (.awaiting previous) text = true)
    (whole : text ++ more = first ++ rest) :
    ¬ Segment language first previous (.literal literal : Pattern Val Value) := by
  intro segment
  obtain ⟨later, reached, complete⟩ := (segment_literal_iff proper).mp segment
  have nonempty : first ≠ [] := by
    cases segment
    simp
  exact Literal.not_isComplete_of_fails fails whole nonempty reached complete

/-- A text stands for itself where it does not go on with a word. -/
theorem segment_literal_refl {language : Language ι} {literal : Literal Value}
    {previous : Option UInt8} {first : UInt8} {rest : List UInt8}
    (characters : literal.text.characters = first :: rest)
    (apart : Character.joinsWord previous first = false) :
    Segment language (first :: rest) previous (.literal literal : Pattern Val Value) := by
  rw [← List.nil_append (first :: rest)]
  refine .literal (by simp) apart ?_
  rw [characters]
  exact .refl _ _

end HyperCard.Grammar
