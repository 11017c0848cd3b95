import HyperCard.Proofs.Grammar.Quoting

/-!
# Literal texts, character by character

The matcher of a literal text knows the rest of the text, whether the last character that stood for
one of the text was a blank, and before the text the character just before. That is enough to be
complete exactly at the end of a writing of the text and to go on exactly inside of one: from every
state that is not complete the rest of the text itself leads to the end, after a blank where the
text has not begun and might go on with a word.
-/
namespace HyperCard.Grammar

variable {ι : Type} {Val : ι → Type} {Value : Type}

namespace Literal

/-- What may be written where a text is expected after a character: any blanks, then its first
character, which does not go on with a word, and then what may be written for its other ones. -/
def IsWriting (literal : Literal Value) (previous : Option UInt8) (input : List UInt8) : Prop :=
  ∃ expected remaining blanks first rest,
    literal.text.characters = expected :: remaining ∧ input = blanks ++ first :: rest ∧
      (∀ character ∈ blanks, Character.isBlank character) ∧
      Same literal.ignoresCase expected first ∧
      Character.joinsWord (before previous blanks) first = false ∧
      Spells literal.ignoresCase remaining rest

section Progress

variable {literal : Literal Value} {previous : Option UInt8} {input : List UInt8}
  {progress : LiteralProgress}

/-- The writings of a text are the segments that it matches. -/
theorem segment_iff_isWriting {language : Language ι} (proper : literal.Proper) :
    Segment language input previous (.literal literal : Pattern Val Value) ↔
      literal.IsWriting previous input := by
  obtain ⟨expected, remaining, text, solid⟩ := proper
  constructor
  · intro segment
    cases segment with
    | @literal _ _ _ blanks rest first blank apart spells =>
      rw [text, spells_cons_iff solid] at spells
      exact ⟨expected, remaining, blanks, first, rest, text, rfl, blank, spells.1, apart, spells.2⟩
  · rintro ⟨_, _, blanks, first, rest, same, rfl, blank, stands, apart, spells⟩
    obtain ⟨rfl, rfl⟩ := List.cons.inj (text.symm.trans same)
    refine .literal blank apart ?_
    rw [text, spells_cons_iff solid]
    exact ⟨stands, spells⟩

/-- A text is complete exactly after its writings. -/
theorem complete_iff_isWriting (proper : literal.Proper) :
    (∃ progress, literal.advanceAll (.awaiting previous) input = some progress ∧
      IsComplete progress) ↔ literal.IsWriting previous input := by
  let language : Language Unit := fun _ _ _ => False
  exact (@segment_literal_iff Unit (fun _ => Unit) Value language literal proper _ _).symm.trans
    (segment_iff_isWriting proper)

/-- A text is complete when nothing is left of it. -/
theorem isComplete_iff_remaining (proper : literal.Proper) :
    IsComplete progress ↔ progress.remaining literal.text.characters = [] := by
  obtain ⟨expected, rest, text, _⟩ := proper
  cases progress with
  | awaiting previous => simp [IsComplete, LiteralProgress.remaining, text]
  | inside afterBlank remaining matched =>
    cases remaining <;> simp [IsComplete, LiteralProgress.remaining]

/-- As long as something is left of a text, some characters complete it. -/
theorem exists_completion (proper : literal.Proper)
    (left : progress.remaining literal.text.characters ≠ []) :
    ∃ more later, more ≠ [] ∧ literal.advanceAll progress more = some later ∧
      IsComplete later := by
  cases progress with
  | awaiting previous =>
    -- A blank in front of the text separates it from a word that it would go on with.
    obtain ⟨expected, rest, text, _⟩ := id proper
    have apart : Character.joinsWord (before previous [Character.space]) expected = false := by
      rw [Character.joinsWord, before_cons, before_nil, Option.any_some]
      exact Bool.and_false _
    have blank : ∀ character ∈ [Character.space], Character.isBlank character :=
      List.forall_mem_singleton.mpr rfl
    obtain ⟨later, reached, complete⟩ := (complete_iff_isWriting proper).mpr
      ⟨expected, rest, [Character.space], expected, rest, text, rfl, blank, .refl _ _, apart,
        .refl _ _⟩
    exact ⟨_, later, by simp, reached, complete⟩
  | inside afterBlank remaining matched =>
    have finishes : literal.Finishes afterBlank remaining remaining :=
      .of_spells literal (.refl _ _) afterBlank
    obtain ⟨final, reached⟩ := (finishes_iff literal _ _ _ matched).mp finishes
    exact ⟨remaining, _, left, reached, trivial⟩

/-- Something is left of a text exactly after the proper beginnings of its writings. -/
theorem continues_iff_begins (proper : literal.Proper) :
    (∃ progress, literal.advanceAll (.awaiting previous) input = some progress ∧
      progress.remaining literal.text.characters ≠ []) ↔
      (∃ more, more ≠ [] ∧ literal.IsWriting previous (input ++ more)) ∧
        ¬ literal.IsWriting previous input := by
  constructor
  · rintro ⟨progress, reached, left⟩
    constructor
    · obtain ⟨more, later, nonempty, further, complete⟩ := exists_completion proper left
      refine ⟨more, nonempty, (complete_iff_isWriting proper).mp ⟨later, ?_, complete⟩⟩
      rw [advanceAll_append, reached, Option.bind_some, further]
    · intro writing
      obtain ⟨other, also, complete⟩ := (complete_iff_isWriting proper).mpr writing
      obtain rfl := Option.some.inj (reached.symm.trans also)
      exact left ((isComplete_iff_remaining proper).mp complete)
  · rintro ⟨⟨more, nonempty, writing⟩, short⟩
    obtain ⟨later, reached, complete⟩ := (complete_iff_isWriting proper).mpr writing
    rw [advanceAll_append] at reached
    obtain ⟨progress, begun, _⟩ := Option.bind_eq_some_iff.mp reached
    refine ⟨progress, begun, fun nothing => short ?_⟩
    exact (complete_iff_isWriting proper).mp
      ⟨progress, begun, (isComplete_iff_remaining proper).mpr nothing⟩

end Progress

variable {grammar : Grammar Val} {name : ι} {literal : Literal (Val name)}

/-- **A literal text is matched by its writings.** Whatever character comes before, a matcher of a
text that begins with no blank is complete exactly after the writings of the text, and may go on
exactly after the proper beginnings of writings that are none themselves. The writing without the
blanks in front is what updates the value of the branch. -/
theorem matches_writings (proper : literal.Proper) (previous : Option UInt8)
    (input : List UInt8) :
    ((∃ progress, literal.advanceAll (.awaiting previous) input = some progress ∧
        IsComplete progress) ↔ literal.IsWriting previous input) ∧
      ((∃ progress, literal.advanceAll (.awaiting previous) input = some progress ∧
          progress.remaining literal.text.characters ≠ []) ↔
        (∃ more, more ≠ [] ∧ literal.IsWriting previous (input ++ more)) ∧
          ¬ literal.IsWriting previous input) ∧
      ∀ front last, input = front ++ [last] → literal.IsWriting previous input →
        ∀ place : Place Val (Val name),
          grammar.feedAll (.live (.cons (.literal place literal (.awaiting previous)) .nil)) input =
            place.complete (literal.update place.value ⟨RomanString.dropBlanks input⟩) last := by
  refine ⟨complete_iff_isWriting proper, continues_iff_begins proper, ?_⟩
  intro front last whole writing place
  obtain ⟨progress, reached, complete⟩ := (complete_iff_isWriting proper).mpr writing
  obtain ⟨final, rfl⟩ := matched_eq proper reached complete
  have ends : before previous input = some last := by
    rw [whole, before_append, before_cons, before_nil]
  have nonempty : input ≠ [] := by
    rw [whole]
    exact List.concat_ne_nil _ _
  rw [feedAll_literal_complete ends nonempty reached, List.reverse_reverse]

/-- Two words in any case, which count the characters that are written for them. -/
def goTo : Literal Nat :=
  ⟨⟨[0x67, 0x6F, 0x20, 0x74, 0x6F]⟩, true, fun count matched => count + matched.characters.length⟩

/-- After a letter, two words with a space and a tabulation between them are complete behind a
space, and six characters count; at the space between them they may go on. -/
theorem matches_writings_two_words :
    goTo.Proper ∧ goTo.IsWriting (some 0x78) [0x20, 0x47, 0x4F, 0x20, 0x09, 0x54, 0x6F] ∧
      (∃ more, more ≠ [] ∧ goTo.IsWriting (some 0x78) ([0x20, 0x47, 0x4F, 0x20] ++ more)) ∧
      ∀ place : Place (fun _ : Unit => Nat) Nat,
        brackets.feedAll
            (.live (.cons (.literal place goTo (.awaiting (some 0x78))) .nil) : Matcher _ ())
            [0x20, 0x47, 0x4F, 0x20, 0x09, 0x54, 0x6F] =
          place.complete (place.value + 6) 0x6F := by
  have proper : goTo.Proper := ⟨0x67, [0x6F, 0x20, 0x74, 0x6F], rfl, rfl⟩
  obtain ⟨complete, _, updates⟩ := @matches_writings _ _ brackets () goTo proper (some 0x78)
    [0x20, 0x47, 0x4F, 0x20, 0x09, 0x54, 0x6F]
  obtain ⟨_, continues, _⟩ := @matches_writings _ _ brackets () goTo proper (some 0x78)
    [0x20, 0x47, 0x4F, 0x20]
  have writing := complete.mp ⟨_, rfl, trivial⟩
  exact ⟨proper, writing, (continues.mp ⟨_, rfl, List.cons_ne_nil _ _⟩).1,
    updates [0x20, 0x47, 0x4F, 0x20, 0x09, 0x54] 0x6F rfl writing⟩

end Literal
end HyperCard.Grammar
