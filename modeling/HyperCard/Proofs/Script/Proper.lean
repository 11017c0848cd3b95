import HyperCard.Proofs.Grammar.Proper
import HyperCard.Proofs.Grammar.Termination
import HyperCard.Script.Rules

/-!
# The grammar of HyperTalk is proper

No rule begins with itself: an expression begins with its loosest level, a level with the next
tighter one, and a factor with no operator at all. Every word and symbol of the language has a
first character that is no blank. So matching follows the rules of the language, and it ends on
every line.
-/
namespace HyperCard

namespace Level

/-- The position of a level from the loosest to the tightest. -/
def rank : Level → Nat
  | .or => 0
  | .and => 1
  | .comparison => 2
  | .concatenation => 3
  | .additive => 4
  | .multiplicative => 5
  | .exponent => 6

end Level

namespace HyperTalk

/-- How many rules a rule may begin with, one inside the other. -/
def height : RuleName → Nat
  | .expression => 11
  | .level level => 10 - level.rank
  | .unary => 3
  | .factor => 2
  | .call => 1
  | .object | .destination | .container => 3
  | .card | .part => 2
  | .cardLayer | .background | .partKind | .words | .command => 1
  | _ => 0

/-- Every rule is listed. -/
theorem mem_all (name : RuleName) : name ∈ RuleName.all := by
  cases name with
  | level level => cases level <;> decide
  | tail level => cases level <;> decide
  | _ => decide

/-- The grammar of the language is proper. -/
theorem grammar_proper : grammar.Proper :=
  .of_rank height RuleName.all (Nat.le_refl _) mem_all (by decide +kernel)

end HyperTalk

namespace Grammar

/-- **Matching ends.** In every grammar where no rule begins with itself, be it through other rules,
feeding a matcher the characters of a text ends, each of them being passed to finitely many nested
matchers, and there is one result, which is that of the definition. The grammar of HyperTalk is such
a grammar, so each of its rules ends on every line, with the value that parsing gives it. -/
theorem matching_ends :
    (∀ {ι : Type} {Val : ι → Type} (grammar : Grammar Val), grammar.Grounded →
      ∀ (name : ι) (matcher : Matcher Val name) (text : List UInt8), ∃ passed,
        Runs grammar matcher text (grammar.feedAll matcher text) passed ∧
          ∀ last those, Runs grammar matcher text last those →
            last = grammar.feedAll matcher text ∧ those = passed) ∧
    HyperTalk.grammar.Grounded ∧
    ∀ (name : RuleName) (text : RomanString), ∃ last passed,
      Runs HyperTalk.grammar (HyperTalk.grammar.start name none) text.trimmed.characters last
          passed ∧
        HyperTalk.grammar.parse name text = last.value := by
  have grounded := HyperTalk.grammar_proper.grounded
  refine ⟨fun grammar grounded _ matcher text => ?_, grounded, fun name text => ?_⟩
  · obtain ⟨passed, runs⟩ := grounded.exists_runs matcher text
    exact ⟨passed, runs, fun last those also => also.unique runs⟩
  · obtain ⟨passed, runs⟩ :=
      grounded.exists_runs (HyperTalk.grammar.start name none) text.trimmed.characters
    refine ⟨_, passed, runs, ?_⟩
    rw [parse, parse_go_eq, valueAfter]

/-- A letter in two pairs of brackets. -/
theorem matching_ends_brackets : brackets.Grounded ∧
    ∃ passed, Runs brackets (brackets.start () none) [0x28, 0x28, 0x78, 0x29, 0x29]
      (brackets.feedAll (brackets.start () none) [0x28, 0x28, 0x78, 0x29, 0x29]) passed := by
  have grounded := brackets_proper.grounded
  obtain ⟨passed, runs, _⟩ :=
    matching_ends.1 brackets grounded () (brackets.start () none) [0x28, 0x28, 0x78, 0x29, 0x29]
  exact ⟨grounded, passed, runs⟩

end Grammar
end HyperCard
