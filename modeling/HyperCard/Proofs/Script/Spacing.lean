import HyperCard.Proofs.Grammar.Blanks
import HyperCard.Proofs.Script.Proper

/-!
# Words any distance apart

Strings are the only rule of the language with quotes, and no other rule has blanks of its own but
those between the words of an operator. So the blanks of a line outside of its strings only divide
what stands beside them, and it does not matter how many there are or whether they are spaces or
tabulations.
-/
namespace HyperCard.HyperTalk

open Grammar.Element hiding nested
open Grammar (IsGap)

section Rules

variable {Value : Type}

/-- A nested rule has no spelling of its own. -/
@[simp] theorem isSilent_nested_rule {rule : RuleName} {update : Value → rule.Value → Value} :
    (nested rule update : ElementOf Value).IsSilent :=
  isSilent_nested

/-- Nor has an operand of a level. -/
@[simp] theorem isSilent_operand {update : Value → Expression → Value} (level : Level) :
    (operand update level).IsSilent := by
  cases level <;> exact isSilent_nested

/-- How an operator is spelled makes no difference to its value. -/
theorem isSilent_tail (level : Level) :
    ∀ branch ∈ (tailRule level).branches, ∀ element ∈ branch, element.IsSilent := by
  intro branch member
  obtain ⟨entry, _, rfl⟩ := List.mem_map.mp member
  simp

/-- Nor does how the word for an ordinal is spelled. -/
theorem isSilent_ordinal :
    ∀ branch ∈ ordinalRule.branches, ∀ element ∈ branch, element.IsSilent := by
  have word : ∀ (spelling : String) (ordinal : Ordinal),
      ∀ element ∈ [(keywordWith spelling fun _ _ => ordinal : ElementOf Ordinal)],
        element.IsSilent := by
    intro spelling ordinal
    simp
  intro branch member
  rcases List.mem_append.mp member with numbered | named
  · obtain ⟨index, _, rfl⟩ := List.mem_mapIdx.mp numbered
    exact word _ _
  · simp only [List.mem_cons, List.not_mem_nil, or_false] at named
    rcases named with rfl | rfl | rfl | rfl <;> exact word _ _

/-- No value depends on how a word of the language is written. -/
theorem isSilent_of_mem (name : RuleName) :
    ∀ branch ∈ (rule name).branches, ∀ element ∈ branch, element.IsSilent := by
  cases name with
  | tail level => exact isSilent_tail level
  | ordinal => exact isSilent_ordinal
  | _ =>
    simp [rule, define, Grammar.Rule.branches, wordRule, numberRule, stringRule, expressionRule,
      factorRule, callRule, nextArgumentRule, unaryRule, levelRule, relativeRule, cardLayerRule,
      backgroundRule, layerRule, cardWords, backgroundWords, ofBackgroundRule, cardRule,
      ofCardRule, layerWordRule, partKindRule, partWords, partRule, stackRule, objectRule,
      destinationRule, goRule, containerRule, putTargetRule, putRule, otherReplyRule, answerRule,
      beepRule, wordsRule, visualRule, commandRule]

end Rules

/-- The quotes of every branch are closed. -/
theorem closesQuotes : grammar.ClosesQuotes := by
  have unquoted : ∀ name ∈ RuleName.all, name ≠ .string → ∀ branch ∈ (grammar.rule name).branches,
      branch.all isUnquoted = true := by decide +kernel
  intro name branch member
  by_cases string : name = .string
  · subst string
    obtain rfl := List.mem_singleton.mp member
    have mark : (character (· == Character.quote) skip : ElementOf Spelling).IsMark :=
      ⟨⟨_, rfl, fun _ accepted => eq_of_beq accepted⟩, rfl, rfl⟩
    exact .mark mark (.content ⟨_, rfl, rfl⟩ (.mark mark .nil))
  · apply Grammar.quotes_of_plain
    intro element inside
    have all := unquoted name (mem_all name) string branch member
    exact (isSilent_of_mem name branch member element inside).isPlain
      (List.all_eq_true.mp all element inside)

/-- Blanks outside of strings may be replaced by any others. -/
theorem parse_respaced (name : RuleName) {front gap other rest : List UInt8}
    (even : front.count Character.quote % 2 = 0) (isGap : IsGap gap) (isOther : IsGap other) :
    parse name ⟨front ++ gap ++ rest⟩ = parse name ⟨front ++ other ++ rest⟩ := by
  rw [List.append_assoc, List.append_assoc]
  exact Grammar.parse_gap_eq closesQuotes name even isGap isOther

/-- The words of an operator may stand any distance apart, after a string with a space in it. -/
theorem parse_respaced_operator :
    (RomanString.encodeOrRaw "\"a \" is").characters.count Character.quote % 2 = 0 ∧
    IsGap [Character.space] ∧ IsGap [Character.tabulation, Character.space] ∧
    parse .expression ⟨(RomanString.encodeOrRaw "\"a \" is").characters ++ [Character.space] ++
        (RomanString.encodeOrRaw "in x").characters⟩ =
      parse .expression ⟨(RomanString.encodeOrRaw "\"a \" is").characters ++
        [Character.tabulation, Character.space] ++
        (RomanString.encodeOrRaw "in x").characters⟩ ∧
    (parse .expression (.encodeOrRaw "\"a \" is in x")).isSome = true := by
  have even : (RomanString.encodeOrRaw "\"a \" is").characters.count Character.quote % 2 = 0 := by
    decide
  have space : IsGap [Character.space] := Grammar.isGap_singleton rfl
  have wider : IsGap [Character.tabulation, Character.space] := Grammar.isGap_cons rfl space.blank
  exact ⟨even, space, wider, parse_respaced .expression even space wider, by decide +kernel⟩

end HyperCard.HyperTalk
