import HyperCard.Proofs.Bytes.Window
import HyperCard.Proofs.Grammar.Denotation

/-!
# Reading a text in small letters

Where no pattern of a grammar tells capitals from small letters, a text has the same readings in
small letters, because letters keep their places: the same segments end at the same positions, so
the preferred reading is the same one. What changes is what characters and texts pass on to the
values. If every pattern takes small letters to a value in small letters, the whole text does.
-/
namespace HyperCard

namespace Character

/-- A small letter stays as it is. -/
@[simp] theorem toLower_toLower : ∀ character, toLower (toLower character) = toLower character :=
  forall_byte (by decide)

/-- The small letter of a letter is a letter, and other characters stay what they are. -/
@[simp] theorem isAlphanumeric_toLower :
    ∀ character, isAlphanumeric (toLower character) = isAlphanumeric character :=
  forall_byte (by decide)

/-- Whether a character is no letter of ASCII. -/
def isCaseless (character : UInt8) : Bool :=
  !isCapital character && !(0x61 ≤ character && character ≤ 0x7A)

/-- A character without case is the small letter of itself and of no other one. -/
theorem toLower_eq_iff {expected : UInt8} (caseless : isCaseless expected = true)
    (character : UInt8) : toLower character = expected ↔ character = expected := by
  have small : ∀ character, isCapital character = true →
      isCaseless (toLower character) = false := forall_byte (by decide)
  have fixed : ∀ character, isCaseless character = true → toLower character = character :=
    forall_byte (by decide)
  constructor
  · intro same
    by_cases capital : isCapital character = true
    · have cased := small character capital
      rw [same, caseless] at cased
      cases cased
    · rw [← same, toLower, if_neg capital]
  · rintro rfl
    exact fixed character caseless

end Character

namespace RomanString

/-- Blanks have no case, so as many are dropped in small letters. -/
theorem dropBlanks_map_toLower (characters : List UInt8) :
    dropBlanks (characters.map Character.toLower) =
      (dropBlanks characters).map Character.toLower := by
  have kept : Character.isBlank ∘ Character.toLower = Character.isBlank :=
    funext Grammar.isBlank_toLower
  rw [dropBlanks, List.dropWhile_map, kept]
  rfl

/-- So a text without the blanks around it is the same in small letters. -/
theorem trimmed_toLower (text : RomanString) : text.toLower.trimmed = text.trimmed.toLower := by
  unfold trimmed dropFinalBlanks toLower
  rw [dropBlanks_map_toLower, ← List.map_reverse, dropBlanks_map_toLower, ← List.map_reverse]

end RomanString

namespace Grammar

variable {ι : Type} {Val : ι → Type} {Value : Type}

/-- Whether two texts are the same in small letters. -/
def Variant (left right : List UInt8) : Prop :=
  left.map Character.toLower = right.map Character.toLower

/-- Whether two characters, if there are any, are the same in small letters. -/
def VariantBefore (left right : Option UInt8) : Prop :=
  left.map Character.toLower = right.map Character.toLower

section Variant

variable {left right first rest text other : List UInt8} {previous before' : Option UInt8}

/-- Either of two texts is a variant of the other. -/
theorem Variant.symm (variant : Variant left right) : Variant right left := Eq.symm variant

/-- So it is with characters in front of a text. -/
theorem VariantBefore.symm (variant : VariantBefore previous before') :
    VariantBefore before' previous := Eq.symm variant

/-- A text in small letters is a variant of the text. -/
theorem variant_toLower (text : List UInt8) : Variant (text.map Character.toLower) text := by
  rw [Variant, List.map_map]
  exact List.map_congr_left fun character _ => Character.toLower_toLower character

/-- Letters keep their places, so variants are equally long. -/
theorem Variant.length_eq (variant : Variant left right) : left.length = right.length := by
  have lengths := congrArg List.length variant
  rwa [List.length_map, List.length_map] at lengths

/-- A variant is cut where the text is. -/
theorem Variant.exists_append (variant : Variant (first ++ rest) other) :
    ∃ otherFirst otherRest, other = otherFirst ++ otherRest ∧ Variant first otherFirst ∧
      Variant rest otherRest := by
  rw [Variant, List.map_append] at variant
  obtain ⟨otherFirst, otherRest, rfl, firsts, rests⟩ := List.map_eq_append_iff.mp variant.symm
  exact ⟨otherFirst, otherRest, rfl, firsts.symm, rests.symm⟩

/-- Its first character is a variant of that of the text. -/
theorem Variant.exists_cons {character : UInt8} (variant : Variant (character :: rest) other) :
    ∃ otherCharacter otherRest, other = otherCharacter :: otherRest ∧
      Character.toLower character = Character.toLower otherCharacter ∧
      Variant rest otherRest := by
  obtain ⟨otherCharacter, otherRest, rfl, characters, rests⟩ :=
    List.map_eq_cons_iff.mp (Eq.symm variant)
  exact ⟨otherCharacter, otherRest, rfl, characters.symm, rests.symm⟩

/-- There is one variant of the empty text. -/
theorem Variant.eq_nil (variant : Variant [] other) : other = [] :=
  List.map_eq_nil_iff.mp (Eq.symm variant)

/-- Blanks have no case. -/
theorem Variant.blank (variant : Variant left right)
    (blank : ∀ character ∈ left, Character.isBlank character) :
    ∀ character ∈ right, Character.isBlank character := by
  intro character member
  have small : Character.toLower character ∈ left.map Character.toLower := by
    rw [variant]
    exact List.mem_map_of_mem member
  obtain ⟨other, inside, same⟩ := List.mem_map.mp small
  rw [← isBlank_toLower, ← same, isBlank_toLower]
  exact blank other inside

/-- The last character of a text in small letters is its last character as a small letter. -/
theorem map_before (previous : Option UInt8) (text : List UInt8) :
    (before previous text).map Character.toLower =
      before (previous.map Character.toLower) (text.map Character.toLower) := by
  induction text generalizing previous with
  | nil => rfl
  | cons character text ih => exact ih (some character)

/-- Behind variants stand characters that are the same in small letters. -/
theorem VariantBefore.before (previously : VariantBefore previous before')
    (variant : Variant text other) :
    VariantBefore (before previous text) (Grammar.before before' other) := by
  unfold VariantBefore at previously ⊢
  rw [map_before, map_before, previously, variant]

/-- Whether a word goes on does not depend on the case of its characters. -/
theorem VariantBefore.joinsWord_eq {character otherCharacter : UInt8}
    (previously : VariantBefore previous before')
    (same : Character.toLower character = Character.toLower otherCharacter) :
    Character.joinsWord previous character = Character.joinsWord before' otherCharacter := by
  have small : ∀ previous character, Character.joinsWord previous character =
      Character.joinsWord (previous.map Character.toLower) (Character.toLower character) := by
    intro previous character
    cases previous <;> simp [Character.joinsWord]
  rw [small previous, small before', previously, same]

end Variant

/-- Whether a text is the same in any case, be it that it has no letters. -/
def Literal.IsCaseless (literal : Literal Value) : Prop :=
  literal.ignoresCase = false →
    ∀ expected ∈ literal.text.characters, Character.isCaseless expected = true

/-- Whether a pattern matches the same texts in any case, if the rules do. -/
def Pattern.IsCaseless : Pattern Val Value → Prop
  | .literal expected => expected.IsCaseless
  | .character set => ∀ character,
    set.accepts (Character.toLower character) = set.accepts character
  | .nested _ _ => True

/-- Whether a pattern takes small letters to values in small letters, where each type of values
has its own notion of being in small letters. -/
def Pattern.Lowers (lowered : (rule : ι) → Val rule → Val rule) (lower : Value → Value) :
    Pattern Val Value → Prop
  | .literal expected => ∀ old matched,
    expected.update (lower old) (RomanString.toLower matched) = lower (expected.update old matched)
  | .character set => ∀ old character,
    set.update (lower old) (Character.toLower character) = lower (set.update old character)
  | .nested rule update => ∀ old value,
    update (lower old) (lowered rule value) = lower (update old value)

/-- Whether an element matches the same texts in any case, with values in small letters for texts
in small letters. -/
structure Element.Folds (lowered : (rule : ι) → Val rule → Val rule) (lower : Value → Value)
    (element : Element Val Value) : Prop where
  /-- The pattern does not tell capitals from small letters. -/
  caseless : element.pattern.IsCaseless
  /-- The pattern takes small letters to values in small letters. -/
  lowers : element.pattern.Lowers lowered lower

/-- Whether all elements of a rule do so, from an initial value in small letters on. -/
structure Rule.Folds (lowered : (rule : ι) → Val rule → Val rule) (lower : Value → Value)
    (rule : Rule Val Value) : Prop where
  /-- The initial value is in small letters. -/
  initial : lower rule.initial = rule.initial
  /-- All elements do so. -/
  elements : ∀ branch ∈ rule.branches, ∀ element ∈ branch, element.Folds lowered lower

section Elements

variable {lowered : (rule : ι) → Val rule → Val rule} {lower : Value → Value}

/-- How often an element occurs does not matter. -/
@[simp] theorem Element.folds_counts {element : Element Val Value} {minimum : Nat}
    {maximum : Option Nat} :
    (element.counts minimum maximum).Folds lowered lower ↔ element.Folds lowered lower :=
  ⟨fun folds => ⟨folds.caseless, folds.lowers⟩, fun folds => ⟨folds.caseless, folds.lowers⟩⟩

/-- So an element that may be absent folds if it does when it is needed. -/
@[simp] theorem Element.folds_optional {element : Element Val Value} :
    element.optional.Folds lowered lower ↔ element.Folds lowered lower :=
  Element.folds_counts

/-- So does one that may occur any number of times. -/
@[simp] theorem Element.folds_many {element : Element Val Value} :
    element.many.Folds lowered lower ↔ element.Folds lowered lower :=
  Element.folds_counts

/-- So does one that may occur any number of times, but once at least. -/
@[simp] theorem Element.folds_oneOrMore {element : Element Val Value} :
    element.oneOrMore.Folds lowered lower ↔ element.Folds lowered lower :=
  Element.folds_counts

/-- A keyword is the same in any case, so only its update has to keep small letters. -/
@[simp] theorem Element.folds_keywordWith {text : String}
    {update : Value → RomanString → Value} :
    (Element.keywordWith text update : Element Val Value).Folds lowered lower ↔
      ∀ old matched, update (lower old) (RomanString.toLower matched) =
        lower (update old matched) :=
  ⟨fun folds => folds.lowers, fun lowers => ⟨nofun, lowers⟩⟩

/-- A keyword that leaves the value as it is folds. -/
@[simp] theorem Element.folds_keyword {text : String} :
    (Element.keyword text : Element Val Value).Folds lowered lower :=
  Element.folds_keywordWith.mpr fun _ _ => rfl

/-- A text that is written in one way folds if it has no letters. -/
theorem Element.folds_literal {text : String} :
    (Element.literal text : Element Val Value).Folds lowered lower ↔
      ∀ character ∈ (RomanString.encodeOrRaw text).characters,
        Character.isCaseless character = true :=
  ⟨fun folds => folds.caseless rfl, fun caseless => ⟨fun _ => caseless, fun _ _ => rfl⟩⟩

/-- A set of characters folds if it has capitals where it has small letters, and if its update keeps
small letters. -/
@[simp] theorem Element.folds_character {accepts : UInt8 → Bool}
    {update : Value → UInt8 → Value} :
    (Element.character accepts update : Element Val Value).Folds lowered lower ↔
      (∀ character, accepts (Character.toLower character) = accepts character) ∧
        ∀ old character, update (lower old) (Character.toLower character) =
          lower (update old character) :=
  ⟨fun folds => ⟨folds.caseless, folds.lowers⟩, fun ⟨caseless, lowers⟩ => ⟨caseless, lowers⟩⟩

/-- A nested rule folds if its update keeps small letters. -/
@[simp] theorem Element.folds_nested {rule : ι} {update : Value → Val rule → Value} :
    (Element.nested rule update : Element Val Value).Folds lowered lower ↔
      ∀ old value, update (lower old) (lowered rule value) = lower (update old value) :=
  ⟨fun folds => folds.lowers, fun lowers => ⟨trivial, lowers⟩⟩

end Elements

section Recognition

variable {language other : Language ι} {text text' : List UInt8} {previous before' : Option UInt8}

/-- What is written for a text in one case is written for it in any case. -/
theorem Spells.variant {literal : Literal Value} {expected : List UInt8}
    (caseless : literal.ignoresCase = false →
      ∀ character ∈ expected, Character.isCaseless character = true)
    (spells : Spells literal.ignoresCase expected text) (variant : Variant text text') :
    Spells literal.ignoresCase expected text' := by
  induction spells generalizing text' with
  | nil =>
    obtain rfl := variant.eq_nil
    exact .nil
  | @character expected character rest input solid same _ ih =>
    obtain ⟨character', input', rfl, characters, inputs⟩ := variant.exists_cons
    refine .character solid ?_ (ih (fun exact next member => caseless exact next
      (List.mem_cons_of_mem _ member)) inputs)
    unfold Same at same ⊢
    by_cases ignores : literal.ignoresCase = true
    · rw [if_pos ignores] at same ⊢
      exact same.trans characters
    · rw [if_neg ignores] at same ⊢
      have alone := caseless (eq_false_of_ne_true ignores) expected List.mem_cons_self
      subst same
      have small := (Character.toLower_eq_iff alone expected).mpr rfl
      rw [small] at characters
      exact ((Character.toLower_eq_iff alone character').mp characters.symm).symm
  | @gap gap blanks rest input nonempty gapBlank blank maximal enough final _ ih =>
    obtain ⟨blanks', input', rfl, blanksVariant, inputs⟩ := variant.exists_append
    have length := blanksVariant.length_eq
    refine .gap nonempty gapBlank (blanksVariant.blank blank) maximal (by omega)
      (fun last => length.symm.trans (final last)) (ih (fun exact next member =>
        caseless exact next (List.mem_append_right _ member)) inputs)

/-- One occurrence of a pattern in one case is one in any case. -/
theorem Segment.variant {pattern : Pattern Val Value} (caseless : pattern.IsCaseless)
    (respects : ∀ rule {previous before' text text'}, language rule previous text →
      VariantBefore previous before' → Variant text text' → other rule before' text')
    (segment : Segment language text previous pattern)
    (previously : VariantBefore previous before') (variant : Variant text text') :
    Segment other text' before' pattern := by
  cases segment with
  | @character _ set _ character accepted =>
    obtain ⟨character', nothing, rfl, characters, none⟩ := variant.exists_cons
    obtain rfl := none.eq_nil
    have accepts := caseless character'
    rw [← characters, caseless character, accepted] at accepts
    exact .character accepts.symm
  | literal blank apart spells =>
    obtain ⟨blanks', written, rfl, blanks, variant⟩ := variant.exists_append
    have rests := variant
    obtain ⟨first', rest', rfl, firsts, _⟩ := variant.exists_cons
    rw [(previously.before blanks).joinsWord_eq firsts] at apart
    exact .literal (blanks.blank blank) apart (spells.variant caseless rests)
  | @nested _ rule _ _ _ _ first blank solid apart inner =>
    obtain ⟨blanks', written, rfl, blanks, variant⟩ := variant.exists_append
    have rests := variant
    obtain ⟨first', rest', rfl, firsts, _⟩ := variant.exists_cons
    rw [(previously.before blanks).joinsWord_eq firsts] at apart
    rw [← isBlank_toLower, firsts, isBlank_toLower] at solid
    exact .nested (blanks.blank blank) solid apart
      (respects rule inner (previously.before blanks) rests)

/-- Occurrences in one case are occurrences in any case, and end where they did. -/
theorem Repeats.variant {pattern : Pattern Val Value} {index count position : Nat}
    {occurrences : List Occurrence} (caseless : pattern.IsCaseless)
    (respects : ∀ rule {previous before' text text'}, language rule previous text →
      VariantBefore previous before' → Variant text text' → other rule before' text')
    (repeats : Repeats language text previous pattern index count position occurrences)
    (previously : VariantBefore previous before') (variant : Variant text text') :
    Repeats other text' before' pattern index count position occurrences := by
  induction repeats generalizing before' text' with
  | none =>
    obtain rfl := variant.eq_nil
    exact .none
  | more segment _ ih =>
    obtain ⟨first', rest', rfl, firsts, rests⟩ := variant.exists_append
    have others := ih caseless (previously.before firsts) rests
    rw [firsts.length_eq] at others ⊢
    exact .more (segment.variant caseless respects previously firsts) others

/-- A branch reads a text in one case as in any case. -/
theorem Reads.variant {branch : Branch Val Value} {index position : Nat}
    {occurrences : List Occurrence} (caseless : ∀ element ∈ branch, element.pattern.IsCaseless)
    (respects : ∀ rule {previous before' text text'}, language rule previous text →
      VariantBefore previous before' → Variant text text' → other rule before' text')
    (reads : Reads language text previous branch index position occurrences)
    (previously : VariantBefore previous before') (variant : Variant text text') :
    Reads other text' before' branch index position occurrences := by
  induction reads generalizing before' text' with
  | nil =>
    obtain rfl := variant.eq_nil
    exact .nil
  | cons repeats enough allowed _ ih =>
    obtain ⟨first', rest', rfl, firsts, rests⟩ := variant.exists_append
    have others := ih (fun element member => caseless element (List.mem_cons_of_mem _ member))
      (previously.before firsts) rests
    rw [firsts.length_eq] at others
    exact .cons (repeats.variant (caseless _ List.mem_cons_self) respects previously firsts)
      enough allowed others

end Recognition

section Values

variable {lowered : (rule : ι) → Val rule → Val rule} {lower : Value → Value}
  {meaning other : Meaning Val} {text : List UInt8} {previous : Option UInt8} {old new : Value}

/-- What one occurrence does to a value, it does in small letters. -/
theorem Updates.toLower {pattern : Pattern Val Value} (lowers : pattern.Lowers lowered lower)
    (respects : ∀ rule {previous text value}, meaning rule previous text value →
      other rule (previous.map Character.toLower) (text.map Character.toLower)
        (lowered rule value))
    (updates : Updates meaning text previous pattern old new) :
    Updates other (text.map Character.toLower) (previous.map Character.toLower) pattern
      (lower old) (lower new) := by
  cases updates with
  | character =>
    rw [← lowers]
    exact .character
  | literal =>
    rw [← lowers, RomanString.toLower, ← RomanString.dropBlanks_map_toLower]
    exact .literal
  | @nested _ rule _ _ blanks rest first _ value blank solid inner =>
    have meant := respects rule inner
    rw [map_before, List.map_cons] at meant
    rw [← isBlank_toLower] at solid
    rw [← lowers, List.map_append, List.map_cons]
    exact .nested ((variant_toLower blanks).symm.blank blank) solid meant

/-- What occurrences do to a value, they do in small letters. -/
theorem Applies.toLower {branch : Branch Val Value} {position : Nat}
    {occurrences : List Occurrence}
    (lowers : ∀ element ∈ branch, element.pattern.Lowers lowered lower)
    (respects : ∀ rule {previous text value}, meaning rule previous text value →
      other rule (previous.map Character.toLower) (text.map Character.toLower)
        (lowered rule value))
    (applies : Applies meaning text previous branch position occurrences old new) :
    Applies other (text.map Character.toLower) (previous.map Character.toLower) branch position
      occurrences (lower old) (lower new) := by
  induction applies with
  | nil => exact .nil
  | @cons _ first rest previous branch element index position occurrences old middle new found
      update _ ih =>
    have others := ih lowers
    have length := (variant_toLower first).length_eq
    rw [map_before, ← length] at others
    rw [List.map_append, ← length]
    exact .cons found
      (update.toLower (lowers element (List.mem_of_getElem? found)) respects) others

end Values

section Grammar

variable {grammar : Grammar Val} {name : ι} {previous before' : Option UInt8}
  {text text' : List UInt8} {lowered : (rule : ι) → Val rule → Val rule}

/-- A rule matches a text in one case as in any case. -/
theorem Matches.variant (folds : ∀ name, (grammar.rule name).Folds lowered (lowered name))
    (matched : grammar.Matches name previous text) (previously : VariantBefore previous before')
    (variant : Variant text text') : grammar.Matches name before' text' := by
  have step : ∀ before' text', VariantBefore previous before' → Variant text text' →
      grammar.Matches name before' text' := by
    refine Matches.induction (motive := fun name previous text => ∀ before' text',
      VariantBefore previous before' → Variant text text' → grammar.Matches name before' text')
      ?_ matched
    intro name previous text branch occurrences member reads before' text' previously variant
    have caseless : ∀ element ∈ branch, element.pattern.IsCaseless := fun element inside =>
      ((folds name).elements branch member element inside).caseless
    exact .branch member (reads.variant caseless (fun _ _ _ _ _ inner => inner.2 _ _) previously
      variant)
  exact step before' text' previously variant

/-- The readings of a text are those of the text in small letters. -/
theorem isReading_toLower (folds : ∀ name, (grammar.rule name).Folds lowered (lowered name))
    (reading : Reading) :
    grammar.IsReading name (previous.map Character.toLower) (text.map Character.toLower) reading ↔
      grammar.IsReading name previous text reading := by
  have small : VariantBefore (previous.map Character.toLower) previous := by
    cases previous <;> simp [VariantBefore]
  have caseless : ∀ {branch}, (grammar.rule name).branches[reading.branch]? = some branch →
      ∀ element ∈ branch, element.pattern.IsCaseless := fun found element inside =>
    ((folds name).elements _ (List.mem_of_getElem? found) element inside).caseless
  constructor
  · rintro ⟨branch, found, reads⟩
    exact ⟨branch, found, reads.variant (caseless found)
      (fun _ _ _ _ _ => Matches.variant folds) small (variant_toLower text)⟩
  · rintro ⟨branch, found, reads⟩
    exact ⟨branch, found, reads.variant (caseless found)
      (fun _ _ _ _ _ => Matches.variant folds) small.symm (variant_toLower text).symm⟩

/-- A text in small letters denotes the value in small letters. -/
theorem Denotes.toLower (folds : ∀ name, (grammar.rule name).Folds lowered (lowered name))
    {value : Val name} (denotes : grammar.Denotes name previous text value) :
    grammar.Denotes name (previous.map Character.toLower) (text.map Character.toLower)
      (lowered name value) := by
  refine Denotes.induction (motive := fun name previous text value =>
    grammar.Denotes name (previous.map Character.toLower) (text.map Character.toLower)
      (lowered name value)) ?_ denotes
  intro name previous text reading branch value preferred found applies
  -- Readings know positions only, so the preferred one stays preferred.
  have same : grammar.IsReading name (previous.map Character.toLower)
      (text.map Character.toLower) = grammar.IsReading name previous text :=
    funext fun reading => propext (isReading_toLower folds reading)
  have lowers : ∀ element ∈ branch, element.pattern.Lowers lowered (lowered name) :=
    fun element inside =>
      ((folds name).elements branch (List.mem_of_getElem? found) element inside).lowers
  have rewritten : Applies grammar.Denotes _ _ _ _ _ _ _ :=
    applies.toLower lowers fun _ _ _ _ meaning => meaning.2
  rw [(folds name).initial] at rewritten
  refine .reading ?_ found rewritten
  unfold Preferred at preferred ⊢
  rw [same]
  exact preferred

/-- A line in small letters has a value if the line has one, and has it in small letters. -/
theorem parse_map_toLower (proper : grammar.Proper)
    (folds : ∀ name, (grammar.rule name).Folds lowered (lowered name)) (name : ι)
    (text : RomanString) :
    grammar.parse name text.toLower = (grammar.parse name text).map (lowered name) := by
  unfold parse
  rw [RomanString.trimmed_toLower, parse_go_eq, parse_go_eq]
  have settled := settles proper name none text.trimmed.characters
  cases found : grammar.valueAfter (grammar.start name none) text.trimmed.characters with
  | some value => exact ((settled.denotes found).toLower folds).valueAfter_eq proper
  | none =>
    have smallSettled := settles proper name none text.trimmed.toLower.characters
    cases smallFound : grammar.valueAfter (grammar.start name none)
        text.trimmed.toLower.characters with
    | none => rfl
    | some value =>
      exact absurd ((smallSettled.denotes smallFound).matches.variant folds rfl
        (variant_toLower _)) (settled.not_matches found)

end Grammar
end Grammar
end HyperCard
