import HyperCard.Proofs.Script.Phrases

/-!
# References to objects

Canonical references are read back. A card or background is read by the branch that its words tell:
a word for a position, the word for an identifier, or the first character of a factor. The earlier
branches are excluded by running their matchers on what a text begins with. Where another reference
follows after the word for it, the first one ends there: it is closed, or it ends in a factor.
-/
namespace HyperCard.HyperTalk

open Grammar (Among Segment Yields startsSolid)
open Grammar.Element (keyword keywordWith)

section Positions

/-- The words for positions. -/
def positionWords : List String := ["this", "next", "previous"] ++ Ordinal.spokenWords

/-- No word for a position begins with a blank. -/
theorem solid_positionWord {word : String} (listed : word ∈ positionWords) :
    startsSolid (letters word) = true := by
  revert word
  decide

/-- The words for places beside the current one are among those for positions. -/
theorem relative_spoken_mem (position : RelativePosition) : position.spoken ∈ positionWords := by
  cases position <;> decide

/-- The word for an ordinal is among those listed. -/
theorem ordinal_spoken_mem {ordinal : Ordinal} {word : String}
    (spoken : ordinal.spoken? = some word) : word ∈ Ordinal.spokenWords := by
  cases ordinal with
  | number => cases spoken
  | _ =>
    obtain rfl := Option.some.inj spoken
    decide

/-- A word is the only one for its position. -/
theorem ordinal_spoken_injective {ordinal other : Ordinal} {word : String}
    (spoken : ordinal.spoken? = some word) (same : other.spoken? = some word) :
    other = ordinal := by
  rw [← spoken] at same
  cases ordinal with
  | number => cases spoken
  | _ => cases other <;> first | rfl | cases same | exact absurd same (by decide)

/-- Its word gives a place beside the current one, and nothing that goes on after a space does. -/
theorem expresses_relative (position : RelativePosition) :
    Expresses .relative (letters position.spoken) position ∧
      isClosed .relative (letters position.spoken) = true := by
  refine ⟨expresses_of_valueAfter (solid_positionWord (relative_spoken_mem position)) ?_, ?_⟩ <;>
    cases position <;> decide +kernel

/-- Its word gives an ordinal, and nothing that goes on after a space does. -/
theorem expresses_ordinal {ordinal : Ordinal} {word : String}
    (spoken : ordinal.spoken? = some word) :
    Expresses .ordinal (letters word) ordinal ∧ isClosed .ordinal (letters word) = true := by
  have listed := ordinal_spoken_mem spoken
  have checked : ∀ word ∈ Ordinal.spokenWords, isClosed .ordinal (letters word) = true ∧
      ∀ previous ∈ outsets, (grammar.valueAfter (grammar.start .ordinal previous)
        (letters word)).bind Ordinal.spoken? = some word := by decide +kernel
  obtain ⟨closed, values⟩ := checked word listed
  refine ⟨expresses_of_valueAfter (solid_positionWord (List.mem_append_right _ listed)) ?_, closed⟩
  intro previous outset
  obtain ⟨value, found, same⟩ := Option.bind_eq_some_iff.mp (values previous outset)
  rw [found, ordinal_spoken_injective spoken same]

/-- The article, which may be left out, is. -/
theorem not_segment_article {Value : Type} {word : String} {previous : Option UInt8}
    {first rest more : List UInt8} (listed : word ∈ "message" :: positionWords)
    (outset : previous ∈ outsets) (whole : letters word ++ more = first ++ rest) :
    ¬ Segment grammar.Matches first previous
      ((keyword "the").optional : ElementOf Value).pattern := by
  have fails : ∀ word ∈ "message" :: positionWords, ∀ previous ∈ outsets, Grammar.Literal.fails
      ⟨.encodeOrRaw "the", true, fun (value : Unit) _ => value⟩ (.awaiting previous)
      (letters word) = true := by decide +kernel
  have characters : letters "the" = [0x74, 0x68, 0x65] := by decide
  refine Grammar.not_segment_of_fails ⟨0x74, [0x68, 0x65], characters, by decide⟩ ?_ whole
  refine Eq.trans ?_ (fails word listed previous outset)
  exact Grammar.Literal.fails_congr (by rfl) (by rfl) _ _

end Positions

section Layers

variable {layer : Layer} {reference : LayerReference} {text : List UInt8}
  {previous : Option UInt8}

/-- A text that names a card or background. -/
def Names : Layer → List UInt8 → LayerReference → Prop
  | .card => Expresses .cardLayer
  | .background => Expresses .background

/-- No word for a layer begins with a blank. -/
theorem solid_layer (layer : Layer) : startsSolid (letters layer.spoken) = true := by
  cases layer <;> decide

/-- Reads a card or background by its place beside the current one. -/
def relativeBranch (word : String) : Grammar.Branch RuleName.Value LayerReference :=
  [(keyword "the").optional, nested .relative fun _ position => .relative position, keyword word]

/-- Reads a card or background by the word for its position. -/
def ordinalBranch (word : String) : Grammar.Branch RuleName.Value LayerReference :=
  [(keyword "the").optional, nested .ordinal fun _ ordinal => .absolute (.ordinal ordinal),
    keyword word]

/-- Reads a card or background by its lasting number. -/
def identifierBranch (word : String) : Grammar.Branch RuleName.Value LayerReference :=
  [keyword word, keyword "id",
    nested .factor fun _ expression => .absolute (.identifier expression)]

/-- Reads a card or background by name or number. -/
def describedBranch (word : String) : Grammar.Branch RuleName.Value LayerReference :=
  [keyword word, nested .factor fun _ expression => .absolute (.ofExpression expression)]

/-- The texts that name one of a layer by a word for its position. -/
def positionTexts (layer : Layer) : List (List UInt8) :=
  positionWords.map fun word => phrase [letters word, letters layer.spoken]

/-- What begins with the word for a layer and the first character of the next word. -/
def layerStems (layer : Layer) (firsts : List UInt8) : List (List UInt8) :=
  firsts.map fun first => letters layer.spoken ++ [Character.space, first]

/-- What is canonically named by an expression is named by a tree of operators. -/
theorem tree_of_ofExpression {expression : Expression}
    (canonical : (Identification.ofExpression expression).IsCanonical) :
    IsOperatorTree expression := by
  cases expression <;> exact canonical.1

/-- The word for a layer, a space and one of the listed characters begin a text of the layer. -/
theorem among_layerStems {firsts : List UInt8} {first : UInt8} (listed : first ∈ firsts)
    (rest : List UInt8) :
    Among [] (layerStems layer firsts) (letters layer.spoken ++ Character.space :: first :: rest) :=
  .inr ⟨_, List.mem_map_of_mem listed, rest, by simp⟩

/-- So begins a text with a lasting number, if its first letter is listed. -/
theorem among_identifier {firsts : List UInt8} (listed : 0x69 ∈ firsts) (text : List UInt8) :
    Among [] (layerStems layer firsts) (phrase [letters layer.spoken, letters "id", text]) := by
  have characters : letters "id" = [0x69, 0x64] := by decide
  rw [phrase_triple, characters]
  exact among_layerStems listed _

/-- So begins a text with an operand, if what begins operands is listed. -/
theorem among_described {firsts : List UInt8} {expression : Expression}
    (listed : operandStarts ⊆ firsts) (operand : Operand unaryRank expression text) :
    Among [] (layerStems layer firsts) (phrase [letters layer.spoken, text]) := by
  obtain ⟨first, rest, rfl, starts⟩ := operand.starts
  exact among_layerStems (listed starts) rest

/-- A word for a position and the word for a layer. -/
theorem position_yields {name : RuleName} {update : LayerReference → name.Value → LayerReference}
    {value : name.Value} {word : String} {old : LayerReference} (listed : word ∈ positionWords)
    (expresses : Expresses name (letters word) value ∧ isClosed name (letters word) = true)
    (outset : previous ∈ outsets) :
    grammar.Yields [(keyword "the").optional, nested name update, keyword layer.spoken]
      [(keyword "the").optional, nested name update, keyword layer.spoken]
      (phrase [letters word, letters layer.spoken]) previous 0 0 old (update old value) := by
  refine .absent rfl (fun _ _ => not_segment_article (List.mem_cons_of_mem _ listed) outset) ?_
  refine (expresses.1.takes_closed expresses.2 outset (by simp)).single ⟨rfl, rfl⟩ rfl ?_
  exact (takes_next_word (solid_layer layer)).last ⟨rfl, rfl⟩ rfl

/-- Every canonical text for a card or background names it. -/
theorem LayerRenders.names (renders : LayerRenders layer reference text)
    (canonical : reference.IsCanonical) : Names layer text reference := by
  cases renders with
  | @relative position =>
    have listed := relative_spoken_mem position
    have solid := Grammar.startsSolid_append (solid_positionWord listed)
      (Character.space :: letters layer.spoken)
    have yields : ∀ previous ∈ outsets, grammar.Yields (relativeBranch layer.spoken)
        (relativeBranch layer.spoken) (phrase [letters position.spoken, letters layer.spoken])
        previous 0 0 (LayerReference.relative .current) (.relative position) :=
      fun _ outset => position_yields listed (expresses_relative position) outset
    cases layer <;> exact .of_first rfl solid yields
  | @ordinal ordinal word spoken =>
    have counted := ordinal_spoken_mem spoken
    have listed : word ∈ positionWords := List.mem_append_right _ counted
    have among : Among [] (Ordinal.spokenWords.map letters)
        (phrase [letters word, letters layer.spoken]) :=
      .inr ⟨_, List.mem_map_of_mem counted, List.prefix_append _ _⟩
    have solid := Grammar.startsSolid_append (solid_positionWord listed)
      (Character.space :: letters layer.spoken)
    have yields : ∀ previous ∈ outsets, grammar.Yields (ordinalBranch layer.spoken)
        (ordinalBranch layer.spoken) (phrase [letters word, letters layer.spoken])
        previous 0 0 (LayerReference.relative .current) (.absolute (.ordinal ordinal)) :=
      fun _ outset => position_yields listed (expresses_ordinal spoken) outset
    cases layer <;> exact .of_yields 1 rfl (by decide +kernel) among solid yields
  | @identifier number text inner =>
    have solid := Grammar.startsSolid_append (solid_layer layer)
      (Character.space :: phrase [letters "id", text])
    have yields : ∀ previous ∈ outsets, grammar.Yields (identifierBranch layer.spoken)
        (identifierBranch layer.spoken) (phrase [letters layer.spoken, letters "id", text])
        previous 0 0 (LayerReference.relative .current) (.absolute (.identifier number)) := by
      intro previous outset
      rw [phrase_triple]
      refine (takes_word (solid_layer layer) (free_of_mem_outsets outset)).single ⟨rfl, rfl⟩ rfl ?_
      refine (takes_next_word (by decide)).single ⟨rfl, rfl⟩ rfl ?_
      exact (inner.expresses canonical).takes_next.last ⟨rfl, rfl⟩ rfl
    cases layer <;>
      exact .of_yields 2 rfl (by decide +kernel) (among_identifier (List.mem_singleton_self _) text)
        solid yields
  | @described expression text inner =>
    have solid := Grammar.startsSolid_append (solid_layer layer) (Character.space :: text)
    have tree := tree_of_ofExpression canonical
    have yields : ∀ previous ∈ outsets, grammar.Yields (describedBranch layer.spoken)
        (describedBranch layer.spoken) (phrase [letters layer.spoken, text])
        previous 0 0 (LayerReference.relative .current)
        (.absolute (.ofExpression expression)) :=
      fun _ outset => linked_yields (solid_layer layer) (inner.expresses tree) outset
    cases layer <;>
      exact .of_yields 3 rfl (by decide +kernel)
        (among_described (List.Subset.refl _) (inner.operand tree)) solid yields

end Layers

section Cards

variable {reference : CardReference} {layerReference : LayerReference}
  {text rest : List UInt8} {previous : Option UInt8}

/-- Whether each branch of a rule is one plain text that ends in no blank. -/
def isWordRule (name : RuleName) : Bool :=
  (grammar.rule name).branches.all fun branch =>
    match branch with
    | [element] =>
      element.minimum == 1 && element.maximum == some 1 &&
        match element.pattern with
        | .literal literal => literal.text.characters.all Scan.isPlain &&
            literal.text.characters.getLast?.all fun last => !Character.isBlank last
        | _ => false
    | _ => false

/-- A plain text that ends in no blank leaves a scan before an operand. -/
theorem still_of_plain {Value : Type} {literal : Grammar.Literal Value}
    (plain : literal.text.characters.all Scan.isPlain = true)
    (solid : literal.text.characters.getLast?.all (fun last => !Character.isBlank last) = true)
    (segment : Segment grammar.Matches text previous
      (.literal literal : Grammar.Pattern RuleName.Value Value)) : Still previous text := by
  refine still_of_literal segment (List.all_eq_true.mp plain) fun last member => ?_
  simpa [Option.mem_def.mp member] using solid

/-- A word of a rule leaves a scan before an operand. -/
theorem still_of_plainRule {Value : Type} {name : RuleName} {update : Value → name.Value → Value}
    (words : isWordRule name = true)
    (segment : Segment grammar.Matches text previous
      (.nested name update : Grammar.Pattern RuleName.Value Value)) : Still previous text := by
  cases segment with
  | nested blank solid apart inner =>
    cases inner with
    | @branch _ _ _ branch _ member reads =>
      refine Still.blanks blank ?_
      have checked := List.all_eq_true.mp words branch member
      split at checked
      · rename_i element
        simp only [Bool.and_eq_true, beq_iff_eq] at checked
        obtain ⟨single, checked⟩ := checked
        have segment := reads.last single
        generalize element.pattern = pattern at checked segment
        cases pattern with
        | literal literal =>
          rw [Bool.and_eq_true] at checked
          exact still_of_plain checked.1 checked.2 segment
        | _ => cases checked
      · cases checked

/-- A word for a position and another word are quiet. -/
theorem part_of_position {name : RuleName}
    {update : LayerReference → name.Value → LayerReference} {noun : ElementOf LayerReference}
    {index position : Nat} {occurrences : List Grammar.Occurrence}
    (words : isWordRule name = true) (single : noun.IsSingle)
    (still : ∀ {text previous}, Segment grammar.Matches text previous noun.pattern →
      Still previous text)
    (reads : Grammar.Reads grammar.Matches text previous
      [(keyword "the").optional, nested name update, noun] index position occurrences) :
    Part false (fun _ => True) previous text := by
  have placed : ∀ {text previous index position occurrences},
      Grammar.Reads grammar.Matches text previous [nested name update, noun] index position
        occurrences → Part false (fun _ => True) previous text := by
    intro text previous index position occurrences reads
    obtain ⟨_, _, _, rfl, word, reads⟩ := reads.single ⟨rfl, rfl⟩
    exact (still_of_plainRule words word).append (still (reads.last single)).part
  rcases reads.optional rfl with reads | ⟨_, _, _, rfl, article, reads⟩
  · exact placed reads
  · exact (still_of_plain (by decide) (by decide) article).append (placed reads)

/-- What names a card is quiet. -/
theorem part_cardLayer {branch : Grammar.Branch RuleName.Value LayerReference}
    {occurrences : List Grammar.Occurrence}
    (member : branch ∈ (grammar.rule .cardLayer).branches)
    (reads : Grammar.Reads grammar.Matches text previous branch 0 0 occurrences) :
    Part false (fun _ => True) previous text := by
  have branches : branch ∈ cardWords.flatMap fun word =>
      [relativeBranch word, ordinalBranch word, identifierBranch word, describedBranch word] :=
    member
  simp only [List.mem_flatMap, List.mem_cons, List.not_mem_nil, or_false] at branches
  obtain ⟨word, listed, branches⟩ := branches
  have plain : ∀ word ∈ cardWords, (letters word).all Scan.isPlain = true ∧
      (letters word).getLast?.all (fun last => !Character.isBlank last) = true := by decide
  have noun : ∀ {text previous}, Segment grammar.Matches text previous
      (keyword word : ElementOf LayerReference).pattern → Still previous text :=
    still_of_plain (plain word listed).1 (plain word listed).2
  have factor : ∀ {text previous update}, Segment grammar.Matches text previous
      (nested .factor update : ElementOf LayerReference).pattern →
      Part false (fun _ => True) previous text :=
    fun segment => part_of_nested (segment.mono fun _ _ _ => known_of_matches) rfl
  rcases branches with rfl | rfl | rfl | rfl
  · exact part_of_position (by decide) ⟨rfl, rfl⟩ noun reads
  · exact part_of_position (by decide) ⟨rfl, rfl⟩ noun reads
  · obtain ⟨_, _, _, rfl, name, reads⟩ := reads.single ⟨rfl, rfl⟩
    obtain ⟨_, _, _, rfl, identifier, reads⟩ := reads.single ⟨rfl, rfl⟩
    have still := still_of_plain (by decide) (by decide) identifier
    exact (noun name).append (still.append (factor (reads.last ⟨rfl, rfl⟩)))
  · obtain ⟨_, _, _, rfl, name, reads⟩ := reads.single ⟨rfl, rfl⟩
    exact (noun name).append (factor (reads.last ⟨rfl, rfl⟩))

/-- A card is a part with no operator, whatever comes before it. -/
theorem part_of_cardLayer {Value : Type} {update : Value → LayerReference → Value}
    (segment : Segment grammar.Matches text previous
      (.nested .cardLayer update : Grammar.Pattern RuleName.Value Value)) :
    Part false (fun _ => True) previous text := by
  cases segment with
  | nested blank _ _ inner =>
    cases inner with
    | branch member reads => exact (part_cardLayer member reads).blanks blank

/-- A card takes its text before the word for where it is. -/
theorem takes_cardLayer {Value : Type} {update : Value → LayerReference → Value} {old : Value}
    (renders : LayerRenders .card layerReference text) (canonical : layerReference.IsCanonical)
    (outset : previous ∈ outsets) (more : List UInt8) :
    grammar.Takes (.nested .cardLayer update : Grammar.Pattern RuleName.Value Value) previous text
      (Character.space :: (letters "of" ++ more)) old (update old layerReference) := by
  have expresses : Expresses .cardLayer text layerReference := renders.names canonical
  have last := @Expresses.takes Value previous text old .cardLayer update _ expresses outset
  have closed : ∀ word ∈ positionWords,
      isClosed .cardLayer (phrase [letters word, letters Layer.card.spoken]) = true := by
    decide +kernel
  have stops := stops_word (by simp : "of" ∈ ["of", "or"]) more
  have plain : (letters Layer.card.spoken).all Scan.isPlain = true ∧
      (letters Layer.card.spoken ++ Character.space :: letters "id").all Scan.isPlain = true := by
    decide
  cases renders with
  | relative => exact expresses.takes_closed (closed _ (relative_spoken_mem _)) outset (by simp)
  | ordinal spoken =>
    have listed := List.mem_append_right ["this", "next", "previous"] (ordinal_spoken_mem spoken)
    exact expresses.takes_closed (closed _ listed) outset (by simp)
  | @identifier number text inner =>
    refine ⟨last.segment, last.update, fun other tail whole segment => ?_⟩
    have parts : phrase [letters Layer.card.spoken, letters "id", text] =
        (letters Layer.card.spoken ++ Character.space :: letters "id") ++
          Character.space :: text := by
      rw [phrase_triple, ← List.append_assoc]
    have here := part_of_cardLayer last.segment
    rw [parts] at whole here ⊢
    exact length_le_of_quiet (List.all_eq_true.mp plain.2) (inner.operand canonical) stops whole
      here (part_of_cardLayer segment)
  | described inner =>
    refine ⟨last.segment, last.update, fun other tail whole segment => ?_⟩
    have operand := inner.operand (tree_of_ofExpression canonical)
    exact length_le_of_quiet (List.all_eq_true.mp plain.1) operand stops whole
      (part_of_cardLayer last.segment) (part_of_cardLayer segment)

/-- The word for where something is does not begin with a blank. -/
theorem solid_of (text : List UInt8) : startsSolid (phrase [letters "of", text]) = true :=
  Grammar.startsSolid_append (by decide) _

/-- The word for being of a background, and the background. -/
theorem expresses_ofBackground (expresses : Expresses .background text layerReference) :
    Expresses .ofBackground (phrase [letters "of", text]) layerReference :=
  .of_first rfl (solid_of text) fun _ outset => linked_yields (by decide) expresses outset

/-- Every canonical text for a card names it. -/
theorem CardRenders.expresses (renders : CardRenders reference text)
    (canonical : reference.IsCanonical) : Expresses .card text reference := by
  cases renders with
  | @alone card _ inner =>
    have expresses : Expresses .cardLayer text card := inner.names canonical.card
    refine .of_first rfl expresses.solid fun previous outset => ?_
    rw [← List.append_nil text]
    exact (expresses.takes outset).single ⟨rfl, rfl⟩ rfl (.absent_at_end rfl)
  | @ofBackground card text background backgroundText inner others =>
    have expresses : Expresses .cardLayer text card := inner.names canonical.card
    have behind := expresses_ofBackground (others.names (canonical.background background rfl))
    refine .of_first rfl (Grammar.startsSolid_append expresses.solid _) fun previous outset => ?_
    rw [phrase_triple]
    refine (takes_cardLayer inner canonical.card outset _).single ⟨rfl, rfl⟩ rfl ?_
    exact behind.takes_next.last_present (by decide) rfl rfl

end Cards

end HyperCard.HyperTalk
