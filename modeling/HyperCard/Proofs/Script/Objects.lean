import HyperCard.Proofs.Script.References

/-!
# Parts, stacks and objects

A canonical part begins with its position or with the words for its layer and kind; the card that
it is on comes last. Any object is read by the branch for its kind: what is canonical for one kind
is no text of the kinds that the rule for objects tries before it.
-/
namespace HyperCard.HyperTalk

open Grammar (Among Yields startsSolid)
open Grammar.Element (keyword keywordWith)

section Parts

variable {kind : PartKind} {layer : Layer} {card : Option CardReference} {which : Identification}
  {text suffix : List UInt8}

/-- The words for a layer and a kind of parts. -/
def kindText (layer : Layer) (kind : PartKind) : List UInt8 :=
  phrase [letters layer.spoken, letters kind.spoken]

/-- The words for a layer and a kind of parts give both, and nothing that goes on after a space
does. -/
theorem expresses_kind (layer : Layer) (kind : PartKind) :
    Expresses .partKind (kindText layer kind) (some layer, kind) ∧
      isClosed .partKind (kindText layer kind) = true := by
  refine ⟨expresses_of_valueAfter (Grammar.startsSolid_append (solid_layer layer) _) ?_, ?_⟩ <;>
    cases layer <;> cases kind <;> decide +kernel

/-- What comes after a part: nothing, or the card that it is on. -/
inductive Behind : Option CardReference → List UInt8 → Prop
  /-- The part is on the current card. -/
  | nothing : Behind none []
  /-- The part is on another card. -/
  | card {reference text} : Expresses .card text reference →
      Behind (some reference) (Character.space :: phrase [letters "of", text])

/-- What comes after a part is set off by a space. -/
theorem Behind.spaced (behind : Behind card suffix) :
    ∀ next ∈ suffix.head?, next = Character.space := by
  cases behind <;> simp

/-- An operand before it ends there. -/
theorem Behind.stops (behind : Behind card suffix) : Stops 0 suffix := by
  cases behind with
  | nothing => exact .inl rfl
  | card => exact stops_word (by simp) _

/-- The card of a part, if there is one. -/
def ofCardElement : ElementOf PartReference :=
  (nested .ofCard fun part card => { part with card := some card }).optional

/-- The word for being on a card, and the card. -/
theorem expresses_ofCard {reference : CardReference} (expresses : Expresses .card text reference) :
    Expresses .ofCard (phrase [letters "of", text]) reference :=
  .of_first rfl (solid_of text) fun _ outset => linked_yields (by decide) expresses outset

/-- What comes after a part completes it. -/
theorem Behind.yields (behind : Behind card suffix) {previous : Option UInt8}
    {branch : Grammar.Branch RuleName.Value PartReference} {index position : Nat}
    (found : branch[index]? = some ofCardElement) (which : Identification) :
    grammar.Yields branch [ofCardElement] suffix previous index position
      ⟨kind, layer, which, none⟩ ⟨kind, layer, which, card⟩ := by
  cases behind with
  | nothing => exact .absent_at_end rfl
  | card expresses =>
    exact (expresses_ofCard expresses).takes_next.last_present (by decide) rfl found

/-- What the texts of parts begin with. -/
def partStems : List (List UInt8) :=
  (Ordinal.spokenWords ++ ["card", "background"]).map letters

/-- The word for a layer is one of two. -/
theorem layer_spoken_mem (layer : Layer) : layer.spoken ∈ ["card", "background"] := by
  cases layer <;> decide

/-- The texts for parts begin with a position or a layer, whatever comes behind them. -/
theorem WhichRenders.among (renders : WhichRenders kind layer which text) :
    Among [] partStems (text ++ suffix) := by
  have begun : ∀ {word more}, word ∈ Ordinal.spokenWords ++ ["card", "background"] →
      Among [] partStems ((letters word ++ more) ++ suffix) := by
    intro word more listed
    refine .inr ⟨_, List.mem_map_of_mem listed, ?_⟩
    rw [List.append_assoc]
    exact List.prefix_append _ _
  cases renders with
  | ordinal spoken => exact begun (List.mem_append_left _ (ordinal_spoken_mem spoken))
  | identifier =>
    rw [phrase_triple, phrase_pair, List.append_assoc (letters layer.spoken)]
    exact begun (List.mem_append_right _ (layer_spoken_mem layer))
  | described =>
    rw [phrase_pair, phrase_pair, List.append_assoc (letters layer.spoken)]
    exact begun (List.mem_append_right _ (layer_spoken_mem layer))

/-- The words for a layer and a kind, and the first character of a factor. -/
def kindStems (layer : Layer) (kind : PartKind) : List (List UInt8) :=
  operandStarts.map fun first => kindText layer kind ++ [Character.space, first]

/-- A canonical text for a part, with what comes after it, names it. -/
theorem WhichRenders.expresses (renders : WhichRenders kind layer which text)
    (canonical : which.IsCanonical) (behind : Behind card suffix) :
    Expresses .part (text ++ suffix) ⟨kind, layer, which, card⟩ := by
  obtain ⟨described, closed⟩ := expresses_kind layer kind
  have solid := described.solid
  cases renders with
  | @ordinal ordinal word spoken =>
    have listed := List.mem_append_right ["this", "next", "previous"] (ordinal_spoken_mem spoken)
    obtain ⟨counted, wordClosed⟩ := expresses_ordinal spoken
    rw [phrase_pair, List.append_assoc]
    refine .of_first rfl (Grammar.startsSolid_append counted.solid _) fun previous outset => ?_
    refine .absent rfl (fun _ _ => not_segment_article (List.mem_cons_of_mem _ listed) outset) ?_
    refine (counted.takes_closed wordClosed outset (by simp)).single ⟨rfl, rfl⟩ rfl ?_
    refine (described.takes_next_closed closed behind.spaced).single ⟨rfl, rfl⟩ rfl ?_
    exact behind.yields rfl _
  | @identifier number text inner =>
    have among : Among [] [letters layer.spoken]
        (kindText layer kind ++ (Character.space :: letters "id" ++ Character.space :: text) ++
          suffix) := by
      refine .inr ⟨_, List.mem_singleton_self _, ?_⟩
      rw [kindText, phrase_pair, List.append_assoc, List.append_assoc]
      exact List.prefix_append _ _
    rw [phrase_triple]
    refine .of_yields 1 rfl (by cases layer <;> decide +kernel) among
      (Grammar.startsSolid_append (Grammar.startsSolid_append solid _) _) fun previous outset => ?_
    rw [List.append_assoc, List.append_assoc]
    refine (described.takes_closed closed outset (by simp)).single ⟨rfl, rfl⟩ rfl ?_
    refine (takes_next_word (by decide)).single ⟨rfl, rfl⟩ rfl ?_
    refine (takes_factor inner canonical behind.stops).single ⟨rfl, rfl⟩ rfl ?_
    exact behind.yields rfl _
  | @described expression text inner =>
    have tree := tree_of_ofExpression canonical
    have among : Among [] (kindStems layer kind)
        (kindText layer kind ++ Character.space :: text ++ suffix) := by
      obtain ⟨first, rest, rfl, starts⟩ := (inner.operand tree).starts
      refine .inr ⟨_, List.mem_map_of_mem starts, rest ++ suffix, by simp⟩
    rw [phrase_pair]
    refine .of_yields 2 rfl (by cases layer <;> cases kind <;> decide +kernel) among
      (Grammar.startsSolid_append (Grammar.startsSolid_append solid _) _) fun previous outset => ?_
    rw [List.append_assoc]
    refine (described.takes_closed closed outset (by simp)).single ⟨rfl, rfl⟩ rfl ?_
    refine (takes_factor inner tree behind.stops).single ⟨rfl, rfl⟩ rfl ?_
    exact behind.yields rfl _

/-- A canonical text for a part is one for a part on the current card, and what comes after it. -/
theorem PartRenders.exists_which {reference : PartReference} (renders : PartRenders reference text)
    (canonical : reference.IsCanonical) :
    ∃ whichText suffix, text = whichText ++ suffix ∧
      WhichRenders reference.kind reference.layer reference.which whichText ∧
      Behind reference.card suffix := by
  cases renders with
  | @alone _ _ _ text inner => exact ⟨text, [], by simp, inner, .nothing⟩
  | ofCard inner others =>
    exact ⟨_, _, phrase_triple _ _ _, inner, .card (others.expresses (canonical.card _ rfl))⟩

/-- With the card that a part is on, its texts begin with a position or a layer too. -/
theorem PartRenders.among {reference : PartReference} (renders : PartRenders reference text)
    (canonical : reference.IsCanonical) : Among [] partStems text := by
  obtain ⟨_, _, rfl, inner, _⟩ := renders.exists_which canonical
  exact inner.among

/-- Every canonical text for a part names it. -/
theorem PartRenders.expresses {reference : PartReference} (renders : PartRenders reference text)
    (canonical : reference.IsCanonical) : Expresses .part text reference := by
  obtain ⟨_, _, rfl, inner, behind⟩ := renders.exists_which canonical
  exact inner.expresses canonical.which behind

end Parts

section Stacks

variable {reference : StackReference} {text : List UInt8}

/-- The text for the current stack. -/
def currentStackText : List UInt8 := phrase [letters "this", letters "stack"]

/-- The texts for stacks name the current one or begin with the word for stacks. -/
theorem StackRenders.among (renders : StackRenders reference text) :
    Among [currentStackText] [letters "stack"] text := by
  cases renders with
  | current => exact .inl (List.mem_singleton_self _)
  | named => exact .inr ⟨_, List.mem_singleton_self _, List.prefix_append _ _⟩

/-- Every canonical text for a stack names it. -/
theorem StackRenders.expresses (renders : StackRenders reference text)
    (canonical : reference.IsCanonical) : Expresses .stack text reference := by
  cases renders with
  | current =>
    refine .of_first rfl (by decide) fun previous outset => ?_
    refine (takes_word (by decide) (free_of_mem_outsets outset)).single ⟨rfl, rfl⟩ rfl ?_
    exact (takes_next_word (by decide)).last ⟨rfl, rfl⟩ rfl
  | @named name text inner =>
    have among : Among [] [letters "stack"] (phrase [letters "stack", text]) :=
      .inr ⟨_, List.mem_singleton_self _, List.prefix_append _ _⟩
    exact .of_yields 1 rfl (by decide) among (Grammar.startsSolid_append (by decide) _)
      fun _ outset => linked_yields (by decide) (inner.expresses canonical) outset

end Stacks

section Objects

variable {text : List UInt8}

/-- What the texts that name a card or background otherwise than by position begin with. -/
abbrev otherStems (layer : Layer) : List (List UInt8) := layerStems layer (0x69 :: operandStarts)

/-- The texts for one of a layer name its position, or go on after the word for the layer with a
lasting number or an operand. -/
theorem LayerRenders.among {layer : Layer} {reference : LayerReference}
    (renders : LayerRenders layer reference text) (canonical : reference.IsCanonical) :
    Among (positionTexts layer) (otherStems layer) text := by
  cases renders with
  | relative => exact .inl (List.mem_map_of_mem (relative_spoken_mem _))
  | ordinal spoken =>
    exact .inl (List.mem_map_of_mem (List.mem_append_right _ (ordinal_spoken_mem spoken)))
  | identifier => exact (among_identifier List.mem_cons_self _).imp_left (by simp)
  | described inner =>
    have operand := inner.operand (tree_of_ofExpression canonical)
    exact (among_described (List.subset_cons_self _ _) operand).imp_left (by simp)

/-- What the texts for cards begin with that are not one by its position alone. -/
def cardStems : List (List UInt8) :=
  otherStems .card ++ (positionTexts .card).map (· ++ Character.space :: letters "of")

/-- The texts for cards do as those for one of a layer, or go on after a position with the
background. -/
theorem CardRenders.among {reference : CardReference} (renders : CardRenders reference text)
    (canonical : reference.IsCanonical) : Among (positionTexts .card) cardStems text := by
  cases renders with
  | alone inner =>
    refine (inner.among canonical.card).imp_right ?_
    rintro ⟨stem, listed, begins⟩
    exact ⟨stem, List.mem_append_left _ listed, begins⟩
  | @ofBackground card text _ backgroundText inner =>
    rw [phrase_triple]
    refine .inr ?_
    rcases inner.among canonical.card with listed | ⟨stem, listed, begins⟩
    · refine ⟨_, List.mem_append_right _ (List.mem_map_of_mem listed), ?_⟩
      rw [← List.append_assoc]
      exact List.prefix_append _ _
    · exact ⟨stem, List.mem_append_left _ listed, begins.trans (List.prefix_append _ _)⟩

/-- A text of one nested rule leads to what the text means. -/
theorem Expresses.yields {Value : Type} {name : RuleName} {update : Value → name.Value → Value}
    {value : name.Value} {old : Value} {previous : Option UInt8}
    (expresses : Expresses name text value) (outset : previous ∈ outsets) :
    grammar.Yields [nested name update] [nested name update] text previous 0 0 old
      (update old value) :=
  (expresses.takes outset).last ⟨rfl, rfl⟩ rfl

/-- Every canonical text for an object names it. -/
theorem ObjectRenders.expresses {reference : ObjectReference}
    (renders : ObjectRenders reference text) (canonical : reference.IsCanonical) :
    Expresses .object text reference := by
  cases renders with
  | me =>
    refine .of_first rfl (by decide) fun previous outset => ?_
    exact (takes_word (by decide) (free_of_mem_outsets outset)).last ⟨rfl, rfl⟩ rfl
  | hyperCard =>
    have among : Among [letters "HyperCard"] [] (letters "HyperCard") :=
      .inl (List.mem_singleton_self _)
    refine .of_yields 1 rfl (by decide +kernel) among (by decide) fun previous outset => ?_
    exact (takes_word (by decide) (free_of_mem_outsets outset)).last ⟨rfl, rfl⟩ rfl
  | @stack stack _ inner =>
    have expresses : Expresses .stack text stack := inner.expresses canonical
    exact .of_yields 2 rfl (by decide +kernel) inner.among expresses.solid
      fun _ outset => expresses.yields outset
  | @part part _ inner =>
    have canonical : part.IsCanonical := canonical
    have expresses := inner.expresses canonical
    exact .of_yields 3 rfl (by decide +kernel) (inner.among canonical) expresses.solid
      fun _ outset => expresses.yields outset
  | @card card _ inner =>
    have canonical : card.IsCanonical := canonical
    have expresses := inner.expresses canonical
    exact .of_yields 4 rfl (by decide +kernel) (inner.among canonical) expresses.solid
      fun _ outset => expresses.yields outset
  | @background background _ inner =>
    have canonical : background.IsCanonical := canonical
    have expresses : Expresses .background text background := inner.names canonical
    exact .of_yields 5 rfl (by decide +kernel) (inner.among canonical) expresses.solid
      fun _ outset => expresses.yields outset

end Objects

end HyperCard.HyperTalk
