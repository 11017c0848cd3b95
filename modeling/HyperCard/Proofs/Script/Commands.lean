import HyperCard.Proofs.Grammar.Ending
import HyperCard.Proofs.Script.Objects
import HyperCard.Proofs.Script.Quotation
import HyperCard.Proofs.Script.Words

/-!
# Commands and objects are read back

A canonical command is read word by word. The value to store and the prompt end where the word
after them begins no operator, and the replies, which are factors, where the next one is announced.
A prompt without replies is told from one with replies by the word before them, which it has in
strings only. What is a variable is one word and therefore nothing that takes two.
-/
namespace HyperCard.HyperTalk

open Grammar (Among Proceeds Reads Segment Yields startsSolid)
open Grammar.Element (keyword keywordWith)

section Destinations

variable {text : List UInt8}

/-- Every canonical text for a destination names it. -/
theorem DestinationRenders.expresses {destination : Destination}
    (renders : DestinationRenders destination text) (canonical : destination.IsCanonical) :
    Expresses .destination text destination := by
  cases renders with
  | @card reference _ inner =>
    have canonical : reference.IsCanonical := canonical
    have expresses := inner.expresses canonical
    exact .of_first rfl expresses.solid fun _ outset => expresses.yields outset
  | @background reference _ inner =>
    have canonical : reference.IsCanonical := canonical
    have expresses : Expresses .background text reference := inner.names canonical
    exact .of_yields 1 rfl (by decide +kernel) (inner.among canonical) expresses.solid
      fun _ outset => expresses.yields outset
  | @stack reference _ inner =>
    have expresses : Expresses .stack text reference := inner.expresses canonical
    exact .of_yields 2 rfl (by decide +kernel) inner.among expresses.solid
      fun _ outset => expresses.yields outset

/-- A text that names a place gives the command to go there. -/
theorem expresses_go {destination : Destination}
    (expresses : Expresses .destination text destination) :
    Expresses .go (phrase [letters "go", letters "to", text]) (.go destination) := by
  refine .of_first rfl (Grammar.startsSolid_append (by decide) _) fun previous outset => ?_
  rw [phrase_triple]
  refine (takes_word (by decide) (free_of_mem_outsets outset)).single ⟨rfl, rfl⟩ rfl ?_
  refine (takes_next_word (by decide)).present (by decide) rfl rfl ?_
  exact expresses.takes_next.last ⟨rfl, rfl⟩ rfl

end Destinations

section Containers

variable {text : List UInt8} {previous : Option UInt8}

/-- A word is no part, since every part has two words at least. -/
theorem not_segment_part {first : UInt8} {rest : List UInt8} {Value : Type}
    {update : Value → PartReference → Value}
    (word : ∀ character ∈ first :: rest, Character.isAlphanumeric character) :
    ¬ Segment grammar.Matches (first :: rest) previous
      (.nested .part update : Grammar.Pattern RuleName.Value Value) := by
  intro segment
  have solid := solid_of_isAlphanumeric first (word first List.mem_cons_self)
  cases segment.matches_of_solid solid with
  | @branch _ _ _ branch _ member reads =>
    have several : ∀ branch ∈ (grammar.rule .part).branches,
        2 ≤ (branch.filter fun element => 0 < element.minimum).length ∧
          branch.all (fun element => element.pattern matches .literal _ | .nested _ _) = true := by
      decide +kernel
    obtain ⟨two, plain⟩ := several branch member
    have patterns : ∀ element ∈ branch, ∀ set, element.pattern ≠ .character set := by
      intro element inside set same
      have here := List.all_eq_true.mp plain element inside
      rw [same] at here
      cases here
    have one := (segment_of_word word patterns (List.cons_ne_nil _ _) reads).1
    omega

/-- A word that is not the one of a branch is not read by it, be there an article before or more
words after. -/
theorem not_reads_messageBox {first : UInt8} {rest : List UInt8} {word : String}
    {occurrences : List Grammar.Occurrence} (listed : word ∈ messageWords)
    (alphanumeric : ∀ character ∈ first :: rest, Character.isAlphanumeric character)
    (other : RomanString.toLower ⟨first :: rest⟩ ≠ .encodeOrRaw word) :
    ¬ Reads grammar.Matches (first :: rest) previous
      ([(keyword "the").optional, keyword word, (keyword "box").optional] :
        Grammar.Branch RuleName.Value Container) 0 0 occurrences := by
  intro reads
  have written : ∀ word ∈ messageWords,
      (letters word).all (fun character => !Character.isBlank character) = true ∧
        (letters word).map Character.toLower = letters word := by decide
  obtain ⟨wordSolid, small⟩ := written word listed
  have segment := (segment_of_word alphanumeric (by simp [keyword, Grammar.Element.optional,
    Grammar.Element.counts, Grammar.Element.once]) (List.cons_ne_nil _ _) reads).2 (keyword word)
    (by simp) Nat.one_pos
  have lower := map_toLower_of_segment segment rfl
    (solid_of_isAlphanumeric first (alphanumeric first List.mem_cons_self))
    (by simpa [letters] using wordSolid)
  exact other (congrArg RomanString.mk (lower.trans small))

/-- The branches of a container before the one for variables. -/
theorem container_branches : (grammar.rule .container).branches.take 3 =
    [[(keyword "the").optional, keyword "message", (keyword "box").optional],
      [(keyword "the").optional, keyword "msg", (keyword "box").optional],
      [nested .part fun _ part => .part part]] := rfl

/-- A word that does not name the message box is a variable. -/
theorem expresses_variable {name : RomanString} (word : IsWord name)
    (other : ∀ word ∈ messageWords, name.toLower ≠ .encodeOrRaw word) :
    Expresses .container name.characters (.variable name) := by
  obtain ⟨characters⟩ := name
  obtain ⟨first, rest, same, letter, others⟩ := word
  obtain rfl : characters = first :: rest := same
  have alphanumeric := forall_isAlphanumeric letter others
  have solid := solid_of_isAlphanumeric first (alphanumeric first List.mem_cons_self)
  refine ⟨by simp [startsSolid, solid], fun previous outset => ?_⟩
  have denotes := @word_denotes previous first rest letter others
  have apart := (free_of_mem_outsets outset).apart first
  have spelled : Container.variable ⟨first :: rest⟩ =
      .variable (Spelling.text ⟨(first :: rest).reverse⟩) := by
    rw [Spelling.text, List.reverse_reverse]
  rw [spelled]
  refine Yields.denotes 3 rfl ?_ (.last ⟨rfl, rfl⟩ rfl (.of_matches solid apart denotes.matches)
    (.of_denotes solid denotes))
  intro branch earlier occurrences
  rw [container_branches] at earlier
  simp only [List.mem_cons, List.not_mem_nil, or_false] at earlier
  have message : "message" ∈ messageWords := by simp [messageWords]
  have short : "msg" ∈ messageWords := by simp [messageWords]
  rcases earlier with rfl | rfl | rfl
  · exact not_reads_messageBox message alphanumeric (other _ message)
  · exact not_reads_messageBox short alphanumeric (other _ short)
  · exact fun reads => not_segment_part alphanumeric (reads.last ⟨rfl, rfl⟩)

/-- Every canonical text for a container names it. -/
theorem ContainerRenders.expresses {container : Container}
    (renders : ContainerRenders container text) (canonical : container.IsCanonical) :
    Expresses .container text container := by
  cases renders with
  | word => exact expresses_variable canonical.1 canonical.2
  | @part reference _ inner =>
    have canonical : reference.IsCanonical := canonical
    have expresses := inner.expresses canonical
    exact .of_yields 2 rfl (by decide +kernel) (inner.among canonical) expresses.solid
      fun _ outset => expresses.yields outset
  | messageBox =>
    refine .of_first rfl (by decide) fun previous outset => ?_
    refine .absent rfl (fun _ _ => not_segment_article List.mem_cons_self outset) ?_
    refine (takes_word (by decide) (free_of_mem_outsets outset)).single ⟨rfl, rfl⟩ rfl ?_
    exact (takes_next_word (by decide)).last_present (by decide) rfl rfl

/-- A preposition and a container are read as such. -/
theorem expresses_putTarget {container : Container} (preposition : Preposition)
    (expresses : Expresses .container text container) :
    Expresses .putTarget (phrase [letters preposition.spoken, text]) (preposition, container) := by
  have among : Among [] [letters preposition.spoken]
      (phrase [letters preposition.spoken, text]) :=
    .inr ⟨_, List.mem_singleton_self _, List.prefix_append _ _⟩
  have solid : startsSolid (letters preposition.spoken) = true := by
    cases preposition <;> decide
  have whole := Grammar.startsSolid_append solid (Character.space :: text)
  cases preposition with
  | into => exact .of_first rfl whole fun _ outset => linked_yields solid expresses outset
  | after =>
    exact .of_yields 1 rfl (by decide) among whole
      fun _ outset => linked_yields solid expresses outset
  | before =>
    exact .of_yields 2 rfl (by decide) among whole
      fun _ outset => linked_yields solid expresses outset

/-- A value goes into a container. -/
theorem expresses_put {value : Expression} {container : Container}
    {containerText : List UInt8} (renders : Renders 0 value text) (tree : IsOperatorTree value)
    (preposition : Preposition) (expresses : Expresses .container containerText container) :
    Expresses .put
      (phrase [letters "put", text, letters preposition.spoken, containerText])
      (.put value preposition container) := by
  have target := expresses_putTarget preposition expresses
  have barred : Barred (Character.space :: phrase [letters preposition.spoken, containerText]) :=
    .inr ⟨preposition.spoken, by cases preposition <;> decide, _, rfl⟩
  refine .of_first rfl (Grammar.startsSolid_append (by decide) _) fun previous outset => ?_
  rw [phrase_cons]
  refine (takes_word (by decide) (free_of_mem_outsets outset)).single ⟨rfl, rfl⟩ rfl ?_
  refine (takes_expression renders tree barred).single ⟨rfl, rfl⟩ rfl ?_
  exact target.takes_next.last_present (by decide) rfl rfl

end Containers

section Answers

variable {prompt reply : Expression} {text rest : List UInt8} {previous : Option UInt8}

/-- One more reply. -/
theorem expresses_otherReply (expresses : Expresses .factor text reply) :
    Expresses .otherReply (phrase [letters "or", text]) reply :=
  .of_first rfl (Grammar.startsSolid_append (by decide) _)
    fun _ outset => linked_yields (by decide) expresses outset

/-- One more reply takes its text before the word for the next one. -/
theorem takes_otherReply {Value : Type} {update : Value → Expression → Value} {old : Value}
    (renders : FactorRenders reply text) (tree : IsOperatorTree reply) (stops : Stops 0 rest) :
    grammar.Takes (.nested .otherReply update : Grammar.Pattern RuleName.Value Value) previous
      (Character.space :: phrase [letters "or", text]) rest old (update old reply) := by
  have last := @Expresses.takes Value _ _ old .otherReply update _
    (expresses_otherReply (renders.expresses tree)) space_mem_outsets
  have characters : letters "or" = [0x6F, 0x72] := by decide
  have solid : Character.isBlank 0x6F = false := by decide
  have takes : grammar.Takes (.nested .otherReply update : Grammar.Pattern RuleName.Value Value)
      (some Character.space) (phrase [letters "or", text]) rest old (update old reply) := by
    refine ⟨last.segment, last.update, fun other tail whole segment => ?_⟩
    cases other with
    | nil => exact absurd rfl segment.ne_nil
    | cons head more =>
      have begun : head = 0x6F := by
        rw [phrase_pair, characters] at whole
        exact (List.cons.inj whole).1.symm
      cases segment.matches_of_solid (begun ▸ solid) with
      | branch member reads =>
        obtain rfl := List.mem_singleton.mp member
        obtain ⟨word, behind, _, same, announced, reads⟩ := reads.single ⟨rfl, rfl⟩
        have written : Segment grammar.Matches (letters "or") (some Character.space)
            (keyword "or" : ElementOf Expression).pattern :=
          Grammar.segment_literal_refl characters (free_space.apart _)
        rw [same, phrase_pair, List.append_assoc, List.append_assoc] at whole
        obtain rfl := written.literal_unique ⟨_, _, characters, solid⟩ announced whole
        have shorter := (@takes_factor reply text rest _ Expression replace .emptyText renders tree
          stops).longest behind tail (List.append_cancel_left whole) (reads.last ⟨rfl, rfl⟩)
        rw [same, phrase_pair, List.length_append, List.length_append]
        omega
  exact takes.after_blank (by decide) (by simp) (by simp)

/-- The replies after the first one. -/
theorem OtherReplies.stops {replies : List Expression} (renders : OtherReplies replies text) :
    Stops 0 text := by
  cases renders with
  | none => exact .inl rfl
  | more => exact stops_word (by simp : "or" ∈ ["of", "or"]) _

/-- The branches of the command to ask a question. -/
def repliesBranch : Grammar.Branch RuleName.Value Command :=
  [keyword "answer", nested .expression setPrompt, keyword "with", nested .factor addReply,
    (nested .otherReply addReply).many]

/-- Replies are added one by one. -/
theorem replies_proceed {replies : List Expression} (renders : OtherReplies replies text)
    (trees : ∀ reply ∈ replies, IsOperatorTree reply) (previous : Option UInt8)
    (count position : Nat) (earlier : List Expression) :
    grammar.Proceeds repliesBranch (nested .otherReply addReply).many [] text previous 4 count
      position (.answer prompt earlier) (.answer prompt (earlier ++ replies)) := by
  induction renders generalizing previous count position earlier with
  | none =>
    rw [List.append_nil]
    exact .stop (Nat.zero_le _) (by simp [Grammar.Element.many, Grammar.Element.counts])
      (fun _ => Grammar.not_begins_nil) .nil
  | @more reply text replies others inner following ih =>
    have split : earlier ++ reply :: replies = (earlier ++ [reply]) ++ replies := by simp
    rw [split]
    refine (takes_otherReply inner (trees reply List.mem_cons_self) following.stops).more rfl ?_
    exact ih (fun other member => trees other (List.mem_cons_of_mem _ member)) _ _ _ _

/-- A question with replies. -/
theorem expresses_ask {replies : List Expression} {replyText others : List UInt8}
    (renders : Renders 0 prompt text) (tree : IsOperatorTree prompt)
    (first : FactorRenders reply replyText) (following : OtherReplies replies others)
    (trees : ∀ other ∈ reply :: replies, IsOperatorTree other) :
    Expresses .answer (phrase [letters "answer", text, letters "with", replyText ++ others])
      (.answer prompt (reply :: replies)) := by
  have barred : Barred (Character.space :: phrase [letters "with", replyText ++ others]) :=
    .inr ⟨"with", by simp [barringWords], _, rfl⟩
  have single := trees reply List.mem_cons_self
  have found : (grammar.rule .answer).branches[0]? = some repliesBranch := rfl
  refine .of_first found (Grammar.startsSolid_append (by decide) _) fun previous outset => ?_
  rw [phrase_cons]
  refine (takes_word (by decide) (free_of_mem_outsets outset)).single ⟨rfl, rfl⟩ rfl ?_
  refine (takes_expression renders tree barred).single ⟨rfl, rfl⟩ rfl ?_
  rw [phrase_pair, ← List.cons_append, ← List.cons_append]
  refine (takes_next_word (by decide)).single ⟨rfl, rfl⟩ rfl ?_
  refine (takes_factor first single following.stops).single ⟨rfl, rfl⟩ rfl ?_
  exact (replies_proceed following (fun other member => trees other (List.mem_cons_of_mem _ member))
    _ _ _ [reply]).yields

/-- A message alone announces no replies. -/
theorem not_reads_replies (renders : Renders 0 prompt text) (tree : IsOperatorTree prompt)
    (free : Free previous) (occurrences : List Grammar.Occurrence) :
    ¬ Reads grammar.Matches (phrase [letters "answer", text]) previous repliesBranch 0 0
      occurrences := by
  intro reads
  have characters : letters "answer" = [0x61, 0x6E, 0x73, 0x77, 0x65, 0x72] := by decide
  have word : letters "with" = [0x77, 0x69, 0x74, 0x68] := by decide
  obtain ⟨asked, behind, _, whole, answer, reads⟩ := reads.single ⟨rfl, rfl⟩
  obtain ⟨question, more, _, rfl, expression, reads⟩ := reads.single ⟨rfl, rfl⟩
  obtain ⟨announced, others, _, rfl, announces, _⟩ := reads.single ⟨rfl, rfl⟩
  have written : Segment grammar.Matches (letters "answer") previous
      (keyword "answer" : ElementOf Command).pattern :=
    Grammar.segment_literal_refl characters (free.apart _)
  obtain rfl := written.literal_unique ⟨_, _, characters, by decide⟩ answer whole
  have parts : Character.space :: text = question ++ (announced ++ others) :=
    List.append_cancel_left whole
  -- No string is open where the word before replies is read, so it is read outside of strings.
  have part : Part false (fun _ => False) _ question :=
    part_of_nested (expression.mono fun _ _ _ => known_of_matches) rfl
  have closed := (part.steady 0 ⟨0, false, false, 0⟩ rfl fun _ => rfl).unquoted
  rw [Scan.quoted_past] at closed
  have calm : Calm (Character.space :: text) := calm_cons (by decide) (calm_of_renders renders tree)
  have silent := calm.silent
  have plain := plain_of_segment announces (List.all_eq_true.mp (by decide))
  have unquote : ∀ character ∈ announced, character ≠ Character.quote := by
    rintro character member rfl
    exact absurd (plain _ member) (by decide)
  rw [parts, outside_append, closed, outside_append, outside_of_forall unquote] at silent
  cases announces with
  | @literal _ _ _ blanks rest first blank apart spells =>
    have spells : Grammar.Spells true (letters "with") (first :: rest) := spells
    rw [word] at spells
    have same : Character.toLower 0x77 = Character.toLower first := spells.head_same (by decide)
    exact silent first (by simp) same.symm

/-- A message. -/
theorem expresses_show (renders : Renders 0 prompt text) (tree : IsOperatorTree prompt) :
    Expresses .answer (phrase [letters "answer", text]) (.answer prompt []) := by
  refine ⟨Grammar.startsSolid_append (by decide) _, fun previous outset => ?_⟩
  refine Yields.denotes 1 rfl ?_
    (linked_yields (by decide) (expresses_expression renders tree) outset)
  intro branch earlier occurrences
  obtain rfl : branch = repliesBranch := List.mem_singleton.mp earlier
  exact not_reads_replies renders tree (free_of_mem_outsets outset) occurrences

end Answers

section Effects

variable {previous : Option UInt8} {text rest : List UInt8}

/-- A word takes its text before anything but letters and digits. -/
theorem takes_wordRule {Value : Type} {update : Value → Spelling → Value} {old : Value}
    {name : RomanString} (word : IsWord name) (free : Free previous)
    (stops : ∀ next ∈ rest.head?, Character.isAlphanumeric next = false) :
    grammar.Takes (.nested .word update : Grammar.Pattern RuleName.Value Value) previous
      name.characters rest old (update old ⟨name.characters.reverse⟩) := by
  obtain ⟨first, others, same, letter, alphanumeric⟩ := word
  rw [same]
  have all := forall_isAlphanumeric letter alphanumeric
  have solid := solid_of_isAlphanumeric first (all first List.mem_cons_self)
  have denotes := @word_denotes previous first others letter alphanumeric
  exact ⟨.of_matches solid (free.apart first) denotes.matches, .of_denotes solid denotes,
    fun other tail whole => length_word_le [] (by simp) all stops whole⟩

/-- The texts of words, each after a space. -/
def spacedWords (words : List RomanString) : List UInt8 :=
  words.flatMap fun word => Character.space :: word.characters

/-- A phrase of words is the first of them and each other one after a space. -/
theorem phrase_words (word : RomanString) (words : List RomanString) :
    phrase ((word :: words).map RomanString.characters) = word.characters ++ spacedWords words := by
  induction words generalizing word with
  | nil => simp [phrase, spacedWords]
  | cons next words ih =>
    have rest := ih next
    rw [List.map_cons] at rest
    rw [List.map_cons, List.map_cons, phrase, rest]
    simp [spacedWords]

/-- The first word ends where the others begin, since they begin with a space. -/
theorem head_spacedWords (words : List RomanString) :
    ∀ next ∈ (spacedWords words).head?, Character.isAlphanumeric next = false := by
  cases words with
  | nil => simp [spacedWords]
  | cons word words =>
    simp only [spacedWords, List.flatMap_cons, List.cons_append, List.head?_cons,
      Option.mem_some_iff]
    rintro _ rfl
    decide

/-- Words are spelled in order with a space before each. -/
theorem foldl_addWord (words : List RomanString) {spelled : Spelling}
    (nonempty : spelled.isEmpty = false) :
    words.foldl (fun spelled word => addWord spelled ⟨word.characters.reverse⟩) spelled =
      ⟨(spacedWords words).reverse ++ spelled.reversed⟩ := by
  induction words generalizing spelled with
  | nil => simp [spacedWords]
  | cons word words ih =>
    have added : addWord spelled ⟨word.characters.reverse⟩ =
        ⟨word.characters.reverse ++ Character.space :: spelled.reversed⟩ := by
      rw [addWord, nonempty]
      rfl
    rw [List.foldl_cons, added, ih (by simp [Spelling.isEmpty])]
    simp [spacedWords]

/-- One of the words of an effect. -/
def wordElement : ElementOf Spelling := (nested .word addWord).oneOrMore

/-- Words after the first one are read one by one. -/
theorem words_proceed {words : List RomanString} (each : ∀ word ∈ words, IsWord word)
    (previous : Option UInt8) {count : Nat} (enough : 1 ≤ count) (position : Nat)
    (spelled : Spelling) :
    grammar.Proceeds [wordElement] wordElement [] (spacedWords words) previous 0 count position
      spelled (words.foldl (fun spelled word => addWord spelled ⟨word.characters.reverse⟩)
        spelled) := by
  induction words generalizing previous count position spelled with
  | nil =>
    exact .stop enough (by simp [wordElement, Grammar.Element.oneOrMore, Grammar.Element.counts])
      (fun _ => Grammar.not_begins_nil) .nil
  | cons word words ih =>
    have takes := @takes_wordRule (some Character.space) (spacedWords words) Spelling addWord
      spelled _ (each word List.mem_cons_self) free_space (head_spacedWords words)
    refine (takes.after_blank (by decide) (by simp) (by simp)).more rfl ?_
    exact ih (fun other member => each other (List.mem_cons_of_mem _ member)) _
      (Nat.le_add_left 1 count) _ _

/-- Words are read as their text. -/
theorem expresses_words {words : List RomanString} (nonempty : words ≠ [])
    (each : ∀ word ∈ words, IsWord word) :
    Expresses .words (phrase (words.map RomanString.characters))
      ⟨(phrase (words.map RomanString.characters)).reverse⟩ := by
  obtain ⟨word, words, rfl⟩ := List.exists_cons_of_ne_nil nonempty
  have head := each word List.mem_cons_self
  obtain ⟨first, rest, characters, letter, _⟩ := id head
  have alphanumeric := isAlphanumeric_of_isLetter first letter
  have solid : startsSolid word.characters = true := by
    simp [characters, startsSolid, solid_of_isAlphanumeric first alphanumeric]
  have begun : addWord .empty ⟨word.characters.reverse⟩ = ⟨word.characters.reverse⟩ :=
    congrArg Spelling.mk (List.append_nil _)
  have spelled := @foldl_addWord words ⟨word.characters.reverse⟩
    (by simp [Spelling.isEmpty, characters])
  rw [phrase_words, List.reverse_append, ← spelled]
  refine .of_first rfl (Grammar.startsSolid_append solid _) fun previous outset => ?_
  have takes := @takes_wordRule previous (spacedWords words) Spelling addWord .empty word head
    (free_of_mem_outsets outset) (head_spacedWords words)
  rw [begun] at takes
  refine Proceeds.yields (Grammar.Takes.more takes rfl ?_)
  exact words_proceed (fun other member => each other (List.mem_cons_of_mem _ member)) _
    (Nat.le_refl 1) _ _

/-- An effect. -/
theorem expresses_visual {words : List RomanString} {effect : RomanString} (nonempty : words ≠ [])
    (each : ∀ word ∈ words, IsWord word)
    (same : effect.characters = phrase (words.map RomanString.characters)) :
    Expresses .visual (phrase [letters "visual", letters "effect", effect.characters])
      (.visual effect) := by
  have expresses := expresses_words nonempty each
  have spelled : Command.visual effect =
      .visual (Spelling.text ⟨(phrase (words.map RomanString.characters)).reverse⟩) := by
    rw [Spelling.text, List.reverse_reverse, ← same]
  rw [spelled, same]
  refine .of_first rfl (Grammar.startsSolid_append (by decide) _) fun previous outset => ?_
  rw [phrase_triple]
  refine (takes_word (by decide) (free_of_mem_outsets outset)).single ⟨rfl, rfl⟩ rfl ?_
  refine (takes_next_word (by decide)).single ⟨rfl, rfl⟩ rfl ?_
  exact expresses.takes_next.last ⟨rfl, rfl⟩ rfl

end Effects

section Commands

variable {text : List UInt8}

/-- The word alone is the command to beep. -/
theorem expresses_beep : Expresses .beep (letters "beep") (.beep none) := by
  refine .of_first rfl (by decide) fun previous outset => ?_
  rw [← List.append_nil (letters "beep")]
  exact (takes_word (by decide) (free_of_mem_outsets outset)).single ⟨rfl, rfl⟩ rfl
    (.absent_at_end rfl)

/-- With an expression behind it, it is the command to beep so many times. -/
theorem expresses_beepTimes {count : Expression} (renders : Renders 0 count text)
    (tree : IsOperatorTree count) :
    Expresses .beep (phrase [letters "beep", text]) (.beep (some count)) := by
  refine .of_first rfl (Grammar.startsSolid_append (by decide) _) fun previous outset => ?_
  refine (takes_word (by decide) (free_of_mem_outsets outset)).single ⟨rfl, rfl⟩ rfl ?_
  exact (expresses_expression renders tree).takes_next.last_present (by decide) rfl rfl

/-- Every canonical text for a command gives it. -/
theorem CommandRenders.expresses {command : Command} (renders : CommandRenders command text)
    (canonical : command.IsCanonical) : Expresses .command text command := by
  have among : ∀ {word more}, Among [] [letters word] (letters word ++ more) :=
    .inr ⟨_, List.mem_singleton_self _, List.prefix_append _ _⟩
  cases renders with
  | @go destination _ inner =>
    have expresses := expresses_go (inner.expresses canonical)
    exact .of_first rfl expresses.solid fun _ outset => expresses.yields outset
  | @put value text preposition container _ inner held =>
    have expresses := expresses_put inner canonical.1 preposition (held.expresses canonical.2)
    exact .of_yields 1 rfl (by decide +kernel) among expresses.solid
      fun _ outset => expresses.yields outset
  | «show» inner =>
    have expresses := expresses_show inner canonical.1
    exact .of_yields 2 rfl (by decide +kernel) among expresses.solid
      fun _ outset => expresses.yields outset
  | ask inner first others =>
    have expresses := expresses_ask inner canonical.1 first others canonical.2
    exact .of_yields 2 rfl (by decide +kernel) among expresses.solid
      fun _ outset => expresses.yields outset
  | beep =>
    have begun : Among [letters "beep"] [] (letters "beep") := .inl (List.mem_singleton_self _)
    exact .of_yields 3 rfl (by decide +kernel) begun expresses_beep.solid
      fun _ outset => expresses_beep.yields outset
  | @beepTimes count text inner =>
    have expresses := expresses_beepTimes inner (canonical count rfl)
    exact .of_yields 3 rfl (by decide +kernel) among expresses.solid
      fun _ outset => expresses.yields outset
  | @visual effect =>
    obtain ⟨words, nonempty, each, same⟩ := canonical
    have expresses := expresses_visual nonempty each same
    exact .of_yields 4 rfl (by decide +kernel) among expresses.solid
      fun _ outset => expresses.yields outset

/-- A line with a value where a phrase may begin is parsed as it. -/
theorem Expresses.parse_eq {name : RuleName} {value : name.Value}
    (expresses : Expresses name text value) : parse name ⟨text⟩ = some value := by
  have solid : ∀ name ∈ RuleName.all, ∀ branch ∈ (grammar.rule name).branches,
      Grammar.branchEndsSolid branch = true := by decide +kernel
  have denotes := expresses.denotes none (by simp [outsets])
  have last := Grammar.Matches.endsSolid (fun name => solid name (mem_all name)) denotes.matches
  obtain ⟨first, rest, rfl, firstSolid⟩ := Grammar.exists_cons_of_startsSolid expresses.solid
  refine Grammar.parse_eq_of_denotes grammar_proper ?_
  rw [trimmed_eq_self (by simpa using firstSolid) last]
  exact denotes

/-- **Commands and objects read back.** Every canonical command and every canonical object can be
said, and however it is said in canonical words, it is parsed as itself. -/
theorem parse_canonical :
    (∀ command : Command, command.IsCanonical → (∃ text, CommandRenders command text) ∧
      ∀ text, CommandRenders command text → parse .command ⟨text⟩ = some command) ∧
    ∀ object : ObjectReference, object.IsCanonical → (∃ text, ObjectRenders object text) ∧
      ∀ text, ObjectRenders object text → parse .object ⟨text⟩ = some object :=
  ⟨fun _ canonical => ⟨exists_commandRenders canonical,
      fun _ renders => (renders.expresses canonical).parse_eq⟩,
    fun _ canonical => ⟨exists_objectRenders canonical,
      fun _ renders => (renders.expresses canonical).parse_eq⟩⟩

/-- A part of a card of a background is no card of a call, and the last card is no part. -/
theorem parse_canonical_part :
    parse .command (.encodeOrRaw
        "put 1 - 2 after card button \"a\" of next card of background id ( 3 - 1 )") =
      some (.put (.binary .subtract (.integer 1) (.integer 2)) .after
        (.part ⟨.button, .card, .name (.string ⟨[0x61]⟩), some ⟨.relative .next,
          some (.absolute (.identifier (.binary .subtract (.integer 3) (.integer 1))))⟩⟩)) ∧
    parse .object (.encodeOrRaw "last card of background 2") =
      some (.card ⟨.absolute (.ordinal .last),
        some (.absolute (.ordinal (.number (.integer 2))))⟩) := by
  have difference : ∀ left right,
      Renders 0 (.binary .subtract (.integer left) (.integer right)) _ :=
    fun _ _ => .binary (by decide) (by decide : IsSpelling _ "-") .integer .integer
  have which : WhichRenders .button .card (.name (.string ⟨[0x61]⟩)) _ :=
    @WhichRenders.described _ _ (.string ⟨[0x61]⟩) _ .string
  have background : LayerRenders .background
      (.absolute (.identifier (.binary .subtract (.integer 3) (.integer 1)))) _ :=
    .identifier (.parentheses rfl (difference 3 1))
  have part := PartRenders.ofCard which (.ofBackground (@LayerRenders.relative _ .next) background)
  have last : LayerRenders .card (.absolute (.ordinal .last)) _ := .ordinal rfl
  have second : LayerRenders .background (.absolute (.ordinal (.number (.integer 2)))) _ :=
    @LayerRenders.described _ (.integer 2) _ .integer
  have small : ∀ value ≤ 3, IsOperatorTree (.integer value) := by
    intro value bound
    exact Nat.le_trans bound (by decide)
  have quoted : IsOperatorTree (.string ⟨[0x61]⟩) := by
    simp only [IsOperatorTree, List.mem_singleton, forall_eq]
    decide
  constructor
  · refine (parse_canonical.1 _ ?_).2 _
      (@CommandRenders.put _ _ .after _ _ (difference 1 2) (.part part))
    refine ⟨⟨small 1 (by decide), small 2 (by decide)⟩, ⟨quoted, rfl⟩, ?_⟩
    rintro _ ⟨⟩
    refine ⟨trivial, ?_⟩
    rintro _ ⟨⟩
    exact ⟨small 3 (by decide), small 1 (by decide)⟩
  · refine (parse_canonical.2 _ ?_).2 _ (ObjectRenders.card (.ofBackground last second))
    refine ⟨trivial, ?_⟩
    rintro _ ⟨⟩
    exact ⟨small 2 (by decide), rfl⟩

end Commands

end HyperCard.HyperTalk
