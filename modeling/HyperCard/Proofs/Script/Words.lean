import HyperCard.Proofs.Script.Operators

/-!
# Words next to each other

A word is read as far as letters and digits go, so before any other character it is the only word
that can be read there. Letters and digits without a blank between them are one word: no text or
rule begins inside it.
-/
namespace HyperCard.HyperTalk

open Grammar (before Segment Reads Pattern)

/-- A text splits in one way into characters of a kind and a rest that begins with another one. -/
theorem eq_of_append_eq {kind : UInt8 → Bool} {left right rest tail : List UInt8}
    (leftKind : ∀ character ∈ left, kind character)
    (rightKind : ∀ character ∈ right, kind character)
    (restStops : ∀ character ∈ rest.head?, kind character = false)
    (tailStops : ∀ character ∈ tail.head?, kind character = false)
    (whole : left ++ rest = right ++ tail) : left = right ∧ rest = tail := by
  rcases List.append_eq_append_iff.mp whole with ⟨more, rfl, same⟩ | ⟨more, rfl, same⟩
  · cases more with
    | nil => exact ⟨by simp, by simpa using same⟩
    | cons next more =>
      have inside := rightKind next (by simp)
      rw [restStops next (by simp [same])] at inside
      cases inside
  · cases more with
    | nil => exact ⟨by simp, by simpa using same.symm⟩
    | cons next more =>
      have inside := leftKind next (by simp)
      rw [tailStops next (by simp [same])] at inside
      cases inside

/-- After characters of a kind comes what follows one of them. -/
theorem any_before {kind : UInt8 → Bool} {previous : Option UInt8} {text : List UInt8}
    (nonempty : text ≠ []) (all : ∀ character ∈ text, kind character) :
    (before previous text).any kind = true := by
  rcases text.eq_nil_or_concat with empty | ⟨others, last, rfl⟩
  · exact absurd empty nonempty
  · have here := all last (by simp)
    simp [here]

section Joined

variable {language : Grammar.Language RuleName} {Value : Type} {previous : Option UInt8}
  {text rest : List UInt8} {first : UInt8}

/-- No text and no nested rule begins inside a word. -/
theorem not_segment_of_joined {pattern : Pattern RuleName.Value Value}
    (several : ∀ set, pattern ≠ .character set)
    (joined : previous.any Character.isAlphanumeric = true)
    (word : Character.isAlphanumeric first = true) :
    ¬ Segment language (first :: rest) previous pattern := by
  intro segment
  have joins : ∀ {blanks more : List UInt8} {next : UInt8},
      (∀ character ∈ blanks, Character.isBlank character) →
      first :: rest = blanks ++ next :: more →
      Character.joinsWord (before previous blanks) next = true := by
    intro blanks more next blank whole
    cases blanks with
    | nil =>
      obtain ⟨rfl, _⟩ := List.cons.inj whole
      simp [Character.joinsWord, joined, word]
    | cons other blanks =>
      obtain ⟨rfl, _⟩ := List.cons.inj whole
      have isBlank := blank first List.mem_cons_self
      rw [solid_of_isAlphanumeric first word] at isBlank
      cases isBlank
  generalize whole : first :: rest = text at segment
  cases segment with
  | character => exact several _ rfl
  | literal blank apart _ =>
    rw [joins blank whole] at apart
    cases apart
  | nested blank _ apart _ =>
    rw [joins blank whole] at apart
    cases apart

/-- So no letters and digits are read inside a word, but a single one of them. -/
theorem not_segment_of_joined_word {pattern : Pattern RuleName.Value Value}
    (several : ∀ set, pattern ≠ .character set)
    (joined : previous.any Character.isAlphanumeric = true)
    (word : ∀ character ∈ text, Character.isAlphanumeric character) :
    ¬ Segment language text previous pattern := by
  intro segment
  cases text with
  | nil => exact segment.ne_nil rfl
  | cons first rest =>
    exact not_segment_of_joined several joined (word first List.mem_cons_self) segment

/-- A word is not read by two elements. -/
theorem not_reads_of_word {element second : ElementOf Value}
    {following : Grammar.Branch RuleName.Value Value} {index position : Nat}
    {occurrences : List Grammar.Occurrence}
    (word : ∀ character ∈ text, Character.isAlphanumeric character)
    (singles : element.IsSingle ∧ second.IsSingle)
    (several : ∀ set, second.pattern ≠ .character set) :
    ¬ Reads language text previous (element :: second :: following) index position occurrences := by
  intro reads
  obtain ⟨left, right, others, rfl, segment, reads⟩ := reads.single singles.1
  obtain ⟨next, more, others, rfl, again, _⟩ := reads.single singles.2
  have joined : (before previous left).any Character.isAlphanumeric = true :=
    any_before segment.ne_nil fun other member => word other (by simp [member])
  exact not_segment_of_joined_word several joined
    (fun other member => word other (by simp [member])) again

/-- Nothing is read inside a word by elements that are no single characters. -/
theorem eq_nil_of_joined {branch : Grammar.Branch RuleName.Value Value} {index position : Nat}
    {occurrences : List Grammar.Occurrence}
    (word : ∀ character ∈ text, Character.isAlphanumeric character)
    (several : ∀ element ∈ branch, ∀ set, element.pattern ≠ .character set)
    (joined : previous.any Character.isAlphanumeric = true)
    (reads : Reads language text previous branch index position occurrences) : text = [] := by
  induction branch generalizing index with
  | nil => exact reads.eq_nil_of_nil
  | cons element following ih =>
    rcases Grammar.continues_iff.mp (Grammar.reads_cons_iff.mp reads) with
      ⟨_, _, reads⟩ | ⟨head, rest, _, rfl, _, segment, _⟩
    · exact ih (fun other member => several other (List.mem_cons_of_mem _ member)) reads
    · exact absurd segment (not_segment_of_joined_word (several element List.mem_cons_self) joined
        fun character member => word character (List.mem_append_left _ member))

/-- Where a word is read, every element that has to occur reads all of it, so there is one at
most. -/
theorem segment_of_word {branch : Grammar.Branch RuleName.Value Value} {index position : Nat}
    {occurrences : List Grammar.Occurrence}
    (word : ∀ character ∈ text, Character.isAlphanumeric character)
    (several : ∀ element ∈ branch, ∀ set, element.pattern ≠ .character set) (nonempty : text ≠ [])
    (reads : Reads language text previous branch index position occurrences) :
    (branch.filter fun element => 0 < element.minimum).length ≤ 1 ∧
      ∀ element ∈ branch, 0 < element.minimum → Segment language text previous element.pattern := by
  induction branch generalizing index with
  | nil => exact absurd reads.eq_nil_of_nil nonempty
  | cons element following ih =>
    have others : ∀ other ∈ following, ∀ set, other.pattern ≠ .character set :=
      fun other member => several other (List.mem_cons_of_mem _ member)
    rcases Grammar.continues_iff.mp (Grammar.reads_cons_iff.mp reads) with
      ⟨enough, _, reads⟩ | ⟨head, rest, _, rfl, _, segment, continues⟩
    · obtain ⟨atMost, each⟩ := ih others reads
      have absent : element.minimum = 0 := by omega
      refine ⟨by simpa [absent] using atMost, fun other member needed => ?_⟩
      rcases List.mem_cons.mp member with rfl | member
      · omega
      · exact each other member needed
    · have joined : (before previous head).any Character.isAlphanumeric = true :=
        any_before segment.ne_nil fun other member => word other (by simp [member])
      have behind : ∀ character ∈ rest, Character.isAlphanumeric character :=
        fun other member => word other (by simp [member])
      -- Neither more of the element nor a later one is read inside the word.
      have ends : rest = [] ∧ Grammar.canEnd following = true := by
        rcases Grammar.continues_iff.mp continues with ⟨_, _, reads⟩ | begins
        · obtain rfl := eq_nil_of_joined behind others joined reads
          exact ⟨rfl, (Grammar.reads_nil_iff.mp reads).2⟩
        · obtain ⟨next, more, _, rfl, _, segment, _⟩ := begins
          exact absurd segment (not_segment_of_joined_word (several element List.mem_cons_self)
            joined fun character member => behind character (List.mem_append_left _ member))
      obtain ⟨rfl, absent⟩ := ends
      have none : ∀ other ∈ following, other.minimum = 0 := fun other member => by
        simpa using List.all_eq_true.mp absent other member
      have filtered : (following.filter fun other => 0 < other.minimum) = [] :=
        List.filter_eq_nil_iff.mpr fun other member => by simp [none other member]
      refine ⟨?_, fun other member needed => ?_⟩
      · rw [List.filter_cons, filtered]
        split <;> simp
      · rcases List.mem_cons.mp member with rfl | member
        · simpa using segment
        · have := none other member
          omega

/-- Letters of both sizes are written for a text of characters that are no blanks. -/
theorem map_toLower_of_spells {input : List UInt8} (spells : Grammar.Spells true text input)
    (solid : ∀ character ∈ text, Character.isBlank character = false) :
    input.map Character.toLower = text.map Character.toLower := by
  induction spells with
  | nil => rfl
  | @character expected character _ _ _ same _ ih =>
    have lower : Character.toLower expected = Character.toLower character := same
    have others := ih fun other member => solid other (List.mem_cons_of_mem _ member)
    rw [List.map_cons, List.map_cons, lower, others]
  | @gap gap _ _ _ nonempty gapBlank _ _ _ _ _ _ =>
    obtain ⟨blank, gap, rfl⟩ := List.exists_cons_of_ne_nil nonempty
    have inside := solid blank (by simp)
    rw [gapBlank blank List.mem_cons_self] at inside
    cases inside

/-- What is read as a text in any case where a word stands. -/
theorem map_toLower_of_segment {literal : Grammar.Literal Value}
    (segment : Segment language (first :: rest) previous
      (.literal literal : Pattern RuleName.Value Value))
    (ignoresCase : literal.ignoresCase = true) (start : Character.isBlank first = false)
    (solid : ∀ character ∈ literal.text.characters, Character.isBlank character = false) :
    (first :: rest).map Character.toLower = literal.text.characters.map Character.toLower := by
  generalize whole : first :: rest = text at segment
  cases segment with
  | @literal _ _ _ blanks more next blank _ spells =>
    rw [ignoresCase] at spells
    have lower := map_toLower_of_spells spells solid
    cases blanks with
    | nil => exact lower
    | cons other blanks =>
      obtain ⟨rfl, _⟩ := List.cons.inj whole
      have isBlank := blank first List.mem_cons_self
      rw [start] at isBlank
      cases isBlank

/-- What is read as a text of plain characters has plain characters only. -/
theorem plain_of_segment {literal : Grammar.Literal Value}
    (segment : Segment language text previous (.literal literal : Pattern RuleName.Value Value))
    (plain : ∀ character ∈ literal.text.characters, Scan.isPlain character) :
    ∀ character ∈ text, Scan.isPlain character := by
  cases segment with
  | literal blank _ spells =>
    intro character member
    rcases List.mem_append.mp member with inside | inside
    · exact Scan.isPlain_of_isBlank character (blank character inside)
    · exact plain_of_spells spells plain character inside

end Joined

section Word

variable {Value : Type} {previous : Option UInt8} {update : Value → Spelling → Value}

/-- A word begins with a letter, perhaps after blanks. -/
theorem not_segment_word {left rest tail : List UInt8} {first : UInt8}
    (solid : Character.isBlank first = false) (other : Character.isLetter first = false)
    (whole : first :: rest = left ++ tail) :
    ¬ Segment grammar.Matches left previous
      (.nested .word update : Pattern RuleName.Value Value) := by
  intro segment
  obtain ⟨blanks, head, more, rfl, blank, letter, word⟩ := exists_word_of_segment segment
  have headSolid := solid_of_isAlphanumeric head (word head List.mem_cons_self)
  have parts : [] ++ first :: rest = blanks ++ head :: (more ++ tail) := by simpa using whole
  obtain ⟨_, rfl, _⟩ := Grammar.blanks_append_inj (by simp) solid blank headSolid parts
  rw [other] at letter
  cases letter

/-- No longer word is read than one before another character. -/
theorem length_word_le (blanks : List UInt8) {rest other tail more : List UInt8} {first : UInt8}
    (blank : ∀ character ∈ blanks, Character.isBlank character)
    (word : ∀ character ∈ first :: more, Character.isAlphanumeric character)
    (stops : ∀ next ∈ rest.head?, Character.isAlphanumeric next = false)
    (whole : (blanks ++ first :: more) ++ rest = other ++ tail)
    (segment : Segment grammar.Matches other previous
      (.nested .word update : Pattern RuleName.Value Value)) :
    other.length ≤ (blanks ++ first :: more).length := by
  obtain ⟨otherBlanks, head, others, rfl, otherBlank, letter, otherWord⟩ :=
    exists_word_of_segment segment
  have solid := solid_of_isAlphanumeric first (word first List.mem_cons_self)
  have otherSolid := solid_of_isAlphanumeric head (otherWord head List.mem_cons_self)
  have parts : blanks ++ first :: (more ++ rest) = otherBlanks ++ head :: (others ++ tail) := by
    simpa using whole
  obtain ⟨rfl, rfl, same⟩ := Grammar.blanks_append_inj blank solid otherBlank otherSolid parts
  rcases List.append_eq_append_iff.mp same with ⟨extra, rfl, after⟩ | ⟨extra, rfl, _⟩
  · cases extra with
    | nil => simp
    | cons next extra =>
      have inside := otherWord next (by simp)
      rw [stops next (by simp [after])] at inside
      cases inside
  · simp

/-- A word is spelled by its letters and digits. -/
theorem word_denotes {first : UInt8} {rest : List UInt8} (letter : Character.isLetter first)
    (word : ∀ character ∈ rest, Character.isAlphanumeric character) :
    grammar.Denotes .word previous (first :: rest) ⟨(first :: rest).reverse⟩ := by
  let branch : Grammar.Branch RuleName.Value Spelling :=
    [.character Character.isLetter .push,
      (Grammar.Element.character Character.isAlphanumeric .push).many]
  have value : rest.foldl Spelling.push (Spelling.empty.push first) =
      ⟨(first :: rest).reverse⟩ := by
    simp [foldl_push, Spelling.empty, Spelling.push]
  have yields : grammar.Yields branch branch ([first] ++ (rest ++ [])) previous 0 0 Spelling.empty
      ⟨(first :: rest).reverse⟩ := by
    refine .single ⟨rfl, rfl⟩ rfl (.character letter) .character ?_ ?_
    · intro other tail _ segment _
      cases segment
      exact Nat.le_refl _
    · refine Grammar.Proceeds.yields (.characters rfl rfl rfl word (by simp) (Nat.zero_le _) ?_)
      rw [← value]
      exact .nil
  rw [List.append_nil] at yields
  exact Grammar.Yields.denotes 0 rfl (by simp) yields

end Word

end HyperCard.HyperTalk
