import HyperCard.Proofs.Block.Checksum

/-!
# Storing a checksum

The stack block, the list and each page have a field with their checksum, apart from everything
else that is read from them. With another word in that field they are read as before, but for the
checksum.
-/
namespace HyperCard

open Window (bigEndian)

variable {block : Window} {version : FormatVersion}

section Fields

variable {offset : Nat}

/-- The word of a field is read as it stands, and as the word that is written over it. -/
theorem Window.field_overwritten (block : Window) (offset : Nat) (word : UInt32) :
    BothOrNeither (fun stored written =>
        block.unsigned 4 offset = .ok (UInt32.ofNat stored).toNat ∧ UInt32.ofNat written = word)
      (block.unsigned 4 offset)
      ((block.overwritten offset (bigEndian 4 word.toNat)).unsigned 4 offset) := by
  by_cases fits : offset + 4 ≤ block.length
  · obtain ⟨stored, read⟩ := @exists_unsigned block offset 4 fits
    rw [unsigned_overwritten fits, read]
    refine .ok ⟨?_, UInt32.ofNat_toNat⟩
    rw [toNat_of_unsigned read]
  · have none : ∀ window : Window, window.length = block.length →
        window.unsigned 4 offset = .error (.outOfBounds offset 4 window.length) := by
      intro window same
      rw [unsigned, bytes, if_neg (by omega)]
      rfl
    have neither := none _ (block.alikeApart_overwritten offset (bigEndian 4 word.toNat)).length
    rw [neither, none block rfl]
    exact .error

/-- A field apart from what is written is read as it stands. -/
theorem Window.AlikeApart.signed_alike {first last : Nat} {other : Window}
    (alike : AlikeApart first last block other) (apart : offset + 4 ≤ first ∨ last ≤ offset) :
    BothOrNeither (fun stored read => block.signed 4 offset = .ok stored ∧ read = stored)
      (block.signed 4 offset) (other.signed 4 offset) := by
  rw [alike.signed apart]
  cases block.signed 4 offset with
  | ok value => exact .ok ⟨rfl, rfl⟩
  | error failure => exact .error

end Fields

/-- The list with another checksum is read as the same list. -/
theorem ListBlock.read_overwritten (block : Window) (version : FormatVersion) (word : UInt32) :
    BothOrNeither (fun list other => block.signed 4 0x08 = .ok list.identifier ∧
        block.unsigned 4 (version.shift 0x24) = .ok list.checksum.toNat ∧
        other = { list with checksum := word })
      (read block version)
      (read (block.overwritten (version.shift 0x24) (bigEndian 4 word.toNat)) version) := by
  have alike := block.alikeApart_overwritten (version.shift 0x24) (bigEndian 4 word.toNat)
  have field := block.field_overwritten (version.shift 0x24) word
  generalize block.overwritten (version.shift 0x24) (bigEndian 4 word.toNat) = other
    at alike field ⊢
  rw [Window.length_bigEndian] at alike
  have pages : readPage other = readPage block := by
    funext index
    have behind : version.shift 0x24 + 4 ≤ 0x30 := by cases version <;> decide
    simp (disch := omega) only [readPage, alike.unsigned, alike.signed]
  unfold read
  rw [pages]
  cases version
  all_goals
    dsimp only [FormatVersion.shift] at alike field ⊢
    simp (disch := omega) only [alike.unsigned]
    refine .bind_eq (.of_eq rfl) fun pageCount => .bind_eq (.of_eq rfl) fun pages => ?_
    refine (alike.signed_alike (.inl (by decide))).lift.bind fun identifier _ held => ?_
    obtain ⟨headed, rfl⟩ := held
    refine .bind_eq (.of_eq rfl) fun pageSize => .bind_eq (.of_eq rfl) fun cardCount =>
      .bind_eq (.of_eq rfl) fun stride => .bind_eq (.of_eq rfl) fun hashCount =>
      .bind_eq (.of_eq rfl) fun hashValueCount => ?_
    refine field.lift.bind fun stored _ held => ?_
    obtain ⟨stands, rfl⟩ := held
    exact .bind_eq (.of_eq rfl) fun total => .ok ⟨headed, stands, rfl⟩

/-- So is a page. -/
theorem PageBlock.read_overwritten (block : Window) (version : FormatVersion)
    (cardCount stride : Nat) (word : UInt32) :
    BothOrNeither (fun page other => block.signed 4 0x08 = .ok page.identifier ∧
        block.unsigned 4 (version.shift 0x14) = .ok page.checksum.toNat ∧
        other = { page with checksum := word })
      (read block version cardCount stride)
      (read (block.overwritten (version.shift 0x14) (bigEndian 4 word.toNat)) version cardCount
        stride) := by
  have alike := block.alikeApart_overwritten (version.shift 0x14) (bigEndian 4 word.toNat)
  have field := block.field_overwritten (version.shift 0x14) word
  generalize block.overwritten (version.shift 0x14) (bigEndian 4 word.toNat) = other
    at alike field ⊢
  rw [Window.length_bigEndian] at alike
  have cards : readCard other stride = readCard block stride := by
    funext index
    have behind : version.shift 0x14 + 4 ≤ 0x18 := by cases version <;> decide
    simp (disch := omega) only [readCard, alike.signed, alike.flag]
  unfold read
  rw [cards]
  by_cases small : stride < 6 ∧ 0 < cardCount
  · rw [if_pos small, if_pos small]
    exact .error
  · rw [if_neg small, if_neg small]
    cases version
    all_goals
      dsimp only [FormatVersion.shift] at alike field ⊢
      refine .bind_eq (.of_eq rfl) fun cards => ?_
      refine (alike.signed_alike (.inl (by decide))).lift.bind fun identifier _ held => ?_
      obtain ⟨headed, rfl⟩ := held
      refine .bind_eq (.of_eq (congrArg liftM (alike.signed (.inl (by decide))))) fun listId => ?_
      refine field.lift.bind fun stored _ held => ?_
      obtain ⟨stands, rfl⟩ := held
      exact .ok ⟨headed, stands, rfl⟩

/-- With another checksum a stack block of the second generation is read as the same one; in the
first generation the word that is changed counts for nothing. -/
theorem StackBlock.read_overwritten (block : Window) (word : UInt32) :
    BothOrNeither (fun stack other =>
        (stack.version.isTwo = true → block.unsigned 4 0x70 = .ok stack.checksum.toNat) ∧
        other = { stack with checksum := if stack.version.isTwo then word else stack.checksum })
      (read block) (read (block.overwritten 0x70 (bigEndian 4 word.toNat))) := by
  have alike := block.alikeApart_overwritten 0x70 (bigEndian 4 word.toNat)
  have field := block.field_overwritten 0x70 word
  generalize block.overwritten 0x70 (bigEndian 4 word.toNat) = other at alike field ⊢
  rw [Window.length_bigEndian] at alike
  have patterns : readPatterns other = readPatterns block := by
    unfold readPatterns patternOffset
    rw [alike.length]
    simp (disch := omega) only [alike.bytes]
  have locations : readFreeLocations other = readFreeLocations block := by
    funext count
    simp (disch := omega) only [readFreeLocations, alike.unsigned, freeTableOffset]
  have script : readScript other = readScript block := by
    rw [readScript, readScript, alike.length, alike.text (by decide)]
  unfold read
  simp (disch := omega) only [patterns, locations, script, alike.unsigned, alike.signed, alike.flag,
    alike.rectangle]
  refine .bind_eq (.of_eq rfl) fun format => .bind_eq (.of_eq rfl) fun version =>
    .bind_eq (.of_eq rfl) fun level => ?_
  cases UserLevel.ofNumber? level with
  | none => exact .error
  | some userLevel =>
    -- What is read before the checksum, and what is read behind it, is the same.
    iterate 22 refine .bind_eq (.of_eq rfl) fun _ => ?_
    cases version with
    | one =>
      refine .bind_eq (.of_eq (congrArg liftM (alike.unsigned (.inl (by decide))))) fun _ => ?_
      iterate 8 refine .bind_eq (.of_eq rfl) fun _ => ?_
      exact .ok ⟨fun two => absurd two Bool.false_ne_true, rfl⟩
    | two =>
      refine field.lift.bind fun stored _ held => ?_
      obtain ⟨stands, rfl⟩ := held
      iterate 8 refine .bind_eq (.of_eq rfl) fun _ => ?_
      exact .ok ⟨fun _ => stands, rfl⟩

end HyperCard
