import HyperCard.Archive.Version
import HyperCard.Proofs.Bytes.Contents

/-!
# Windows with four more bytes

Blocks of both generations begin with a header of twelve bytes, and those of the second one may have
four more bytes behind it. A read behind the header of a window and the read four bytes further in
the window with four more bytes come to the same: both fail, although not with the same words, or
both succeed with the same value. The composition of reads keeps this.
-/
namespace HyperCard

/-- Two computations both fail, or both succeed with results that are related. -/
inductive BothOrNeither {ε δ α β : Type} (related : α → β → Prop) : Except ε α → Except δ β → Prop
  /-- Both succeed. -/
  | ok {left : α} {right : β} (held : related left right) :
    BothOrNeither related (.ok left) (.ok right)
  /-- Both fail. -/
  | error {failure : ε} {other : δ} : BothOrNeither related (.error failure) (.error other)

namespace BothOrNeither

variable {ε δ α β γ κ : Type} {related : α → β → Prop} {first : Except ε α} {second : Except δ β}

/-- Computations with the same result agree. -/
theorem of_eq {second : Except ε α} (same : second = first) : BothOrNeither Eq first second := by
  rw [same]
  cases first with
  | ok value => exact .ok rfl
  | error failure => exact .error

/-- So do computations with the same value, whatever they fail with. -/
theorem of_toOption {second : Except δ α} (same : second.toOption = first.toOption) :
    BothOrNeither Eq first second := by
  cases first with
  | ok value =>
    cases second with
    | ok other => exact .ok (Option.some.inj same).symm
    | error failure => cases same
  | error failure =>
    cases second with
    | ok other => cases same
    | error failure => exact .error

/-- Results are related by what is known of the first computation, too. -/
theorem and_left (ended : BothOrNeither related first second) :
    BothOrNeither (fun left right => related left right ∧ first = .ok left) first second := by
  cases ended with
  | ok held => exact .ok ⟨held, rfl⟩
  | error => exact .error

/-- Where the first one succeeds, so does the second. -/
theorem exists_right {value : α} (ended : BothOrNeither related first second)
    (succeeded : first = .ok value) : ∃ other, second = .ok other ∧ related value other := by
  subst succeeded
  cases ended with
  | ok held => exact ⟨_, rfl, held⟩

/-- Related results are still related after what is done with each of them. -/
theorem map {next : γ → κ → Prop} {left : α → γ} {right : β → κ}
    (ended : BothOrNeither related first second)
    (mapped : ∀ a b, related a b → next (left a) (right b)) :
    BothOrNeither next (left <$> first) (right <$> second) := by
  cases ended with
  | ok held => exact .ok (mapped _ _ held)
  | error => exact .error

/-- Computations that go on alike from related results still agree. -/
theorem bind {next : γ → κ → Prop} {left : α → Except ε γ} {right : β → Except δ κ}
    (ended : BothOrNeither related first second)
    (continued : ∀ a b, related a b → BothOrNeither next (left a) (right b)) :
    BothOrNeither next (first >>= left) (second >>= right) := by
  cases ended with
  | ok held => exact continued _ _ held
  | error => exact .error

/-- Computations go on in the same way from the same value. -/
theorem bind_eq {next : γ → κ → Prop} {first : Except ε α} {second : Except δ α}
    {left : α → Except ε γ} {right : α → Except δ κ} (ended : BothOrNeither Eq first second)
    (continued : ∀ value, BothOrNeither next (left value) (right value)) :
    BothOrNeither next (first >>= left) (second >>= right) :=
  ended.bind fun value _ same => same ▸ continued value

/-- Errors of reads are errors of the archive. -/
theorem lift {first : Except ReadError α} {second : Except ReadError β}
    (ended : BothOrNeither related first second) :
    BothOrNeither related (liftM first : Except ArchiveError α)
      (liftM second : Except ArchiveError β) := by
  cases ended with
  | ok held => exact .ok held
  | error => exact .error

/-- Records that are read one after the other are read in both places. -/
theorem collect {left right : Nat → Except ReadError α}
    (each : ∀ index, BothOrNeither Eq (left index) (right index)) (index count : Nat) :
    BothOrNeither Eq (Window.collect left index count) (Window.collect right index count) := by
  induction count generalizing index with
  | zero => exact .ok rfl
  | succ count ih =>
    refine (each index).bind_eq fun value => ?_
    refine (ih (index + 1)).bind_eq fun values => ?_
    exact .ok rfl

end BothOrNeither

namespace Window

/-- The bytes of a window are those that are read one by one. -/
theorem getElem?_toList (window : Window) (offset : Nat) :
    window.toList[offset]? = (window.byte offset).toOption := by
  rw [toList, getElem?_slice, Nat.zero_add]
  by_cases within : offset < window.length
  · rw [if_pos within]
  · rw [if_neg within, byte, dif_neg within]
    rfl

/-- Bytes that stand in two windows are read alike. -/
theorem byte_congr {left right : Window} {offset place : Nat} (within : offset < left.length)
    (also : place < right.length) (same : right.toList[place]? = left.toList[offset]?) :
    right.byte place = left.byte offset := by
  rw [getElem?_toList, getElem?_toList, byte, byte, dif_pos within, dif_pos also] at same
  rw [byte, byte, dif_pos within, dif_pos also]
  exact congrArg Except.ok (Option.some.inj same)

/-- They are as many as the window is long. -/
theorem length_toList (window : Window) : window.toList.length = window.length := by
  have inside := window.inside
  rw [toList, slice, Array.length_toList, Array.size_extract]
  omega

/-- The bytes of a window that was cut out are those of a slice of the outer one. -/
theorem toList_of_sub {window inner : Window} {offset length : Nat}
    (cut : window.sub offset length = .ok inner) : inner.toList = window.slice offset length := by
  apply List.ext_getElem?
  intro index
  rw [getElem?_toList, byte_sub cut, getElem?_slice]
  by_cases less : index < length
  · rw [if_pos less, if_pos less]
  · rw [if_neg less, if_neg less]
    rfl

/-- Whether one window is the other with four more bytes behind a header of twelve bytes. -/
structure IsLengthened (short long : Window) : Prop where
  /-- There is a header. -/
  headed : 12 ≤ short.length
  /-- There are four more bytes behind it. -/
  inserted : ∃ added : List UInt8, added.length = 4 ∧
    long.toList = short.toList.take 12 ++ added ++ short.toList.drop 12

/-- Whether one window stands in a block where the other one stands in the block with four more
bytes. -/
structure StandsLater (short long left right : Window) : Prop where
  /-- They have the same bytes. -/
  bytes : right.toList = left.toList
  /-- One stands four bytes further on in its block than the other. -/
  place : ∃ offset, left.start = short.start + offset ∧ right.start = long.start + (offset + 4)

/-- An offset behind the header, and the offset four bytes later. -/
structure FourLater (offset later : Nat) : Prop where
  /-- The header is left behind. -/
  behind : 12 ≤ offset
  /-- There are four bytes between the offsets. -/
  eq : later = offset + 4

namespace FourLater

variable {offset later : Nat}

/-- The field at an offset of the second generation stands four bytes earlier in the first one. -/
theorem of_shift (behind : 16 ≤ offset) :
    FourLater (FormatVersion.one.shift offset) (FormatVersion.two.shift offset) :=
  ⟨Nat.le_sub_of_add_le behind, (Nat.sub_add_cancel (Nat.le_of_add_left_le behind)).symm⟩

/-- The distance of four bytes is kept by going on. -/
theorem add (four : FourLater offset later) (distance : Nat) :
    FourLater (offset + distance) (later + distance) :=
  ⟨Nat.le_add_right_of_le four.behind, by rw [four.eq, Nat.add_right_comm]⟩

/-- It is kept by going back, too, as far as the header. -/
theorem sub (four : FourLater offset later) {distance : Nat} (behind : 12 + distance ≤ offset) :
    FourLater (offset - distance) (later - distance) :=
  ⟨Nat.le_sub_of_add_le behind,
    by rw [four.eq, Nat.sub_add_comm (Nat.le_of_add_left_le behind)]⟩

end FourLater

namespace IsLengthened

variable {short long : Window} {offset later : Nat}

/-- The longer window has four more bytes. -/
theorem length (lengthened : IsLengthened short long) : long.length = short.length + 4 := by
  obtain ⟨added, four, bytes⟩ := lengthened.inserted
  have headed := lengthened.headed
  have lengths := congrArg List.length bytes
  rw [List.length_append, List.length_append, List.length_take, List.length_drop, length_toList,
    length_toList, four] at lengths
  omega

/-- The header is the same. -/
theorem byte_header (lengthened : IsLengthened short long) (header : offset < 12) :
    long.byte offset = short.byte offset := by
  obtain ⟨added, four, bytes⟩ := lengthened.inserted
  have headed := lengthened.headed
  have longer := lengthened.length
  refine byte_congr (by omega) (by omega) ?_
  rw [bytes, List.append_assoc, List.getElem?_append_left, List.getElem?_take_of_lt header]
  rw [List.length_take, length_toList]
  omega

/-- What stands behind the header stands four bytes further on. -/
theorem getElem?_toList (lengthened : IsLengthened short long) (behind : 12 ≤ offset) :
    long.toList[offset + 4]? = short.toList[offset]? := by
  obtain ⟨added, four, bytes⟩ := lengthened.inserted
  have headed := lengthened.headed
  have before : (short.toList.take 12 ++ added).length = 16 := by
    rw [List.length_append, List.length_take, length_toList, four]
    omega
  rw [bytes, List.getElem?_append_right (by omega), before, List.getElem?_drop]
  congr 1
  omega

/-- So it is read there. -/
theorem byte (lengthened : IsLengthened short long) (behind : 12 ≤ offset) :
    (long.byte (offset + 4)).toOption = (short.byte offset).toOption := by
  rw [← Window.getElem?_toList, ← Window.getElem?_toList, lengthened.getElem?_toList behind]

/-- A byte behind the header stands four bytes further on. -/
theorem byte_eq (lengthened : IsLengthened short long) (behind : 12 ≤ offset)
    (within : offset < short.length) : long.byte (offset + 4) = short.byte offset := by
  have longer := lengthened.length
  exact byte_congr within (by omega) (lengthened.getElem?_toList behind)

/-- So does every slice of such bytes. -/
theorem slice (lengthened : IsLengthened short long) (behind : 12 ≤ offset) (length : Nat) :
    long.slice (offset + 4) length = short.slice offset length := by
  apply List.ext_getElem?
  intro index
  rw [getElem?_slice, getElem?_slice, Nat.add_right_comm, lengthened.byte (by omega)]

/-- So do bytes that are read together, and both windows end before them or neither does. -/
theorem bytes (lengthened : IsLengthened short long) (four : FourLater offset later)
    (length : Nat) : BothOrNeither Eq (short.bytes offset length) (long.bytes later length) := by
  have longer := lengthened.length
  obtain ⟨behind, rfl⟩ := four
  rw [Window.bytes, Window.bytes, lengthened.slice behind]
  by_cases fits : offset + length ≤ short.length
  · rw [if_pos fits, if_pos (by omega)]
    exact .ok rfl
  · rw [if_neg fits, if_neg (by omega)]
    exact .error

/-- Numbers behind the header are read alike. -/
theorem unsigned (lengthened : IsLengthened short long) (four : FourLater offset later)
    (size : Nat) : BothOrNeither Eq (short.unsigned size offset) (long.unsigned size later) :=
  (lengthened.bytes four size).map fun _ _ same => congrArg naturalOf same

/-- So are numbers with sign. -/
theorem signed (lengthened : IsLengthened short long) (four : FourLater offset later)
    (size : Nat) : BothOrNeither Eq (short.signed size offset) (long.signed size later) :=
  (lengthened.unsigned four size).map fun _ _ same => congrArg (twosComplement size) same

/-- So are single bits of two bytes. -/
theorem flag (lengthened : IsLengthened short long) (four : FourLater offset later) (bit : Nat) :
    BothOrNeither Eq (short.flag offset bit) (long.flag later bit) :=
  (lengthened.unsigned four 2).map fun _ _ same => congrArg (Nat.testBit · bit) same

/-- So are edges, which leave out the highest bit. -/
theorem edge (lengthened : IsLengthened short long) (four : FourLater offset later) :
    BothOrNeither Eq (short.edge offset) (long.edge later) :=
  (lengthened.unsigned four 2).map fun _ _ same =>
    congrArg (fun value => ((value % 0x8000 : Nat) : Int)) same

/-- So are rectangles, edge by edge. -/
theorem rectangle (lengthened : IsLengthened short long) (four : FourLater offset later) :
    BothOrNeither Eq (short.rectangle offset) (long.rectangle later) := by
  refine (lengthened.edge four).bind_eq fun top => ?_
  refine (lengthened.edge (four.add 2)).bind_eq fun left => ?_
  refine (lengthened.edge (four.add 4)).bind_eq fun bottom => ?_
  refine (lengthened.edge (four.add 6)).bind_eq fun right => ?_
  exact .ok rfl

/-- The identifier is in the header. -/
theorem identifier (lengthened : IsLengthened short long) :
    BothOrNeither Eq (short.signed 4 0x08) (long.signed 4 0x08) := by
  have headed := lengthened.headed
  have longer := lengthened.length
  apply BothOrNeither.of_eq
  rw [Window.signed, Window.signed, unsigned_congr (by omega) (by omega) fun index less =>
    lengthened.byte_header (by omega)]

/-- The first zero byte stands four bytes further on. -/
theorem zeroFrom? (lengthened : IsLengthened short long) (behind : 12 ≤ offset) :
    long.zeroFrom? (offset + 4) = (short.zeroFrom? offset).map (· + 4) := by
  have longer := lengthened.length
  -- Both go on from byte to byte. The induction is on the bytes left in the shorter window.
  induction missing : short.length - offset generalizing offset with
  | zero =>
    rw [Alike.zeroFrom?_eq long, Alike.zeroFrom?_eq short, Window.byte, dif_neg (by omega),
      Window.byte, dif_neg (by omega)]
    rfl
  | succ count ih =>
    have same : BothOrNeither Eq (short.byte offset) (long.byte (offset + 4)) :=
      .of_toOption (lengthened.byte behind)
    rw [Alike.zeroFrom?_eq long, Alike.zeroFrom?_eq short, Nat.add_right_comm,
      ih (by omega) (by omega)]
    generalize short.byte offset = left, long.byte (offset + 4) = right at same ⊢
    cases same with
    | error => rfl
    | @ok value _ same =>
      subst same
      dsimp only
      by_cases zero : value = 0
      · rw [if_pos zero, if_pos zero]
        rfl
      · rw [if_neg zero, if_neg zero]

/-- Texts behind the header are the same, or have no end in both windows. -/
theorem text (lengthened : IsLengthened short long) (four : FourLater offset later) :
    BothOrNeither Eq (short.text offset) (long.text later) := by
  have longer := lengthened.length
  obtain ⟨behind, rfl⟩ := four
  rw [Window.text, Window.text, lengthened.zeroFrom? behind]
  by_cases within : offset ≤ short.length
  · rw [if_pos within, if_pos (by omega)]
    cases short.zeroFrom? offset with
    | none => exact .error
    | some last =>
      dsimp only [Option.map_some]
      rw [Nat.add_sub_add_right, lengthened.slice behind]
      exact .ok rfl
  · rw [if_neg within, if_neg (by omega)]
    exact .error

/-- A window behind the header can be cut out of both blocks or of neither, four bytes further on in
the longer one. -/
theorem sub (lengthened : IsLengthened short long) (four : FourLater offset later)
    (length : Nat) :
    BothOrNeither (StandsLater short long) (short.sub offset length) (long.sub later length) := by
  have longer := lengthened.length
  obtain ⟨behind, rfl⟩ := four
  by_cases fits : offset + length ≤ short.length
  · have left : short.sub offset length = .ok _ := dif_pos fits
    have right : long.sub (offset + 4) length = .ok _ := dif_pos (by omega)
    rw [left, right]
    refine .ok ⟨?_, offset, rfl, rfl⟩
    rw [toList_of_sub left, toList_of_sub right, lengthened.slice behind]
  · rw [Window.sub, Window.sub, dif_neg fits, dif_neg (by omega)]
    exact .error

end IsLengthened
end Window
end HyperCard
