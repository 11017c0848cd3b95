import HyperCard.Proofs.Bytes.Lengthening
import HyperCard.Proofs.Bytes.Writing

/-!
# Writing over bytes

Bytes that are written over those of a file stand there afterwards, and every other byte is what it
was. Reads apart from them come to the same, and a window that is cut out of the file sees the
bytes written where they stand in it.
-/
namespace HyperCard.Window

/-- The window on the file with other bytes from an offset on. -/
def overwritten (window : Window) (offset : Nat) (bytes : List UInt8) : Window where
  file := window.file.mapIdx fun place byte =>
    if window.start + offset ≤ place then bytes.getD (place - (window.start + offset)) byte
    else byte
  start := window.start
  length := window.length
  inside := by
    rw [Array.size_mapIdx]
    exact window.inside

/-- Whether two windows have the same bytes apart from those in a range. -/
structure AlikeApart (first last : Nat) (left right : Window) : Prop where
  /-- They are equally long. -/
  length : right.length = left.length
  /-- Each byte outside the range is the same. -/
  byte : ∀ offset, offset < first ∨ last ≤ offset → right.byte offset = left.byte offset

section Writing

variable {window inner : Window} {offset : Nat} {bytes : List UInt8}

/-- Each byte is one of those written, or what it was. -/
theorem byte_overwritten (place : Nat) : (window.overwritten offset bytes).byte place =
    (fun byte => if offset ≤ place then bytes.getD (place - offset) byte else byte) <$>
      window.byte place := by
  unfold overwritten byte
  by_cases within : place < window.length
  · simp only [dif_pos within, Array.getElem_mapIdx, Nat.add_le_add_iff_left,
      Nat.add_sub_add_left]
    rfl
  · simp only [dif_neg within]
    rfl

/-- Bytes apart from those written are what they were. -/
theorem alikeApart_overwritten (window : Window) (offset : Nat) (bytes : List UInt8) :
    AlikeApart offset (offset + bytes.length) window (window.overwritten offset bytes) := by
  refine ⟨rfl, fun place apart => ?_⟩
  have same : (fun byte => if offset ≤ place then bytes.getD (place - offset) byte else byte) =
      id := by
    funext byte
    by_cases behind : offset ≤ place
    · rw [if_pos behind, List.getD_eq_getElem?_getD, List.getElem?_eq_none (by omega)]
      rfl
    · exact if_neg behind
  rw [byte_overwritten, same, id_map]

/-- The bytes written stand where they were written. -/
theorem holds_overwritten (fits : offset + bytes.length ≤ window.length) :
    (window.overwritten offset bytes).Holds offset bytes := by
  intro index inside
  have written (byte : UInt8) :
      (if offset ≤ offset + index then bytes.getD (offset + index - offset) byte else byte) =
        bytes[index] := by
    rw [if_pos (Nat.le_add_right _ _), Nat.add_sub_cancel_left, List.getD_eq_getElem?_getD,
      List.getElem?_eq_getElem inside, Option.getD_some]
  have before : window.byte (offset + index) = .ok _ :=
    dif_pos (Nat.lt_of_lt_of_le (Nat.add_lt_add_left inside offset) fits)
  rw [byte_overwritten, before]
  exact congrArg Except.ok (written _)

/-- A word that was written is read back. -/
theorem unsigned_overwritten (fits : offset + 4 ≤ window.length) (word : UInt32) :
    (window.overwritten offset (bigEndian 4 word.toNat)).unsigned 4 offset = .ok word.toNat := by
  apply Holds.unsigned (holds_overwritten _) (by decide) word.toNat_lt
  rw [length_bigEndian]
  exact fits

/-- A window that is cut out of the file sees them where they stand in it. -/
theorem sub_overwritten {length place : Nat} (cut : window.sub offset length = .ok inner) :
    (window.overwritten (offset + place) bytes).sub offset length =
      .ok (inner.overwritten place bytes) := by
  have fits := le_of_sub cut
  rw [sub, dif_pos fits] at cut
  obtain rfl := Except.ok.inj cut
  have again : (window.overwritten (offset + place) bytes).sub offset length = .ok _ :=
    dif_pos fits
  rw [again]
  simp only [overwritten, Nat.add_assoc]

end Writing

namespace AlikeApart

variable {first last : Nat} {left right : Window} {offset size : Nat}

/-- Slices that keep apart from the change are the same. -/
theorem slice (alike : AlikeApart first last left right)
    (apart : offset + size ≤ first ∨ last ≤ offset) :
    right.slice offset size = left.slice offset size := by
  apply List.ext_getElem?
  intro index
  rw [getElem?_slice, getElem?_slice]
  by_cases less : index < size
  · rw [if_pos less, if_pos less, alike.byte _ (by omega)]
  · rw [if_neg less, if_neg less]

/-- So are bytes that are read together, or the same read outside is reported. -/
theorem bytes (alike : AlikeApart first last left right)
    (apart : offset + size ≤ first ∨ last ≤ offset) :
    right.bytes offset size = left.bytes offset size := by
  rw [Window.bytes, Window.bytes, alike.length, alike.slice apart]

/-- So are numbers. -/
theorem unsigned (alike : AlikeApart first last left right)
    (apart : offset + size ≤ first ∨ last ≤ offset) :
    right.unsigned size offset = left.unsigned size offset := by
  rw [Window.unsigned, Window.unsigned, alike.bytes apart]

/-- So are numbers with sign. -/
theorem signed (alike : AlikeApart first last left right)
    (apart : offset + size ≤ first ∨ last ≤ offset) :
    right.signed size offset = left.signed size offset := by
  rw [Window.signed, Window.signed, alike.unsigned apart]

/-- So are single bits of two bytes. -/
theorem flag (alike : AlikeApart first last left right)
    (apart : offset + 2 ≤ first ∨ last ≤ offset) (bit : Nat) :
    right.flag offset bit = left.flag offset bit := by
  rw [Window.flag, Window.flag, alike.unsigned apart]

/-- So are edges. -/
theorem edge (alike : AlikeApart first last left right)
    (apart : offset + 2 ≤ first ∨ last ≤ offset) : right.edge offset = left.edge offset := by
  rw [Window.edge, Window.edge, alike.unsigned apart]

/-- So are rectangles whose eight bytes keep apart from the change. -/
theorem rectangle (alike : AlikeApart first last left right)
    (apart : offset + 8 ≤ first ∨ last ≤ offset) :
    right.rectangle offset = left.rectangle offset := by
  rw [Window.rectangle, Window.rectangle, alike.edge (by omega), alike.edge (by omega),
    alike.edge (by omega), alike.edge (by omega)]

/-- The first zero byte behind the change is the same. The induction is on the bytes that are left.
-/
theorem zeroFrom? (alike : AlikeApart first last left right) (behind : last ≤ offset) :
    right.zeroFrom? offset = left.zeroFrom? offset := by
  have same := alike.length
  induction missing : left.length - offset generalizing offset with
  | zero =>
    rw [Alike.zeroFrom?_eq right, Alike.zeroFrom?_eq left, Window.byte, dif_neg (by omega),
      Window.byte, dif_neg (by omega)]
  | succ count ih =>
    rw [Alike.zeroFrom?_eq right, Alike.zeroFrom?_eq left, alike.byte offset (.inr behind),
      ih (Nat.le_succ_of_le behind) (by omega)]

/-- So is a text behind the change. -/
theorem text (alike : AlikeApart first last left right) (behind : last ≤ offset) :
    right.text offset = left.text offset := by
  rw [Window.text, Window.text, alike.length, alike.zeroFrom? behind]
  cases left.zeroFrom? offset with
  | none => rfl
  | some place =>
    dsimp only
    rw [alike.slice (.inr behind)]

end AlikeApart

/-- A number that was read in four bytes is that of a word. -/
theorem toNat_of_unsigned {window : Window} {offset number : Nat}
    (found : window.unsigned 4 offset = .ok number) : (UInt32.ofNat number).toNat = number := by
  have inside := window.inside
  rw [Window.unsigned, Window.bytes, if_pos (le_of_unsigned found)] at found
  obtain rfl := Except.ok.inj found
  have few : (window.slice offset 4).length ≤ 4 := by
    rw [slice, Array.length_toList, Array.size_extract]
    omega
  exact UInt32.toNat_ofNat_of_lt' (Nat.lt_of_lt_of_le (naturalOf_lt _)
    (Nat.pow_le_pow_right (by decide) few))

end HyperCard.Window
