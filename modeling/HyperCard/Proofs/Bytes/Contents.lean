import HyperCard.Block.Stack
import HyperCard.Proofs.Bytes.Window

/-!
# Windows with the same bytes

A read sees nothing of a window but its bytes: windows of one length that give the same byte at
every offset are read alike, wherever they stand in which file. A window that is cut out of another
one gives the bytes that stand there.
-/
namespace HyperCard

/-- A read that succeeds does so in the larger type of errors. -/
theorem liftM_ok {α : Type} (value : α) :
    (liftM (.ok value : Except ReadError α) : Except ArchiveError α) = .ok value := rfl

namespace Window

section Parts

variable {window inner : Window} {offset length : Nat} {bytes rest : List UInt8}

/-- The bytes of a slice are read one by one. -/
theorem getElem?_slice (window : Window) (offset length index : Nat) :
    (window.slice offset length)[index]? =
      if index < length then (window.byte (offset + index)).toOption else none := by
  have inside := window.inside
  have most : min (window.start + min (offset + length) window.length) window.file.size -
      (window.start + offset) = min (offset + length) window.length - offset := by omega
  rw [slice, Array.getElem?_toList, Array.getElem?_extract, most]
  by_cases less : index < length
  · rw [if_pos less]
    by_cases within : offset + index < window.length
    · rw [if_pos (by omega), byte, dif_pos within, Array.getElem?_eq_getElem (by omega)]
      simp only [Except.toOption, Nat.add_assoc]
    · rw [if_neg (by omega), byte, dif_neg within]
      rfl
  · rw [if_neg less, if_neg (by omega)]

/-- Bytes that a window holds are those of its slice. -/
theorem Holds.slice_eq (holds : window.Holds offset bytes) :
    window.slice offset bytes.length = bytes := by
  apply List.ext_getElem?
  intro index
  rw [getElem?_slice]
  by_cases less : index < bytes.length
  · rw [if_pos less, holds index less, List.getElem?_eq_getElem less]
    rfl
  · rw [if_neg less, List.getElem?_eq_none (Nat.not_lt.mp less)]

/-- A file holds each part of its bytes where the part stands. -/
theorem holds_ofArray (before : List UInt8) :
    (ofArray (before ++ bytes ++ rest).toArray).Holds before.length bytes := by
  intro index inside
  have within : before.length + index < (before ++ bytes ++ rest).length := by
    rw [List.length_append, List.length_append]
    omega
  have early : before.length + index < (before ++ bytes).length := by
    rw [List.length_append]
    omega
  rw [byte, dif_pos (by simpa [ofArray] using within)]
  simp only [ofArray, Nat.zero_add, List.getElem_toArray]
  rw [List.getElem_append_left early, List.getElem_append_right (Nat.le_add_right _ _)]
  simp only [Nat.add_sub_cancel_left]

/-- Reading a window that was cut out. -/
theorem byte_sub (cut : window.sub offset length = .ok inner) (index : Nat) :
    inner.byte index =
      if index < length then window.byte (offset + index)
      else .error (.outOfBounds index 1 length) := by
  have outer := window.inside
  by_cases fits : offset + length ≤ window.length
  · rw [sub, dif_pos fits] at cut
    obtain rfl := Except.ok.inj cut
    by_cases less : index < length
    · rw [if_pos less, byte, dif_pos less, byte, dif_pos (by omega)]
      simp only [Nat.add_assoc]
    · rw [if_neg less, byte, dif_neg less]
  · rw [sub, dif_neg fits] at cut
    cases cut

/-- A window that was cut out is as long as was asked for. -/
theorem length_of_sub (cut : window.sub offset length = .ok inner) : inner.length = length := by
  by_cases fits : offset + length ≤ window.length
  · rw [sub, dif_pos fits] at cut
    obtain rfl := Except.ok.inj cut
    rfl
  · rw [sub, dif_neg fits] at cut
    cases cut

/-- It was cut out of bytes that the outer window has. -/
theorem le_of_sub (cut : window.sub offset length = .ok inner) :
    offset + length ≤ window.length := by
  by_cases fits : offset + length ≤ window.length
  · exact fits
  · rw [sub, dif_neg fits] at cut
    cases cut

/-- What stands in the part of a window that was cut out. -/
theorem Holds.sub {place : Nat} (cut : window.sub offset length = .ok inner)
    (holds : window.Holds (offset + place) bytes) (fits : place + bytes.length ≤ length) :
    inner.Holds place bytes := by
  intro index inside
  rw [byte_sub cut, if_pos (by omega), ← Nat.add_assoc, holds index inside]

/-- Bytes that a window holds lie inside. -/
theorem Holds.le_length (holds : window.Holds offset bytes) (nonempty : bytes ≠ []) :
    offset + bytes.length ≤ window.length := by
  have positive : 0 < bytes.length := List.length_pos_iff.mpr nonempty
  have last := (byte_eq_ok (holds (bytes.length - 1) (by omega))).1
  omega

/-- Bytes can be cut out where a window holds them. -/
theorem Holds.exists_sub (holds : window.Holds offset bytes) (nonempty : bytes ≠ []) :
    ∃ inner, window.sub offset bytes.length = .ok inner ∧ inner.toList = bytes := by
  have cut : ∃ inner, window.sub offset bytes.length = .ok inner :=
    ⟨_, dif_pos (holds.le_length nonempty)⟩
  obtain ⟨inner, cut⟩ := cut
  refine ⟨inner, cut, ?_⟩
  rw [toList, length_of_sub cut]
  exact (@Holds.sub _ _ offset bytes.length bytes 0 cut holds (by omega)).slice_eq

/-- What stands in a part of bytes that a window holds. -/
theorem Holds.part (holds : window.Holds offset bytes) (place count : Nat) :
    window.Holds (offset + place) ((bytes.drop place).take count) := by
  intro index inside
  rw [List.length_take, List.length_drop] at inside
  rw [List.getElem_take, List.getElem_drop, Nat.add_assoc]
  exact holds (place + index) (by omega)

/-- What stands in bytes that a window begins with. -/
theorem Holds.piece {piece : List UInt8} (holds : window.Holds 0 bytes) (place : Nat)
    (same : (bytes.drop place).take piece.length = piece) : window.Holds place piece := by
  have part := holds.part place piece.length
  rw [same, Nat.zero_add] at part
  exact part

/-- Numbers inside a window can be read. -/
theorem exists_unsigned {size : Nat} (fits : offset + size ≤ window.length) :
    ∃ number, window.unsigned size offset = .ok number :=
  ⟨_, by rw [unsigned, Window.bytes, if_pos fits]; rfl⟩

/-- So can numbers with sign. -/
theorem exists_signed {size : Nat} (fits : offset + size ≤ window.length) :
    ∃ number, window.signed size offset = .ok number := by
  obtain ⟨number, read⟩ := exists_unsigned fits
  exact ⟨_, by rw [signed, read]; rfl⟩

/-- Bytes that are read as a number lie in the window. -/
theorem le_of_unsigned {size number : Nat} (found : window.unsigned size offset = .ok number) :
    offset + size ≤ window.length := by
  by_cases fits : offset + size ≤ window.length
  · exact fits
  · rw [unsigned, Window.bytes, if_neg fits] at found
    cases found

/-- Bytes that are read as a number with sign lie in the window, too. -/
theorem le_of_signed {size : Nat} {number : Int} (found : window.signed size offset = .ok number) :
    offset + size ≤ window.length := by
  cases read : window.unsigned size offset with
  | ok value => exact le_of_unsigned read
  | error violation =>
    rw [signed, read] at found
    cases found

/-- The same bytes are read as the same number in two windows. -/
theorem unsigned_congr {left right : Window} {size place : Nat}
    (fits : offset + size ≤ left.length) (also : place + size ≤ right.length)
    (same : ∀ index < size, right.byte (place + index) = left.byte (offset + index)) :
    right.unsigned size place = left.unsigned size offset := by
  have slices : right.slice place size = left.slice offset size := by
    apply List.ext_getElem?
    intro index
    rw [getElem?_slice, getElem?_slice]
    by_cases less : index < size
    · rw [if_pos less, if_pos less, same index less]
    · rw [if_neg less, if_neg less]
  rw [unsigned, unsigned, Window.bytes, Window.bytes, if_pos fits, if_pos also, slices]

/-- Bytes that are held are read as a number. -/
theorem Holds.unsigned_eq (holds : window.Holds offset bytes) (nonempty : bytes ≠ []) :
    window.unsigned bytes.length offset = .ok (naturalOf bytes) := by
  rw [unsigned, holds.bytes_eq nonempty]
  rfl

end Parts

/-- Whether two windows have the same bytes. -/
structure Alike (left right : Window) : Prop where
  /-- They are equally long. -/
  length : left.length = right.length
  /-- Each byte is the same. -/
  byte : ∀ offset, left.byte offset = right.byte offset

namespace Alike

variable {left right : Window}

/-- Slices have the same bytes. -/
theorem slice (alike : Alike left right) : left.slice = right.slice := by
  funext offset length
  apply List.ext_getElem?
  intro index
  rw [getElem?_slice, getElem?_slice, alike.byte]

/-- Bytes are read alike, or the same read outside is reported. -/
theorem bytes (alike : Alike left right) : left.bytes = right.bytes := by
  funext offset length
  rw [Window.bytes, Window.bytes, alike.length, alike.slice]

/-- So are numbers. -/
theorem unsigned (alike : Alike left right) : left.unsigned = right.unsigned := by
  funext size offset
  rw [Window.unsigned, Window.unsigned, alike.bytes]

/-- So are numbers with sign. -/
theorem signed (alike : Alike left right) : left.signed = right.signed := by
  funext size offset
  rw [Window.signed, Window.signed, alike.unsigned]

/-- So are single bits. -/
theorem flag (alike : Alike left right) : left.flag = right.flag := by
  funext offset bit
  rw [Window.flag, Window.flag, alike.unsigned]

/-- So are rectangles, edge by edge. -/
theorem rectangle (alike : Alike left right) : left.rectangle = right.rectangle := by
  have edge : left.edge = right.edge := by
    funext offset
    rw [Window.edge, Window.edge, alike.unsigned]
  funext offset
  rw [Window.rectangle, Window.rectangle, edge]

/-- The first zero byte is looked for byte by byte. -/
theorem zeroFrom?_eq (window : Window) (offset : Nat) :
    window.zeroFrom? offset =
      match window.byte offset with
      | .ok value => if value = 0 then some offset else window.zeroFrom? (offset + 1)
      | .error _ => none := by
  rw [zeroFrom?, Window.byte]
  by_cases within : offset < window.length
  · rw [dif_pos within, dif_pos within]
  · rw [dif_neg within, dif_neg within]

/-- The first zero byte from an offset on stands at the same place. -/
theorem zeroFrom? (alike : Alike left right) (offset : Nat) :
    left.zeroFrom? offset = right.zeroFrom? offset := by
  induction missing : left.length - offset generalizing offset with
  | zero =>
    rw [zeroFrom?_eq left, zeroFrom?_eq right, ← alike.byte, Window.byte, dif_neg (by omega)]
  | succ count ih =>
    rw [zeroFrom?_eq left, zeroFrom?_eq right, alike.byte, ih (offset + 1) (by omega)]

/-- So texts are the same, and end where no zero byte follows in both windows. -/
theorem text (alike : Alike left right) : left.text = right.text := by
  funext offset
  rw [Window.text, Window.text, alike.length, alike.zeroFrom?, alike.slice]

/-- Stack blocks with the same bytes are the same. -/
theorem read_stack (alike : Alike left right) : StackBlock.read left = StackBlock.read right := by
  simp only [StackBlock.read, StackBlock.readPatterns, StackBlock.readFreeLocations,
    StackBlock.readScript, alike.length, alike.bytes, alike.unsigned, alike.signed, alike.flag,
    alike.rectangle, alike.text]

end Alike

/-- What is cut out of a window that holds bytes is like a file of those bytes. -/
theorem Holds.alike {window inner : Window} {offset : Nat} {bytes : List UInt8}
    (holds : window.Holds offset bytes)
    (cut : window.sub offset bytes.length = .ok inner) : Alike inner (ofArray bytes.toArray) := by
  refine ⟨length_of_sub cut, fun index => ?_⟩
  have whole := @holds_ofArray bytes [] []
  rw [List.nil_append, List.append_nil, List.length_nil] at whole
  rw [byte_sub cut]
  by_cases less : index < bytes.length
  · have here := whole index less
    rw [Nat.zero_add] at here
    rw [if_pos less, holds index less, here]
  · rw [if_neg less, Window.byte, dif_neg (by simpa [ofArray] using less)]
    simp [ofArray]

/-- Reads that succeed one after the other are collected. -/
theorem collect_eq {α : Type} {read : Nat → Except ReadError α} {values : List α} {index : Nat}
    (each : ∀ place (inside : place < values.length), read (index + place) = .ok values[place]) :
    collect read index values.length = .ok values := by
  induction values generalizing index with
  | nil => rfl
  | cons value values ih =>
    have first : read index = .ok value := each 0 (by simp)
    have later := @ih (index + 1) fun place inside => by
      have here := each (place + 1) (by simpa using inside)
      rw [Nat.add_assoc, Nat.add_comm 1]
      exact here
    rw [List.length_cons, collect, first]
    simp only [bind, Except.bind, later]
    rfl

/-- What was collected was read, one after the other. -/
theorem each_of_collect {α : Type} {read : Nat → Except ReadError α} {values : List α}
    {index count : Nat} (collected : collect read index count = .ok values) :
    values.length = count ∧
      ∀ place (inside : place < values.length), read (index + place) = .ok values[place] := by
  induction count generalizing index values with
  | zero =>
    cases collected
    exact ⟨rfl, fun _ inside => nomatch inside⟩
  | succ count ih =>
    rw [collect] at collected
    obtain ⟨value, first, collected⟩ := exists_of_bind collected
    obtain ⟨others, later, collected⟩ := exists_of_bind collected
    cases collected
    obtain ⟨length, each⟩ := ih later
    refine ⟨congrArg (· + 1) length, fun place inside => ?_⟩
    cases place with
    | zero => exact first
    | succ place =>
      have here := each place (Nat.lt_of_succ_lt_succ inside)
      rw [Nat.add_assoc, Nat.add_comm 1] at here
      exact here

/-- Where only one of the reads gives another value, so does the collection. -/
theorem collect_set {α : Type} {read other : Nat → Except ReadError α} {values : List α}
    {value : α} {index count : Nat} (collected : collect read 0 count = .ok values)
    (changed : other index = .ok value)
    (same : ∀ place < count, place ≠ index → other place = read place) :
    collect other 0 count = .ok (values.set index value) := by
  obtain ⟨rfl, each⟩ := each_of_collect collected
  have again := @collect_eq _ other (values.set index value) 0 fun place inside => by
    rw [List.length_set] at inside
    have before := each place inside
    rw [Nat.zero_add] at before ⊢
    rw [List.getElem_set]
    by_cases here : index = place
    · rw [if_pos here, ← here, changed]
    · rw [if_neg here, same place inside (Ne.symm here), before]
  rw [List.length_set] at again
  exact again

/-- Records at a distance are collected. -/
theorem collect_map {α β : Type} {read : Nat → Except ReadError α} {value : β → α}
    {records : List β}
    (each : ∀ index (inside : index < records.length), read index = .ok (value records[index])) :
    collect read 0 records.length = .ok (records.map value) := by
  have collected := @collect_eq _ read (records.map value) 0 fun index inside => by
    rw [List.length_map] at inside
    rw [Nat.zero_add, List.getElem_map]
    exact each index inside
  rw [List.length_map] at collected
  exact collected

end Window
end HyperCard
