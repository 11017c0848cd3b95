import HyperCard.Proofs.Bytes.Lengthening
import HyperCard.Proofs.Bytes.Writing
import Mathlib.Algebra.GroupWithZero.Nat

/-!
# Windows as files of their own

A window that was cut out of a file, be it through many windows inside each other, knows where it
stands in the file, and that is the sum of the offsets. For everything else it is a file of its own:
whatever is read in it, or in parts that are cut out of it in turn, is what a file of just its bytes
gives, errors included. The bytes around it make no difference, and reading fails where its own
bytes end, even if the file goes on.
-/
namespace HyperCard.Window

/-- Bytes of a window, by the offset of the first one and by their number. -/
structure Span where
  /-- The offset of the first byte. -/
  offset : Nat
  /-- The number of bytes. -/
  length : Nat

/-- The window that is left when one part after the other is cut out, each of the part before. -/
def cutAll (window : Window) : List Span → Except ReadError Window
  | [] => .ok window
  | span :: spans => do (← window.sub span.offset span.length).cutAll spans

/-- What can be asked of a window. -/
inductive Question
  /-- All bytes. -/
  | contents
  /-- One byte. -/
  | byte (offset : Nat)
  /-- A number without sign. -/
  | unsigned (size offset : Nat)
  /-- A number with sign. -/
  | signed (size offset : Nat)
  /-- One bit of a number of two bytes. -/
  | flag (offset bit : Nat)
  /-- A rectangle. -/
  | rectangle (offset : Nat)
  /-- So many bytes. -/
  | bytes (offset length : Nat)
  /-- A text that ends before a zero byte. -/
  | text (offset : Nat)
  /-- What can be asked of a part that is cut out. -/
  | part (offset length : Nat) (question : Question)

/-- What is read. -/
inductive Reading
  /-- A number. -/
  | number (value : Int)
  /-- A bit. -/
  | bit (value : Bool)
  /-- A rectangle. -/
  | rectangle (value : Rectangle)
  /-- Bytes, be they a text or not. -/
  | bytes (value : List UInt8)

/-- The answer of a window to a question. -/
def answer (window : Window) : Question → Except ReadError Reading
  | .contents => .ok (.bytes window.toList)
  | .byte offset => (fun value => .number value.toNat) <$> window.byte offset
  | .unsigned size offset => (fun value : Nat => .number value) <$> window.unsigned size offset
  | .signed size offset => .number <$> window.signed size offset
  | .flag offset bit => .bit <$> window.flag offset bit
  | .rectangle offset => .rectangle <$> window.rectangle offset
  | .bytes offset length => .bytes <$> window.bytes offset length
  | .text offset => (fun value => .bytes value.characters) <$> window.text offset
  | .part offset length question => do (← window.sub offset length).answer question

/-- The bytes that a question asks for, if their number is fixed. -/
def Question.span? : Question → Option Span
  | .byte offset => some ⟨offset, 1⟩
  | .unsigned size offset | .signed size offset => some ⟨offset, size⟩
  | .flag offset _ => some ⟨offset, 2⟩
  | .rectangle offset => some ⟨offset, 8⟩
  | .bytes offset length => some ⟨offset, length⟩
  | .contents | .text _ | .part _ _ _ => none

section Alike

variable {left right : Window}

/-- Windows are alike when their bytes are equal. -/
theorem alike_of_toList (same : left.toList = right.toList) : Alike left right := by
  have length : left.length = right.length := by
    rw [← length_toList, same, length_toList]
  refine ⟨length, fun offset => ?_⟩
  by_cases within : offset < right.length
  · exact byte_congr within (by omega) (by rw [same])
  · rw [byte, dif_neg (by omega), byte, dif_neg within, length]

/-- A window has the bytes that stand in its file from its start on. -/
theorem toList_eq_take_drop (window : Window) :
    window.toList = (window.file.toList.drop window.start).take window.length := by
  simp [toList, slice]

/-- So windows in the same place of two files are alike where the files agree there. -/
theorem alike_of_file (start : left.start = right.start) (length : left.length = right.length)
    (same : ∀ place, right.start ≤ place → place < right.start + right.length →
      left.file[place]? = right.file[place]?) : Alike left right := by
  apply alike_of_toList
  rw [toList_eq_take_drop, toList_eq_take_drop, start, length]
  apply List.ext_getElem?
  intro index
  by_cases less : index < right.length
  · rw [List.getElem?_take_of_lt less, List.getElem?_take_of_lt less, List.getElem?_drop,
      List.getElem?_drop, Array.getElem?_toList, Array.getElem?_toList]
    exact same (right.start + index) (by omega) (by omega)
  · rw [List.getElem?_take_eq_none (by omega), List.getElem?_take_eq_none (by omega)]

/-- A file has its own bytes. -/
theorem toList_ofArray (file : Array UInt8) : (ofArray file).toList = file.toList := by
  simp [toList, slice, ofArray]

namespace Alike

/-- Parts that are cut out of windows that are alike are alike, or cannot be cut out of either. -/
theorem sub (alike : Alike left right) (offset length : Nat) :
    (∃ error, left.sub offset length = .error error ∧ right.sub offset length = .error error) ∨
      ∃ part other, left.sub offset length = .ok part ∧ right.sub offset length = .ok other ∧
        Alike part other := by
  by_cases fits : offset + length ≤ left.length
  · obtain ⟨part, cut⟩ : ∃ part, left.sub offset length = .ok part := ⟨_, dif_pos fits⟩
    obtain ⟨other, also⟩ : ∃ other, right.sub offset length = .ok other :=
      ⟨_, dif_pos (alike.length ▸ fits)⟩
    refine .inr ⟨part, other, cut, also, alike_of_toList ?_⟩
    rw [toList_of_sub cut, toList_of_sub also, alike.slice]
  · refine .inl ⟨.outOfBounds offset length left.length, dif_neg fits, ?_⟩
    rw [alike.length] at fits ⊢
    exact dif_neg fits

/-- Windows that are alike give the same answer to every question. -/
theorem answer (alike : Alike left right) (question : Question) :
    left.answer question = right.answer question := by
  -- A part that is cut out is asked in turn, so the induction is on the question.
  induction question generalizing left right with
  | contents => rw [Window.answer, Window.answer, toList, toList, alike.slice, alike.length]
  | byte offset => rw [Window.answer, Window.answer, alike.byte]
  | unsigned size offset => rw [Window.answer, Window.answer, alike.unsigned]
  | signed size offset => rw [Window.answer, Window.answer, alike.signed]
  | flag offset bit => rw [Window.answer, Window.answer, alike.flag]
  | rectangle offset => rw [Window.answer, Window.answer, alike.rectangle]
  | bytes offset length => rw [Window.answer, Window.answer, alike.bytes]
  | text offset => rw [Window.answer, Window.answer, alike.text]
  | part offset length question ih =>
    rw [Window.answer, Window.answer]
    obtain ⟨error, cut, also⟩ | ⟨part, other, cut, also, inner⟩ := alike.sub offset length
    · rw [cut, also]
    · rw [cut, also]
      exact ih inner

end Alike

end Alike

section Success

variable {window : Window}

/-- A part can be cut out exactly where all its bytes lie in the window. -/
theorem exists_sub_iff (offset length : Nat) :
    (∃ part, window.sub offset length = .ok part) ↔ offset + length ≤ window.length :=
  ⟨fun ⟨_, cut⟩ => le_of_sub cut, fun fits => ⟨_, dif_pos fits⟩⟩

/-- A computation goes on to a value exactly when it has one. -/
theorem exists_map_iff {ε α β : Type} {computed : Except ε α} {convert : α → β} :
    (∃ value, convert <$> computed = .ok value) ↔ ∃ value, computed = .ok value := by
  constructor
  · rintro ⟨value, converted⟩
    cases computed with
    | error error => cases converted
    | ok value => exact ⟨value, rfl⟩
  · rintro ⟨value, rfl⟩
    exact ⟨convert value, rfl⟩

/-- A number can be read exactly where all its bytes lie in the window. -/
theorem exists_unsigned_iff (size offset : Nat) :
    (∃ value, window.unsigned size offset = .ok value) ↔ offset + size ≤ window.length :=
  ⟨fun ⟨_, found⟩ => le_of_unsigned found, exists_unsigned⟩

/-- A rectangle needs the bytes of all its edges. -/
theorem exists_rectangle_iff (offset : Nat) :
    (∃ value, window.rectangle offset = .ok value) ↔ offset + 8 ≤ window.length := by
  have edge (place : Nat) : (∃ value, window.edge place = .ok value) ↔
      place + 2 ≤ window.length := exists_map_iff.trans (exists_unsigned_iff 2 place)
  constructor
  · rintro ⟨value, found⟩
    obtain ⟨_, _, found⟩ := exists_of_bind found
    obtain ⟨_, _, found⟩ := exists_of_bind found
    obtain ⟨_, _, found⟩ := exists_of_bind found
    obtain ⟨right, last, _⟩ := exists_of_bind found
    exact (edge (offset + 6)).mp ⟨right, last⟩
  · intro fits
    obtain ⟨top, readTop⟩ := (edge offset).mpr (by omega)
    obtain ⟨left, readLeft⟩ := (edge (offset + 2)).mpr (by omega)
    obtain ⟨bottom, readBottom⟩ := (edge (offset + 4)).mpr (by omega)
    obtain ⟨right, readRight⟩ := (edge (offset + 6)).mpr (by omega)
    refine ⟨⟨top, left, bottom, right⟩, ?_⟩
    rw [rectangle, readTop, readLeft, readBottom, readRight]
    rfl

/-- A read of a fixed number of bytes succeeds exactly where they all lie in the window. -/
theorem exists_answer_iff {question : Question} {span : Span} (fixed : question.span? = some span) :
    (∃ reading, window.answer question = .ok reading) ↔
      span.offset + span.length ≤ window.length := by
  cases question with
  | contents | text _ | part _ _ _ => cases fixed
  | byte offset =>
    cases fixed
    refine exists_map_iff.trans ⟨fun ⟨_, found⟩ => (byte_eq_ok found).1, fun within => ?_⟩
    exact ⟨_, dif_pos within⟩
  | unsigned size offset =>
    cases fixed
    exact exists_map_iff.trans (exists_unsigned_iff size offset)
  | signed size offset =>
    cases fixed
    exact exists_map_iff.trans (exists_map_iff.trans (exists_unsigned_iff size offset))
  | flag offset bit =>
    cases fixed
    exact exists_map_iff.trans (exists_map_iff.trans (exists_unsigned_iff 2 offset))
  | rectangle offset =>
    cases fixed
    exact exists_map_iff.trans (exists_rectangle_iff offset)
  | bytes offset length =>
    cases fixed
    -- A number of so many bytes is read where the bytes are.
    exact exists_map_iff.trans (exists_map_iff.symm.trans (exists_unsigned_iff length offset))

end Success

section Cutting

variable {window inner other : Window} {spans : List Span}

/-- A window inside others belongs to their file, stands where the offsets add up, and is as long
as was asked for last. -/
theorem cutAll_eq_ok (cut : window.cutAll spans = .ok inner) :
    inner.file = window.file ∧ inner.start = window.start + (spans.map Span.offset).sum ∧
      inner.length = (spans.getLast?.map Span.length).getD window.length := by
  induction spans generalizing window with
  | nil =>
    cases cut
    exact ⟨rfl, rfl, rfl⟩
  | cons span spans ih =>
    obtain ⟨part, first, later⟩ := exists_of_bind cut
    obtain ⟨file, start, length⟩ := ih later
    refine ⟨file.trans (file_of_sub first), ?_, ?_⟩
    · rw [start, start_of_sub first, List.map_cons, List.sum_cons, Nat.add_assoc]
    · rw [length, length_of_sub first, List.getLast?_cons]
      cases spans.getLast? <;> rfl

/-- The same parts can be cut out of every window of the same length. -/
theorem exists_cutAll (cut : window.cutAll spans = .ok inner)
    (length : other.length = window.length) : ∃ twin, other.cutAll spans = .ok twin := by
  induction spans generalizing window other with
  | nil => exact ⟨other, rfl⟩
  | cons span spans ih =>
    obtain ⟨part, first, later⟩ := exists_of_bind cut
    obtain ⟨also, second⟩ := (@exists_sub_iff other span.offset span.length).mpr
      (length ▸ le_of_sub first)
    obtain ⟨twin, rest⟩ := ih later ((length_of_sub second).trans (length_of_sub first).symm)
    exact ⟨twin, by rw [cutAll, second]; exact rest⟩

/-- **A window behaves like a file of its own.** A window that was cut out of a file stands where
the offsets add up and holds the bytes that the file has there. To every question, be it about parts
that are cut out of it in turn, it gives the answer of a file of just those bytes. A part can be cut
out, and a fixed number of bytes is read, exactly where the bytes lie in the window. The same window
of another file with the same bytes in that place gives the same answers. -/
theorem cut_like_own_file (file : Array UInt8) (spans : List Span) (inner : Window)
    (cut : (ofArray file).cutAll spans = .ok inner) :
    inner.start = (spans.map Span.offset).sum ∧
      inner.toList = (file.toList.drop inner.start).take inner.length ∧
      inner.toList.length = (spans.getLast?.map Span.length).getD file.size ∧
      (∀ question, inner.answer question = (ofArray inner.toList.toArray).answer question) ∧
      (∀ offset length, (∃ part, inner.sub offset length = .ok part) ↔
        offset + length ≤ inner.length) ∧
      (∀ question, ∀ span ∈ question.span?, (∃ reading, inner.answer question = .ok reading) ↔
        span.offset + span.length ≤ inner.length) ∧
      ∀ other : Array UInt8, other.size = file.size →
        (∀ place, inner.start ≤ place → place < inner.start + inner.length →
          other[place]? = file[place]?) →
        ∃ twin, (ofArray other).cutAll spans = .ok twin ∧ twin.start = inner.start ∧
          ∀ question, twin.answer question = inner.answer question := by
  obtain ⟨shared, start, length⟩ := cutAll_eq_ok cut
  refine ⟨?_, ?_, ?_, ?_, exists_sub_iff, fun _ _ fixed => exists_answer_iff fixed, ?_⟩
  · rw [start]
    exact Nat.zero_add _
  · rw [toList_eq_take_drop, shared]
    rfl
  · rw [length_toList, length]
    rfl
  · have same : (ofArray inner.toList.toArray).toList = inner.toList := toList_ofArray _
    exact (alike_of_toList same.symm).answer
  · intro other size same
    obtain ⟨twin, also⟩ := @exists_cutAll (ofArray file) inner (ofArray other) spans cut size
    obtain ⟨sharedTwin, startTwin, lengthTwin⟩ := cutAll_eq_ok also
    have place : twin.start = inner.start := startTwin.trans start.symm
    have extent : twin.length = inner.length := by
      rw [lengthTwin, length]
      exact congrArg _ size
    refine ⟨twin, also, place, (alike_of_file place extent ?_).answer⟩
    rw [sharedTwin, shared]
    exact same

/-- A file of sixteen bytes with a zero byte in the middle. -/
def numberedFile : Array UInt8 := #[0, 1, 2, 3, 4, 5, 6, 7, 8, 0, 10, 11, 12, 13, 14, 15]

/-- Three bytes in the middle of the file, cut out of eight. A text in them has no end, although a
zero byte follows in the file, and in another file that has only these bytes in common. -/
theorem cut_like_own_file_nested :
    ∃ inner, (ofArray numberedFile).cutAll [⟨4, 8⟩, ⟨2, 3⟩] = .ok inner ∧
      inner.start = 6 ∧ inner.toList = [6, 7, 8] ∧
      inner.answer (.unsigned 2 1) = .ok (.number 0x0708) ∧
      inner.answer (.part 1 2 (.byte 2)) = .error (.outOfBounds 2 1 2) ∧
      inner.answer (.text 0) = .error (.missingTerminator 0) ∧
      (¬∃ part, inner.sub 1 3 = .ok part) ∧
      (¬∃ reading, inner.answer (.rectangle 0) = .ok reading) ∧
      ∃ twin, (ofArray #[9, 9, 9, 9, 9, 9, 6, 7, 8, 9, 9, 9, 9, 9, 9, 9]).cutAll
          [⟨4, 8⟩, ⟨2, 3⟩] = .ok twin ∧
        twin.answer (.text 0) = .error (.missingTerminator 0) := by
  have cut : ∃ inner, (ofArray numberedFile).cutAll [⟨4, 8⟩, ⟨2, 3⟩] = .ok inner ∧
      inner.toList = [6, 7, 8] ∧ inner.length = 3 := exists_of_check (by decide)
  obtain ⟨inner, cut, bytes, length⟩ := cut
  obtain ⟨start, _, _, answers, parts, fixed, others⟩ :=
    cut_like_own_file numberedFile [⟨4, 8⟩, ⟨2, 3⟩] inner cut
  have start : inner.start = 6 := start
  have text : inner.answer (.text 0) = .error (.missingTerminator 0) := by
    have read : (ofArray #[6, 7, 8]).text 0 = .error (.missingTerminator 0) := by
      simp [Window.text, zeroFrom?, ofArray]
    rw [answers, bytes, answer, read]
    rfl
  refine ⟨inner, cut, start, bytes, ?_, ?_, text, ?_, ?_, ?_⟩
  · rw [answers, bytes]
    rfl
  · rw [answers, bytes]
    rfl
  · rw [parts, length]
    decide
  · rw [fixed (.rectangle 0) ⟨0, 8⟩ rfl, length]
    decide
  · obtain ⟨twin, also, _, same⟩ :=
      others #[9, 9, 9, 9, 9, 9, 6, 7, 8, 9, 9, 9, 9, 9, 9, 9] rfl fun place starts ends => by
        rw [start] at starts ends
        rw [length] at ends
        obtain rfl | rfl | rfl : place = 6 ∨ place = 7 ∨ place = 8 := by omega
        all_goals rfl
    exact ⟨twin, also, (same _).trans text⟩

end Cutting

end HyperCard.Window
