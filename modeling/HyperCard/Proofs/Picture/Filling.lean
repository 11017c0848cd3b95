import HyperCard.Proofs.Bytes.Window
import HyperCard.Proofs.Picture.Words

/-!
# Filling words

What each way of filling words leaves in the array: bytes with their copies in the current row,
words in a column of several rows, and whole rows word after word.
-/
namespace HyperCard.Decoder

open RasterStream (wordOfBytes wordAt wordBytes)

variable {frame : Frame} {progress : Progress} {words : Words} {finished : List UInt32}
  {tail : Nat → UInt32}

/-- A read that succeeds goes on with what it has read. -/
theorem read_bind {α β : Type} {read : Except ReadError α} {value : α} (found : read = .ok value)
    (next : α → Except BitmapError β) : (liftM read >>= next) = next value := by
  rw [found]
  rfl

/-- The words of bytes that a function gives, four to a word. -/
def wordsOf (bytes : Nat → UInt8) (index : Nat) : UInt32 :=
  wordOfBytes (bytes (4 * index)) (bytes (4 * index + 1)) (bytes (4 * index + 2))
    (bytes (4 * index + 3))

/-- A byte in the highest place of a word, shifted to its own place. -/
theorem shifted_byte (byte : UInt8) :
    (byte.toUInt32 <<< 24) >>> 8 = byte.toUInt32 <<< 16 ∧
      (byte.toUInt32 <<< 24) >>> 16 = byte.toUInt32 <<< 8 ∧
        (byte.toUInt32 <<< 24) >>> 24 = byte.toUInt32 := by
  have small : byte.toNat < 256 := byte.toNat_lt
  refine ⟨?_, ?_, ?_⟩
  all_goals
    apply UInt32.toNat_inj.mp
    simp only [UInt32.toNat_shiftRight, UInt32.toNat_shiftLeft, UInt8.toNat_toUInt32,
      Nat.shiftLeft_eq, Nat.shiftRight_eq_div_pow, UInt32.reduceToNat, Nat.reduceMod,
      Nat.reducePow]
    omega

/-- A byte of a word that is white may be drawn into it. -/
theorem wordOfBytes_or (byte first second third fourth : UInt8) :
    wordOfBytes 0 second third fourth ||| (byte.toUInt32 <<< 24) >>> 0 =
        wordOfBytes byte second third fourth ∧
      wordOfBytes first 0 third fourth ||| (byte.toUInt32 <<< 24) >>> 8 =
          wordOfBytes first byte third fourth ∧
        wordOfBytes first second 0 fourth ||| (byte.toUInt32 <<< 24) >>> 16 =
            wordOfBytes first second byte fourth ∧
          wordOfBytes first second third 0 ||| (byte.toUInt32 <<< 24) >>> 24 =
            wordOfBytes first second third byte := by
  obtain ⟨one, two, three⟩ := shifted_byte byte
  have none : (byte.toUInt32 <<< 24) >>> 0 = byte.toUInt32 <<< 24 := UInt32.shiftRight_zero
  have zero : ∀ shift, (0 : UInt8).toUInt32 <<< shift = 0 := fun _ => UInt32.zero_shiftLeft
  have last : (0 : UInt8).toUInt32 = 0 := rfl
  have swap : ∀ left middle right : UInt32,
      left ||| middle ||| right = left ||| right ||| middle := by
    intro left middle right
    rw [UInt32.or_assoc, UInt32.or_comm middle, ← UInt32.or_assoc]
  rw [none, one, two, three]
  simp only [wordOfBytes]
  refine ⟨?_, ?_, ?_, ?_⟩
  · rw [zero, UInt32.zero_or, swap, swap (second.toUInt32 <<< 16),
      UInt32.or_comm (second.toUInt32 <<< 16)]
  · rw [zero, UInt32.or_zero, swap, swap (first.toUInt32 <<< 24)]
  · rw [zero, UInt32.or_zero, swap]
  · rw [last, UInt32.or_zero]

/-- A byte that is drawn into a white place of its word is the byte at that place of all words. -/
theorem wordsOf_update {bytes : Nat → UInt8} {place : Nat} (white : bytes place = 0)
    (byte : UInt8) :
    Function.update (wordsOf bytes) (place / 4)
        (wordsOf bytes (place / 4) |||
          (byte.toUInt32 <<< 24) >>> UInt32.ofNat (8 * place % 32)) =
      wordsOf (Function.update bytes place byte) := by
  have whole : 4 * (place / 4) + place % 4 = place := Nat.div_add_mod place 4
  have amount : 8 * place % 32 = 8 * (place % 4) := by omega
  have less : place % 4 < 4 := Nat.mod_lt _ (by decide)
  rw [amount]
  generalize place / 4 = word at whole
  generalize place % 4 = part at whole less
  subst whole
  funext index
  by_cases same : index = word
  · subst same
    have values : ∀ other, Function.update bytes (4 * index + part) byte (4 * index + other) =
        if other = part then byte else bytes (4 * index + other) := by
      intro other
      rw [Function.update_apply]
      simp only [Nat.add_left_cancel_iff]
    have first := values 0
    rw [Nat.add_zero] at first
    have drawn := wordOfBytes_or byte (bytes (4 * index)) (bytes (4 * index + 1))
      (bytes (4 * index + 2)) (bytes (4 * index + 3))
    rw [Function.update_self, wordsOf, wordsOf, first, values, values, values]
    match part, less with
    | 0, _ =>
      rw [Nat.add_zero] at white
      rw [white]
      exact drawn.1
    | 1, _ =>
      rw [white]
      exact drawn.2.1
    | 2, _ =>
      rw [white]
      exact drawn.2.2.1
    | 3, _ =>
      rw [white]
      exact drawn.2.2.2
  · have apart : ∀ other < 4, 4 * index + other ≠ 4 * word + part := by omega
    have first := apart 0 (by decide)
    rw [Nat.add_zero] at first
    rw [Function.update_of_ne same, wordsOf, wordsOf, Function.update_of_ne first,
      Function.update_of_ne (apart 1 (by decide)), Function.update_of_ne (apart 2 (by decide)),
      Function.update_of_ne (apart 3 (by decide))]

/-- Only the bytes count that the words behind the finished ones are made of. -/
theorem Shows.congr_bytes {bytes others : Nat → UInt8}
    (shows : Shows words finished (wordsOf bytes)) (same : ∀ index, bytes index = others index) :
    Shows words finished (wordsOf others) := by
  rwa [show bytes = others from funext same] at shows

/-- Blackening the pixels of a white byte puts the byte there. -/
theorem writeByte?_shows {bytes : Nat → UInt8} (place : Nat)
    (shows : Shows words finished (wordsOf bytes)) (white : bytes place = 0)
    (inside : finished.length + place / 4 < words.size) (byte : UInt8) :
    ∃ later, writeByte? words finished.length (8 * place) byte = some later ∧
      later.size = words.size ∧
        Shows later finished (wordsOf (Function.update bytes place byte)) := by
  have column : 8 * place / 32 = place / 4 := by omega
  have found : words[finished.length + place / 4] = wordsOf bytes (place / 4) := by
    have same := shows.after _ inside
    rwa [Array.getElem?_eq_getElem inside, Option.some_inj] at same
  have drawn := shows.set (place / 4) (wordsOf bytes (place / 4) |||
    (byte.toUInt32 <<< 24) >>> UInt32.ofNat (8 * place % 32)) inside
  rw [wordsOf_update white] at drawn
  refine ⟨_, ?_, Array.size_set inside, drawn⟩
  simp only [writeByte?, column, dif_pos inside, found]

/-- From the second copy on, copies stand one place further. -/
theorem next_copy (place copy stride : Nat) :
    place + stride + copy * stride = place + (copy + 1) * stride := by
  rw [Nat.succ_mul]
  omega

/-- The place of a copy is the first one or that of a later copy. -/
theorem exists_copy_succ_iff {index place copies stride : Nat} :
    (∃ copy < copies + 1, index = place + copy * stride) ↔
      index = place ∨ ∃ copy < copies, index = place + stride + copy * stride := by
  simp only [next_copy]
  rw [Nat.exists_lt_succ_left, Nat.zero_mul, Nat.add_zero]

/-- A value is put into the first place, then into those of the later copies. -/
theorem update_copies {α : Type} (value : α) (old : Nat → α) (copies stride place index : Nat) :
    (if ∃ copy < copies, index = place + stride + copy * stride then value
      else Function.update old place value index) =
      if ∃ copy < copies + 1, index = place + copy * stride then value else old index := by
  simp only [exists_copy_succ_iff]
  by_cases here : index = place
  · subst here
    rw [Function.update_self, ite_self, if_pos (.inl rfl)]
  · simp only [here, false_or, Function.update_of_ne here]

/-- Copies of a byte are put where white bytes are. -/
theorem writeCopies?_shows {stride : Nat} (apart : 0 < stride) (byte : UInt8) (copies : Nat)
    {bytes : Nat → UInt8} (place : Nat) (shows : Shows words finished (wordsOf bytes))
    (white : ∀ copy < copies, bytes (place + copy * stride) = 0)
    (inside : ∀ copy < copies, finished.length + (place + copy * stride) / 4 < words.size) :
    ∃ later,
      writeCopies? finished.length (8 * stride) byte copies (8 * place) words = some later ∧
        later.size = words.size ∧
          Shows later finished (wordsOf fun index =>
            if ∃ copy < copies, index = place + copy * stride then byte else bytes index) := by
  induction copies generalizing words bytes place with
  | zero =>
    refine ⟨words, rfl, rfl, ?_⟩
    simpa using shows
  | succ copies ih =>
    obtain ⟨first, written, size, drawn⟩ := writeByte?_shows place shows
      (by simpa using white 0 (Nat.succ_pos _)) (by simpa using inside 0 (Nat.succ_pos _)) byte
    have further : ∀ copy, place + stride + copy * stride ≠ place := by omega
    have next : 8 * place + 8 * stride = 8 * (place + stride) := (Nat.mul_add _ _ _).symm
    obtain ⟨later, rest, same, shown⟩ := ih (place + stride) drawn
      (fun copy less => by
        rw [Function.update_of_ne (further copy), next_copy]
        exact white _ (Nat.succ_lt_succ less))
      (fun copy less => by
        rw [next_copy, size]
        exact inside _ (Nat.succ_lt_succ less))
    refine ⟨later, ?_, same.trans size, ?_⟩
    · rw [writeCopies?, written, next]
      exact rest
    · exact shown.congr_bytes (update_copies byte bytes copies stride place)

/-- The bytes of a row to which zeros and then other bytes are appended, so many times, when all
copies of some of those bytes are written. -/
def partlyWritten (current : List UInt8) (zeros stride copies : Nat) (written : List UInt8)
    (index : Nat) : UInt8 :=
  if index < current.length then current.getD index 0
  else
    let place := index - current.length
    if place < copies * stride ∧ zeros ≤ place % stride then
      written.getD (place % stride - zeros) 0
    else 0

/-- Places at equal distances are those with one remainder. -/
theorem exists_copy_iff {place copies stride first : Nat} (less : first < stride) :
    (∃ copy < copies, place = first + copy * stride) ↔
      place < copies * stride ∧ place % stride = first := by
  constructor
  · intro ⟨copy, few, same⟩
    have bound : (copy + 1) * stride ≤ copies * stride := Nat.mul_le_mul_right _ few
    rw [Nat.succ_mul] at bound
    refine ⟨by omega, ?_⟩
    rw [same, Nat.add_mul_mod_self_right, Nat.mod_eq_of_lt less]
  · intro ⟨bound, rest⟩
    have parts := Nat.mod_add_div place stride
    refine ⟨place / stride, ?_, ?_⟩
    · exact Nat.div_lt_of_lt_mul (by rwa [Nat.mul_comm])
    · rw [Nat.mul_comm, ← rest]
      exact parts.symm

/-- One more byte is written, with all its copies. -/
theorem partlyWritten_push {current written : List UInt8} {zeros stride copies : Nat} (byte : UInt8)
    (room : zeros + written.length < stride) (index : Nat) :
    (if ∃ copy < copies, index = current.length + zeros + written.length + copy * stride then byte
      else partlyWritten current zeros stride copies written index) =
      partlyWritten current zeros stride copies (written ++ [byte]) index := by
  by_cases early : index < current.length
  · have apart : ¬ ∃ copy < copies,
        index = current.length + zeros + written.length + copy * stride := by
      intro ⟨copy, _, same⟩
      omega
    rw [if_neg apart, partlyWritten, partlyWritten, if_pos early, if_pos early]
  · obtain ⟨place, rfl⟩ := Nat.exists_eq_add_of_le (Nat.not_lt.mp early)
    have same : (∃ copy < copies,
        current.length + place = current.length + zeros + written.length + copy * stride) ↔
        ∃ copy < copies, place = zeros + written.length + copy * stride := by
      refine exists_congr fun copy => and_congr_right fun _ => ?_
      omega
    simp only [partlyWritten, if_neg early, Nat.add_sub_cancel_left, same, exists_copy_iff room]
    by_cases inside : place < copies * stride ∧ zeros ≤ place % stride
    · rw [if_pos inside, if_pos inside]
      by_cases here : place % stride = zeros + written.length
      · rw [if_pos ⟨inside.1, here⟩, here, Nat.add_sub_cancel_left]
        simp
      · rw [if_neg fun found => here found.2]
        by_cases before : place % stride - zeros < written.length
        · rw [List.getD_append _ _ _ _ before]
        · rw [List.getD_eq_default _ _ (by omega), List.getD_eq_default]
          rw [List.length_append, List.length_singleton]
          omega
    · have apart : ¬ (place < copies * stride ∧ place % stride = zeros + written.length) := by
        intro ⟨bound, rest⟩
        exact inside ⟨bound, by omega⟩
      rw [if_neg apart, if_neg inside, if_neg inside]

/-- Bytes of the stream are written with their copies. -/
theorem writeRun_shows {current : List UInt8} {zeros stride width : Nat} (written rest : List UInt8)
    {offset : Nat} (length : stride = zeros + (written.length + rest.length))
    (holds : frame.data.Holds offset rest) (start : progress.rowStart = finished.length)
    (room : current.length + progress.repetitions * stride ≤ 4 * width)
    (fits : finished.length + width ≤ words.size)
    (shows : Shows words finished
      (wordsOf (partlyWritten current zeros stride progress.repetitions written))) :
    ∃ later,
      writeRun frame progress (8 * stride) rest.length offset
          (8 * (current.length + zeros + written.length)) words = .ok later ∧
        later.size = words.size ∧
          Shows later finished (wordsOf
            (partlyWritten current zeros stride progress.repetitions (written ++ rest))) := by
  induction rest generalizing words written offset with
  | nil =>
    refine ⟨words, rfl, rfl, ?_⟩
    simpa using shows
  | cons byte rest ih =>
    rw [List.length_cons] at length
    have less : zeros + written.length < stride := by omega
    have place : ∀ copy < progress.repetitions,
        zeros + written.length + copy * stride < progress.repetitions * stride := by
      intro copy few
      exact ((exists_copy_iff less).mp ⟨copy, few, rfl⟩).1
    have white : ∀ copy < progress.repetitions,
        partlyWritten current zeros stride progress.repetitions written
          (current.length + zeros + written.length + copy * stride) = 0 := by
      intro copy few
      have inside := (exists_copy_iff less).mp ⟨copy, few, rfl⟩
      have sum : current.length + zeros + written.length + copy * stride - current.length =
          zeros + written.length + copy * stride := by omega
      rw [partlyWritten, if_neg (by omega), sum, if_pos ⟨inside.1, by omega⟩, inside.2]
      simp
    obtain ⟨first, copied, size, drawn⟩ := writeCopies?_shows (by omega) byte progress.repetitions
      (current.length + zeros + written.length) shows white fun copy few => by
        have bound := place copy few
        omega
    obtain ⟨found, others⟩ := holds.cons
    have shown := drawn.congr_bytes (partlyWritten_push byte less)
    obtain ⟨later, run, same, done⟩ := ih (written ++ [byte])
      (by rw [List.length_append, List.length_singleton]; omega) others (by rw [size]; exact fits)
      shown
    refine ⟨later, ?_, same.trans size, ?_⟩
    · have next : 8 * (current.length + zeros + written.length) + 8 =
          8 * (current.length + zeros + (written ++ [byte]).length) := by
        rw [List.length_append, List.length_singleton]
        omega
      rw [List.length_cons, writeRun, read_bind found, start]
      dsimp only
      rw [copied, next]
      exact run
    · rwa [List.append_assoc, List.singleton_append] at done

/-- Before anything is written only the bytes so far are there. -/
theorem partlyWritten_nil (current : List UInt8) (zeros stride copies index : Nat) :
    partlyWritten current zeros stride copies [] index = current.getD index 0 := by
  by_cases early : index < current.length
  · rw [partlyWritten, if_pos early]
  · rw [partlyWritten, if_neg early, List.getD_eq_default _ _ (Nat.not_lt.mp early)]
    simp

/-- When everything is written all copies have been appended. -/
theorem partlyWritten_all (current data : List UInt8) (zeros copies index : Nat) :
    partlyWritten current zeros (zeros + data.length) copies data index =
      (current ++ (List.replicate copies (List.replicate zeros 0 ++ data)).flatten).getD index 0 :=
    by
  by_cases early : index < current.length
  · rw [partlyWritten, if_pos early, List.getD_append _ _ _ _ early]
  · have late := Nat.not_lt.mp early
    have size : (List.replicate zeros (0 : UInt8) ++ data).length = zeros + data.length := by simp
    rw [partlyWritten, if_neg early, List.getD_append_right _ _ _ _ late,
      List.getD_eq_getElem?_getD, getElem?_flatten_replicate, size]
    generalize index - current.length = place
    by_cases inside : place < copies * (zeros + data.length)
    · by_cases white : place % (zeros + data.length) < zeros
      · rw [if_neg (by omega), if_pos inside, List.getElem?_append_left (by simpa using white)]
        simp [white]
      · have black := Nat.not_lt.mp white
        rw [if_pos ⟨inside, black⟩, if_pos inside,
          List.getElem?_append_right (by simpa using black), List.getD_eq_getElem?_getD]
        simp
    · rw [if_neg fun found => inside found.1, if_neg inside]
      rfl

/-- White bytes at the end of a row make no difference. -/
theorem getD_append_white (current : List UInt8) (count index : Nat) :
    (current ++ List.replicate count 0).getD index 0 = current.getD index 0 := by
  by_cases early : index < current.length
  · rw [List.getD_append _ _ _ _ early]
  · have late := Nat.not_lt.mp early
    rw [List.getD_append_right _ _ _ _ late, List.getD_eq_default _ _ late]
    by_cases inside : index - current.length < count
    · rw [List.getD_replicate _ inside]
    · rw [List.getD_eq_default _ _ (by rw [List.length_replicate]; omega)]

/-- A word is put into a column of several rows. -/
theorem setColumn?_shows {width : Nat} (word : UInt32) (rows : Nat) {tail : Nat → UInt32}
    (place : Nat) (shows : Shows words finished tail)
    (inside : ∀ row < rows, finished.length + (place + row * width) < words.size) :
    ∃ later, setColumn? width word rows (finished.length + place) words = some later ∧
      later.size = words.size ∧
        Shows later finished fun index =>
          if ∃ row < rows, index = place + row * width then word else tail index := by
  induction rows generalizing words tail place with
  | zero =>
    refine ⟨words, rfl, rfl, ?_⟩
    simpa using shows
  | succ rows ih =>
    have here : finished.length + place < words.size := by
      simpa using inside 0 (Nat.succ_pos _)
    have drawn := shows.set place word here
    have size := Array.size_set (v := word) here
    obtain ⟨later, run, same, shown⟩ := ih (place + width) drawn fun row less => by
      rw [next_copy, size]
      exact inside _ (Nat.succ_lt_succ less)
    refine ⟨later, ?_, same.trans size,
      shown.congr fun index _ => update_copies word tail rows width place index⟩
    rw [setColumn?, setWord?, dif_pos here, Nat.add_assoc]
    exact run

/-- The number of the bytes of a word is the word. -/
theorem naturalOf_wordBytes (word : UInt32) : Window.naturalOf (wordBytes word) = word.toNat := by
  have small : word.toNat < 2 ^ 32 := word.toNat_lt
  simp only [Window.naturalOf, wordBytes, List.foldl_cons, List.foldl_nil, UInt32.toNat_toUInt8,
    UInt32.toNat_shiftRight, Nat.shiftRight_eq_div_pow, UInt32.reduceToNat, Nat.reduceMod,
    Nat.reducePow]
  omega

/-- A word of the stream is read. -/
theorem unsigned_eq {window : Window} {offset : Nat} {word : UInt32}
    (holds : window.Holds offset (wordBytes word)) :
    window.unsigned 4 offset = .ok word.toNat := by
  have read := holds.bytes_eq (by simp [wordBytes])
  rw [← naturalOf_wordBytes, Window.unsigned]
  change Window.naturalOf <$> window.bytes offset (wordBytes word).length = _
  rw [read]
  rfl

/-- Copies of a row of which only the first columns are written. -/
def partlyCopied (row : List UInt32) (copies columns index : Nat) : UInt32 :=
  if index < copies * row.length ∧ index % row.length < columns then
    row.getD (index % row.length) 0
  else 0

/-- A word in all copies of its column makes one column more. -/
theorem partlyCopied_push {row copied rest : List UInt32} {word : UInt32}
    (parts : row = copied ++ word :: rest) (copies index : Nat) :
    (if ∃ copy < copies, index = copied.length + copy * row.length then word
      else partlyCopied row copies copied.length index) =
        partlyCopied row copies (copied ++ [word]).length index := by
  have less : copied.length < row.length := by
    rw [parts, List.length_append, List.length_cons]
    omega
  rw [partlyCopied, partlyCopied, List.length_append, List.length_singleton]
  simp only [exists_copy_iff less]
  by_cases here : index < copies * row.length ∧ index % row.length = copied.length
  · have found : row.getD copied.length 0 = word := by
      rw [parts, List.getD_append_right _ _ _ _ (Nat.le_refl _), Nat.sub_self]
      rfl
    rw [if_pos here, if_pos ⟨here.1, by omega⟩, here.2, found]
  · have same : (index < copies * row.length ∧ index % row.length < copied.length) ↔
        index < copies * row.length ∧ index % row.length < copied.length + 1 := by omega
    rw [if_neg here]
    simp only [same]

/-- Words of the stream are copied, column after column. -/
theorem copyRows_shows {row : List UInt32} (copied rest : List UInt32) {offset : Nat}
    (parts : row = copied ++ rest) (width : frame.wordsPerRow = row.length)
    (holds : frame.data.Holds offset (rest.flatMap wordBytes))
    (fits : finished.length + progress.repetitions * row.length ≤ words.size)
    (shows : Shows words finished (partlyCopied row progress.repetitions copied.length)) :
    ∃ later,
      copyRows frame progress rest.length offset (finished.length + copied.length) words =
          .ok later ∧
        later.size = words.size ∧
          Shows later finished (partlyCopied row progress.repetitions row.length) := by
  induction rest generalizing words copied offset with
  | nil =>
    rw [List.append_nil] at parts
    exact ⟨words, rfl, rfl, parts ▸ shows⟩
  | cons word rest ih =>
    have less : copied.length < row.length := by
      rw [parts, List.length_append, List.length_cons]
      omega
    rw [List.flatMap_cons] at holds
    obtain ⟨first, others⟩ := holds.append
    have inside : ∀ copy < progress.repetitions,
        finished.length + (copied.length + copy * frame.wordsPerRow) < words.size := by
      intro copy few
      have bound := ((exists_copy_iff less).mp ⟨copy, few, rfl⟩).1
      rw [width]
      omega
    obtain ⟨next, set, size, drawn⟩ :=
      setColumn?_shows word progress.repetitions copied.length shows inside
    have shown : Shows next finished
        (partlyCopied row progress.repetitions (copied ++ [word]).length) :=
      drawn.congr fun index _ => by
        rw [width]
        exact partlyCopied_push parts progress.repetitions index
    obtain ⟨later, run, same, done⟩ := ih (copied ++ [word])
      (by rw [List.append_assoc, List.singleton_append]; exact parts) others
      (by rw [size]; exact fits) shown
    refine ⟨later, ?_, same.trans size, done⟩
    rw [List.length_append, List.length_singleton, ← Nat.add_assoc] at run
    rw [List.length_cons, copyRows, read_bind (unsigned_eq first), UInt32.ofNat_toNat]
    dsimp only
    rw [set]
    exact run

/-- Copies of a row that are written in full come after the finished words. -/
theorem Shows.append_copies {row : List UInt32} {copies : Nat}
    (shows : Shows words finished (partlyCopied row copies row.length))
    (fits : finished.length + copies * row.length ≤ words.size) :
    Shows words (finished ++ (List.replicate copies row).flatten) fun _ => 0 := by
  have size : (List.replicate copies row).flatten.length = copies * row.length := by
    simp
  refine (shows.append _ (by rw [size]; exact fits) ?_).congr ?_
  · intro index inside
    have bound := inside
    rw [size] at bound
    have less : index % row.length < row.length := by
      refine Nat.mod_lt _ (Nat.pos_of_ne_zero fun zero => ?_)
      rw [zero, Nat.mul_zero] at bound
      exact Nat.not_lt_zero _ bound
    have found := getElem?_flatten_replicate row copies index
    rw [if_pos bound, List.getElem?_eq_getElem inside, List.getElem?_eq_getElem less,
      Option.some_inj] at found
    rw [partlyCopied, if_pos ⟨bound, less⟩, found, List.getD_eq_getElem _ _ less]
  · intro index _
    rw [size, partlyCopied, if_neg (by omega)]

end HyperCard.Decoder
