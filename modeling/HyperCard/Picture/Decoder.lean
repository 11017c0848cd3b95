import HyperCard.Bytes.Window
import HyperCard.Picture.Instruction
import HyperCard.Picture.Raster

/-!
# Decoding a compressed raster

The decoder fills the rows of a rectangle, widened to whole words, from the instructions of a
stream. A row is finished when instructions have passed its last pixel; then it is combined with
itself and with the rows above as the last combining instruction says. Instructions for whole
rows end the current row at once and leave it uncombined. A byte is combined with the pixels
that it meets, so a row once written only gains black pixels until it is finished.

Every instruction takes a byte of the stream and every finished row is one row less to fill, so
the bytes and rows that remain together bound the number of steps.
-/
namespace HyperCard

/-- Why a raster cannot be decoded. -/
inductive BitmapError
  /-- An instruction writes past the last word. -/
  | overflow (opcode : UInt8) (offset words : Nat)
  /-- An instruction copies from above the first row. -/
  | missingSource (opcode : UInt8) (offset : Nat)
  /-- The stream goes on past the end of its block. -/
  | bounds (violation : ReadError)
  deriving DecidableEq, Repr

/-- The wording of a decoding error. -/
def BitmapError.message : BitmapError → String
  | .overflow opcode offset words =>
    "opcode 0x" ++ Hexadecimal.byte opcode ++ " at offset " ++ Hexadecimal.marked offset ++
      " writes past the raster (" ++ toString words ++ " words)"
  | .missingSource opcode offset =>
    "opcode 0x" ++ Hexadecimal.byte opcode ++ " at offset " ++ Hexadecimal.marked offset ++
      " copies a row above the raster"
  | .bounds violation => "bounds violation: " ++ violation.message

/-- How decoding ended. -/
inductive Outcome
  /-- Every row is filled. -/
  | complete
  /-- A byte that is no instruction ended the stream after so many rows. -/
  | truncated (rows : Nat) (opcode : UInt8) (offset : Nat)
  deriving DecidableEq, Repr

namespace Decoder

instance : MonadLift (Except ReadError) (Except BitmapError) := ⟨Except.mapError .bounds⟩

/-- The words of a raster while it is filled. -/
abbrev Words := Array UInt32

/-- What stays the same while a raster is decoded. -/
structure Frame where
  /-- The block that holds the stream. -/
  data : Window
  /-- The first row. -/
  top : Int
  /-- The row after the last. -/
  bottom : Int
  /-- The number of words in a row. -/
  wordsPerRow : Nat

/-- How far decoding has come. -/
structure Progress where
  /-- The offset of the next byte of the stream. -/
  offset : Nat
  /-- The last instruction. -/
  opcode : UInt8
  /-- The offset of the last instruction. -/
  opcodeOffset : Nat
  /-- The index of the first word of the current row. -/
  rowStart : Nat
  /-- The current row. -/
  y : Int
  /-- The next pixel of the current row. -/
  x : Nat
  /-- How often the next instruction acts. -/
  repetitions : Nat
  /-- The shift that finished rows are combined with, or zero. -/
  dx : Nat
  /-- The distance to the row that finished rows are combined with, or zero. -/
  dy : Nat
  /-- The bytes remembered, one for each remainder of the row by eight. -/
  history : Vector UInt8 8

/-- The place where the byte of a row is remembered. -/
def historySlot (y : Int) : Fin 8 := Fin.ofNat 8 (y % 8).toNat

/-- Every other pixel black, in alternation from row to row. -/
def initialHistory : Vector UInt8 8 := #v[0xAA, 0x55, 0xAA, 0x55, 0xAA, 0x55, 0xAA, 0x55]

/-- Before the first instruction at an offset. -/
def Progress.initial (offset : Nat) (top : Int) : Progress :=
  ⟨offset, 0, offset, 0, top, 0, 1, 0, 0, initialHistory⟩

namespace Progress

/-- The error of writing past so many words. -/
def overflow (progress : Progress) (words : Nat) : BitmapError :=
  .overflow progress.opcode progress.opcodeOffset words

/-- The error of copying from above the first row. -/
def missingSource (progress : Progress) : BitmapError :=
  .missingSource progress.opcode progress.opcodeOffset

/-- At the start of a row so many rows further. -/
def advanceRows (progress : Progress) (wordsPerRow rows : Nat) : Progress :=
  { progress with
    rowStart := progress.rowStart + rows * wordsPerRow
    y := progress.y + rows
    x := 0
    repetitions := 1 }

/-- After an instruction that filled so many pixels. -/
def advancePixels (progress : Progress) (pixels : Nat) : Progress :=
  { progress with x := progress.x + pixels * progress.repetitions, repetitions := 1 }

/-- Remember a byte for the current row. -/
def remember (progress : Progress) (byte : UInt8) : Progress :=
  let slot := historySlot progress.y
  { progress with history := progress.history.set slot byte slot.isLt }

/-- The byte remembered for a row. -/
def remembered (progress : Progress) (y : Int) : UInt8 := progress.history.get (historySlot y)

end Progress

/-- A word of one byte four times over. -/
def replicate (byte : UInt8) : UInt32 := 0x01010101 * byte.toUInt32

/-- Another word at an index, if there is one. -/
def setWord? (words : Words) (index : Nat) (word : UInt32) : Option Words :=
  if within : index < words.size then some (words.set index word) else none

/-- Blacken the pixels of a byte, from a pixel of the row on. -/
def writeByte? (words : Words) (rowStart x : Nat) (byte : UInt8) : Option Words :=
  let index := rowStart + x / 32
  if within : index < words.size then
    some (words.set index (words[index] ||| (byte.toUInt32 <<< 24) >>> UInt32.ofNat (x % 32)))
  else none

/-- Write a byte so often, each time so many pixels further. -/
def writeCopies? (rowStart stride : Nat) (byte : UInt8) : (copies x : Nat) → Words → Option Words
  | 0, _, words => some words
  | copies + 1, x, words =>
    match writeByte? words rowStart x byte with
    | some words => writeCopies? rowStart stride byte copies (x + stride) words
    | none => none

/-- Write the bytes of the stream, each with its copies. -/
def writeRun (frame : Frame) (progress : Progress) (stride : Nat) :
    (count offset x : Nat) → Words → Except BitmapError Words
  | 0, _, _, words => .ok words
  | count + 1, offset, x, words => do
    let byte ← frame.data.byte offset
    let size := words.size
    match writeCopies? progress.rowStart stride byte progress.repetitions x words with
    | some words => writeRun frame progress stride count (offset + 1) (x + 8) words
    | none => throw (progress.overflow size)

/-- Put a word into the same column of so many rows. -/
def setColumn? (wordsPerRow : Nat) (word : UInt32) : (rows index : Nat) → Words → Option Words
  | 0, _, words => some words
  | rows + 1, index, words =>
    match setWord? words index word with
    | some words => setColumn? wordsPerRow word rows (index + wordsPerRow) words
    | none => none

/-- Fill rows with the words of the stream, column after column. -/
def copyRows (frame : Frame) (progress : Progress) :
    (columns offset index : Nat) → Words → Except BitmapError Words
  | 0, _, _, words => .ok words
  | columns + 1, offset, index, words => do
    let word ← frame.data.unsigned 4 offset
    let size := words.size
    match setColumn? frame.wordsPerRow (UInt32.ofNat word) progress.repetitions index words with
    | some words => copyRows frame progress columns (offset + 4) (index + 1) words
    | none => throw (progress.overflow size)

/-- Fill the rest of a row, each word computed from the words so far. -/
def fillRow (progress : Progress) (word : Words → Nat → Except BitmapError UInt32) :
    (columns index : Nat) → Words → Except BitmapError Words
  | 0, _, words => .ok words
  | columns + 1, index, words => do
    let value ← word words index
    let size := words.size
    match setWord? words index value with
    | some words => fillRow progress word columns (index + 1) words
    | none => throw (progress.overflow size)

/-- Fill so many rows, each word computed from its row and the words so far. -/
def fillRows (frame : Frame) (progress : Progress)
    (word : Int → Words → Nat → Except BitmapError UInt32) :
    (rows : Nat) → (y : Int) → (index : Nat) → Words → Except BitmapError Words
  | 0, _, _, words => .ok words
  | rows + 1, y, index, words => do
    let words ← fillRow progress (word y) frame.wordsPerRow index words
    fillRows frame progress word rows (y + 1) (index + frame.wordsPerRow) words

/-- The word so many words before an index. -/
def wordAbove (progress : Progress) (distance : Nat) (words : Words) (index : Nat) :
    Except BitmapError UInt32 :=
  if index < distance then .error progress.missingSource
  else
    match words[index - distance]? with
    | some word => .ok word
    | none => .error (progress.overflow words.size)

/-- Fill whole rows and go to the row after them. -/
def finishRows (frame : Frame) (progress : Progress)
    (word : Int → Words → Nat → Except BitmapError UInt32) (words : Words) :
    Except BitmapError (Words × Progress) := do
  let words ←
    fillRows frame progress word progress.repetitions progress.y progress.rowStart words
  return (words, progress.advanceRows frame.wordsPerRow progress.repetitions)

/-- Do what an instruction says. -/
def execute (frame : Frame) (instruction : Instruction) (progress : Progress) (words : Words) :
    Except BitmapError (Words × Progress) :=
  match instruction with
  | .run zeros count => do
    let stride := 8 * (zeros + count)
    let words ←
      writeRun frame progress stride count progress.offset (progress.x + 8 * zeros) words
    return (words, { progress.advancePixels stride with offset := progress.offset + count })
  | .skip units => .ok (words, progress.advancePixels (128 * units))
  | .copiedRows => do
    let words ← copyRows frame progress frame.wordsPerRow progress.offset progress.rowStart words
    return (words, { progress.advanceRows frame.wordsPerRow progress.repetitions with
      offset := progress.offset + 4 * frame.wordsPerRow })
  | .whiteRows => .ok (words, progress.advanceRows frame.wordsPerRow progress.repetitions)
  | .blackRows => finishRows frame progress (fun _ _ _ => .ok 0xFFFFFFFF) words
  | .byteRows => do
    let byte ← frame.data.byte progress.offset
    finishRows frame
      { progress.remember byte with offset := progress.offset + 1 }
      (fun _ _ _ => .ok (replicate byte)) words
  | .rememberedRows =>
    finishRows frame progress
      (fun y _ _ => .ok (replicate (progress.remembered y))) words
  | .rowsAbove distance =>
    finishRows frame progress (fun _ => wordAbove progress (distance * frame.wordsPerRow)) words
  | .combine dx dy => .ok (words, { progress with dx, dy })
  | .repeatNext count => .ok (words, { progress with repetitions := count })
  | .unknown => .ok (words, progress)

/-- A word combined with itself shifted right by every multiple of so many pixels. -/
def shiftedRight (dx : Nat) (word : UInt32) : UInt32 :=
  (List.range (32 / dx)).foldl
    (fun combined index => combined ^^^ word >>> UInt32.ofNat (dx * index)) 0

/-- What a word passes on to the next one when it is shifted right. -/
def carriedOver (dx : Nat) (word : UInt32) : UInt32 :=
  (List.range (32 / dx)).foldl
    (fun combined index => combined ^^^ word <<< UInt32.ofNat (dx * index)) word

/-- A row combined with itself shifted right by every multiple of so many pixels, after words
that pass on the given pixels. -/
def combineAcross (dx : Nat) (carry : UInt32) : List UInt32 → List UInt32
  | [] => []
  | word :: rest =>
    let combined := carry ^^^ shiftedRight dx word
    combined :: combineAcross dx (combined ^^^ carriedOver dx word) rest

/-- So many words from an index on, if there are so many. -/
def slice? (words : Words) (first count : Nat) : Option (List UInt32) :=
  if first + count ≤ words.size then some (words.extract first (first + count)).toList else none

/-- Put words in place of those from an index on. -/
def overwrite (words : Words) (first : Nat) (row : List UInt32) : Words :=
  (row.foldl (fun (state : Words × Nat) word =>
    (state.1.setIfInBounds state.2 word, state.2 + 1)) (words, first)).1

/-- A finished row combined with itself. -/
def combineWithSelf (frame : Frame) (progress : Progress) (words : Words) :
    Except BitmapError Words :=
  if progress.dx = 0 then .ok words
  else
    match slice? words progress.rowStart frame.wordsPerRow with
    | some row => .ok (overwrite words progress.rowStart (combineAcross progress.dx 0 row))
    | none => .error (progress.overflow words.size)

/-- A finished row combined with a row above, if there is one so far above. -/
def combineWithAbove (frame : Frame) (progress : Progress) (words : Words) :
    Except BitmapError Words :=
  let distance := progress.dy * frame.wordsPerRow
  if progress.dy = 0 ∨ progress.y - frame.top < progress.dy then .ok words
  else if progress.rowStart < distance then .error progress.missingSource
  else
    match slice? words (progress.rowStart - distance) frame.wordsPerRow,
        slice? words progress.rowStart frame.wordsPerRow with
    | some above, some row =>
      .ok (overwrite words progress.rowStart (List.zipWith (· ^^^ ·) row above))
    | _, _ => .error (progress.overflow words.size)

/-- Combine a row built from parts as the last combining instruction says. -/
def combineRow (frame : Frame) (progress : Progress) (words : Words) :
    Except BitmapError Words := do
  combineWithAbove frame progress (← combineWithSelf frame progress words)

/-- Filling whole rows goes neither back in the stream nor up. -/
theorem le_of_finishRows {frame : Frame} {progress later : Progress} {words filled : Words}
    {word : Int → Words → Nat → Except BitmapError UInt32}
    (finished : finishRows frame progress word words = .ok (filled, later)) :
    progress.offset ≤ later.offset ∧ progress.y ≤ later.y := by
  cases rows : fillRows frame progress word progress.repetitions progress.y progress.rowStart words
    with
  | error error => simp [finishRows, rows, bind, Except.bind] at finished
  | ok words =>
    simp only [finishRows, rows, bind, Except.bind, pure, Except.pure, Except.ok.injEq,
      Prod.mk.injEq] at finished
    obtain ⟨_, rfl⟩ := finished
    simp only [Progress.advanceRows]
    omega

/-- An instruction goes neither back in the stream nor up. -/
theorem le_of_execute {frame : Frame} {instruction : Instruction}
    {progress later : Progress} {words filled : Words}
    (executed : execute frame instruction progress words = .ok (filled, later)) :
    progress.offset ≤ later.offset ∧ progress.y ≤ later.y := by
  cases instruction with
  | run zeros count =>
    cases written : writeRun frame progress (8 * (zeros + count)) count progress.offset
      (progress.x + 8 * zeros) words with
    | error error => simp [execute, written, bind, Except.bind] at executed
    | ok words =>
      simp only [execute, written, bind, Except.bind, pure, Except.pure, Except.ok.injEq,
        Prod.mk.injEq] at executed
      obtain ⟨_, rfl⟩ := executed
      simp [Progress.advancePixels]
  | copiedRows =>
    cases copied : copyRows frame progress frame.wordsPerRow progress.offset progress.rowStart
      words with
    | error error => simp [execute, copied, bind, Except.bind] at executed
    | ok words =>
      simp only [execute, copied, bind, Except.bind, pure, Except.pure, Except.ok.injEq,
        Prod.mk.injEq] at executed
      obtain ⟨_, rfl⟩ := executed
      simp only [Progress.advanceRows]
      omega
  | byteRows =>
    cases read : frame.data.byte progress.offset with
    | error error =>
      simp only [execute, read] at executed
      nomatch executed
    | ok byte =>
      simp only [execute, read] at executed
      obtain ⟨offset, row⟩ := le_of_finishRows executed
      simp only [Progress.remember] at offset row
      omega
  | whiteRows =>
    simp only [execute, Except.ok.injEq, Prod.mk.injEq] at executed
    obtain ⟨_, rfl⟩ := executed
    simp only [Progress.advanceRows]
    omega
  | blackRows => exact le_of_finishRows executed
  | rememberedRows => exact le_of_finishRows executed
  | rowsAbove distance => exact le_of_finishRows executed
  | skip units | combine dx dy | repeatNext count | unknown =>
    simp only [execute, Except.ok.injEq, Prod.mk.injEq] at executed
    obtain ⟨_, rfl⟩ := executed
    simp [Progress.advancePixels]

/-- Follow the stream to the last row or to a byte that is no instruction. -/
def run (frame : Frame) (progress : Progress) (words : Words) :
    Except BitmapError (Words × Outcome) :=
  if unfinished : progress.y < frame.bottom then
    if progress.x < 32 * frame.wordsPerRow then
      if within : progress.offset < frame.data.length then
        have := frame.data.inside
        let opcode := frame.data.file[frame.data.start + progress.offset]
        match Instruction.ofByte opcode with
        | .unknown =>
          .ok (words, .truncated (progress.y - frame.top).toNat opcode progress.offset)
        | instruction =>
          let current := { progress with
            offset := progress.offset + 1, opcode, opcodeOffset := progress.offset }
          match executed : execute frame instruction current words with
          | .error error => .error error
          | .ok (words, later) =>
            have : progress.offset + 1 ≤ later.offset ∧ progress.y ≤ later.y :=
              le_of_execute executed
            run frame later words
      else .error (.bounds (.outOfBounds progress.offset 1 frame.data.length))
    else
      match combineRow frame progress words with
      | .error error => .error error
      | .ok words => run frame (progress.advanceRows frame.wordsPerRow 1) words
  else .ok (words, .complete)
termination_by (frame.data.length - progress.offset) + (frame.bottom - progress.y).toNat
decreasing_by
  · omega
  · simp only [Progress.advanceRows]
    omega

end Decoder

/-- Decode the stream at an offset of a block over a rectangle. The raster covers the rectangle
widened to whole words. -/
def Raster.decode (data : Window) (offset : Nat) (rectangle : Rectangle) :
    Except BitmapError (Raster × Outcome) := do
  let aligned := rectangle.alignedToWords
  let blank := Raster.blank (aligned.width / 32).toNat aligned.height.toNat
  let frame : Decoder.Frame := ⟨data, aligned.top, aligned.bottom, blank.wordsPerRow⟩
  let (words, outcome) ← Decoder.run frame (.initial offset aligned.top) blank.words
  return (⟨blank.wordsPerRow, blank.height, words⟩, outcome)

end HyperCard
