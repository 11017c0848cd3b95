import HyperCard.Proofs.Picture.Delta

/-!
# Rows of a stream

What a stream of instructions stands for, apart from how it is decoded. A stream is a list of
pieces, each an instruction with the bytes that follow it. Rows are made one after the other. A row
that is built from parts is a list of bytes of its own, to which instructions append until it is
long enough; only then it becomes words and is combined with itself and with a row above. Whole
rows are added as they are.
-/
namespace HyperCard.RasterStream

/-- What an instruction for whole rows puts into each of them. -/
inductive Content
  /-- Words that follow the instruction. -/
  | copied (row : List UInt32)
  /-- No black pixel. -/
  | white
  /-- No white pixel. -/
  | black
  /-- One byte, which follows the instruction and is remembered. -/
  | byte (value : UInt8)
  /-- The byte remembered for the row. -/
  | remembered
  /-- What the row above has, or the row above that one. -/
  | above (between : Fin 2)
  deriving DecidableEq, Repr

/-- An instruction with the bytes that follow it. -/
inductive Piece
  /-- White bytes, then bytes that follow. -/
  | packed (zeros : Fin 16) (count : Fin 8) (data : Vector UInt8 count)
  /-- Bytes that follow, eight at a time. -/
  | literal (groups : Fin 32) (data : Vector UInt8 (8 * groups))
  /-- White bytes, sixteen at a time. -/
  | skip (units : Fin 32)
  /-- Whole rows. -/
  | rows (content : Content)
  /-- How rows built from parts are combined from now on. -/
  | delta (kind : Fin 8)
  /-- How often the next instruction for bytes or rows acts. -/
  | repeatNext (count : Fin 32)
  deriving DecidableEq, Repr

/-- The bytes of a word, the highest first. -/
def wordBytes (word : UInt32) : List UInt8 :=
  [(word >>> 24).toUInt8, (word >>> 16).toUInt8, (word >>> 8).toUInt8, word.toUInt8]

/-- Every word has four bytes. -/
theorem length_flatMap_wordBytes (row : List UInt32) :
    (row.flatMap wordBytes).length = 4 * row.length := by
  induction row with
  | nil => rfl
  | cons word row ih =>
    have four : (wordBytes word).length = 4 := rfl
    rw [List.flatMap_cons, List.length_append, four, ih, List.length_cons]
    omega

/-- The byte of an instruction for whole rows. -/
def Content.opcode : Content → UInt8
  | .copied _ => 0x80
  | .white => 0x81
  | .black => 0x82
  | .byte _ => 0x83
  | .remembered => 0x84
  | .above between => UInt8.ofNat (0x85 + between)

/-- The bytes that follow an instruction for whole rows. -/
def Content.data : Content → List UInt8
  | .copied row => row.flatMap wordBytes
  | .byte value => [value]
  | _ => []

/-- The byte of an instruction. -/
def Piece.opcode : Piece → UInt8
  | .packed zeros count _ => UInt8.ofNat (16 * count + zeros)
  | .literal groups _ => UInt8.ofNat (0xC0 + groups)
  | .skip units => UInt8.ofNat (0xE0 + units)
  | .rows content => content.opcode
  | .delta kind => UInt8.ofNat (0x88 + kind)
  | .repeatNext count => UInt8.ofNat (0xA0 + count)

/-- The bytes that follow an instruction. -/
def Piece.data : Piece → List UInt8
  | .packed _ _ data => data.toList
  | .literal _ data => data.toList
  | .rows content => content.data
  | _ => []

/-- The bytes of a piece. -/
def Piece.bytes (piece : Piece) : List UInt8 := piece.opcode :: piece.data

/-- The distances across and up that the kinds of combining have, zero for none. -/
def deltas : Vector (Nat × Nat) 8 :=
  #v[(16, 0), (0, 0), (0, 1), (0, 2), (1, 0), (1, 1), (2, 2), (8, 0)]

/-- The word of four bytes, the highest first. -/
def wordOfBytes (first second third fourth : UInt8) : UInt32 :=
  first.toUInt32 <<< 24 ||| second.toUInt32 <<< 16 ||| third.toUInt32 <<< 8 ||| fourth.toUInt32

/-- The word at a place of a row of bytes, with white beyond the last of them. -/
def wordAt (bytes : List UInt8) (index : Nat) : UInt32 :=
  wordOfBytes (bytes.getD (4 * index) 0) (bytes.getD (4 * index + 1) 0)
    (bytes.getD (4 * index + 2) 0) (bytes.getD (4 * index + 3) 0)

/-- Bytes as a row of so many words, with white beyond the last byte. -/
def rowOf (wordsPerRow : Nat) (bytes : List UInt8) : List UInt32 :=
  (List.range wordsPerRow).map (wordAt bytes)

/-- The size of a raster and its first row. -/
structure Extent where
  /-- The number of words in a row. -/
  wordsPerRow : Nat
  /-- The number of rows. -/
  height : Nat
  /-- The first row. -/
  top : Int
  deriving DecidableEq, Repr

/-- The extent of a rectangle, widened to whole words. -/
def Extent.ofRectangle (rectangle : Rectangle) : Extent :=
  let aligned := rectangle.alignedToWords
  ⟨(aligned.width / 32).toNat, aligned.height.toNat, aligned.top⟩

/-- Rows while they are made. -/
structure Draft where
  /-- The rows that are finished. -/
  rows : List (List UInt32)
  /-- The bytes of the next row. -/
  current : List UInt8
  /-- How often the next instruction acts. -/
  copies : Nat
  /-- The distance that rows are combined across, or zero. -/
  dx : Nat
  /-- The distance to the row above that rows are combined with, or zero. -/
  dy : Nat
  /-- The byte remembered for each row. -/
  history : Int → UInt8

namespace Draft

/-- Before the first instruction. Rows of no width are there from the start. -/
def initial (extent : Extent) : Draft where
  rows := if extent.wordsPerRow = 0 then List.replicate extent.height [] else []
  current := []
  copies := 1
  dx := 0
  dy := 0
  history y := if y % 2 = 0 then 0xAA else 0x55

/-- The row that comes after the finished ones. -/
def y (extent : Extent) (draft : Draft) : Int := extent.top + draft.rows.length

/-- A byte is remembered for every eighth row from the next one on, up and down. -/
def remember (extent : Extent) (value : UInt8) (draft : Draft) : Draft :=
  { draft with
    history := fun y => if y % 8 = draft.y extent % 8 then value else draft.history y }

/-- What a whole row consists of when it is the next one. -/
def wholeRow (extent : Extent) (draft : Draft) : Content → List UInt32
  | .copied row => row
  | .white => List.replicate extent.wordsPerRow 0
  | .black => List.replicate extent.wordsPerRow 0xFFFFFFFF
  | .byte value => List.replicate extent.wordsPerRow (wordOfBytes value value value value)
  | .remembered =>
    let value := draft.history (draft.y extent)
    List.replicate extent.wordsPerRow (wordOfBytes value value value value)
  | .above between => draft.rows.getD (draft.rows.length - (between + 1)) []

/-- Add so many whole rows. -/
def addRows (extent : Extent) (content : Content) : Nat → Draft → Draft
  | 0, draft => draft
  | count + 1, draft =>
    addRows extent content count
      { draft with rows := draft.rows ++ [draft.wholeRow extent content] }

/-- Append bytes to the next row, as often as the next instruction acts. -/
def append (bytes : List UInt8) (draft : Draft) : Draft :=
  { draft with
    current := draft.current ++ (List.replicate draft.copies bytes).flatten, copies := 1 }

/-- What an instruction does. -/
def perform (extent : Extent) (draft : Draft) : Piece → Draft
  | .packed zeros _ data => draft.append (List.replicate zeros 0 ++ data.toList)
  | .literal _ data => draft.append data.toList
  | .skip units => draft.append (List.replicate (16 * units) 0)
  | .rows (.byte value) =>
    { (draft.remember extent value).addRows extent (.byte value) draft.copies with copies := 1 }
  | .rows content => { draft.addRows extent content draft.copies with copies := 1 }
  | .delta kind => { draft with dx := (deltas.get kind).1, dy := (deltas.get kind).2 }
  | .repeatNext count => { draft with copies := count }

/-- A row built from parts, combined first with itself and then with the row so far above, if there
is one. -/
def combined (draft : Draft) (row : List UInt32) : List UInt32 :=
  let across := if draft.dx = 0 then row else Raster.across draft.dx row
  if draft.dy = 0 ∨ draft.rows.length < draft.dy then across
  else List.zipWith (· ^^^ ·) across (draft.rows.getD (draft.rows.length - draft.dy) [])

/-- Finish the next row if it is long enough. -/
def close (extent : Extent) (draft : Draft) : Draft :=
  if 4 * extent.wordsPerRow ≤ draft.current.length then
    { draft with
      rows := draft.rows ++ [draft.combined (rowOf extent.wordsPerRow draft.current)]
      current := []
      copies := 1 }
  else draft

/-- The rows after an instruction. -/
def step (extent : Extent) (draft : Draft) (piece : Piece) : Draft :=
  (draft.perform extent piece).close extent

/-- Whether an instruction may come next: bytes that follow it fall inside the row, and whole rows
begin where a row begins, stay inside the raster and have the rows that they repeat. -/
def Accepts (extent : Extent) (draft : Draft) : Piece → Prop
  | .packed zeros count _ =>
    count.val = 0 ∨ draft.current.length + draft.copies * (zeros + count) ≤ 4 * extent.wordsPerRow
  | .literal groups _ =>
    draft.current.length + draft.copies * (8 * groups) ≤ 4 * extent.wordsPerRow
  | .rows content =>
    draft.current = [] ∧ draft.rows.length + draft.copies ≤ extent.height ∧
      match content with
      | .copied row => row.length = extent.wordsPerRow
      | .above between => draft.copies = 0 ∨ between + 1 ≤ draft.rows.length
      | _ => True
  | _ => True

/-- Whether pieces make the rows that are missing, and no more. -/
def Completes (extent : Extent) (draft : Draft) : List Piece → Prop
  | [] => draft.rows.length = extent.height
  | piece :: rest =>
    draft.rows.length < extent.height ∧ draft.Accepts extent piece ∧
      (draft.step extent piece).Completes extent rest

instance (extent : Extent) (draft : Draft) :
    (piece : Piece) → Decidable (draft.Accepts extent piece)
  | .packed _ _ _ => inferInstanceAs (Decidable (_ ∨ _))
  | .literal _ _ => inferInstanceAs (Decidable (_ ≤ _))
  | .rows (.copied _) => inferInstanceAs (Decidable (_ ∧ _ ∧ _ = _))
  | .rows (.above _) => inferInstanceAs (Decidable (_ ∧ _ ∧ (_ ∨ _)))
  | .rows .white | .rows .black | .rows (.byte _) | .rows .remembered =>
    inferInstanceAs (Decidable (_ ∧ _ ∧ True))
  | .skip _ | .delta _ | .repeatNext _ => inferInstanceAs (Decidable True)

instance decidableCompletes (extent : Extent) :
    (stream : List Piece) → (draft : Draft) → Decidable (draft.Completes extent stream)
  | [], _ => inferInstanceAs (Decidable (_ = _))
  | piece :: rest, draft =>
    have := decidableCompletes extent rest (draft.step extent piece)
    inferInstanceAs (Decidable (_ ∧ _ ∧ _))

end Draft

/-- Whether a stream is well formed for an extent. -/
def WellFormed (extent : Extent) (stream : List Piece) : Prop :=
  (Draft.initial extent).Completes extent stream

instance (extent : Extent) (stream : List Piece) : Decidable (WellFormed extent stream) :=
  Draft.decidableCompletes extent stream (Draft.initial extent)

/-- The rows of a stream, in order. -/
def rows (extent : Extent) (stream : List Piece) : List (List UInt32) :=
  (stream.foldl (Draft.step extent) (Draft.initial extent)).rows

/-- The bytes of a stream. -/
def bytes (stream : List Piece) : List UInt8 := stream.flatMap Piece.bytes

end HyperCard.RasterStream
