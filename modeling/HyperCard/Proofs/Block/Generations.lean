import HyperCard.Block.Table
import HyperCard.Picture.BitmapBlock
import HyperCard.Proofs.Bytes.Lengthening
import HyperCard.Proofs.Picture.Displacement

/-!
# Blocks in both generations

The second generation of the format has four more bytes behind the header of most blocks, and
everything behind them is the same. So a block of the first generation, with any four bytes put in
behind its header, is the same block of the second one: a picture, a table of styles or of fonts,
and a card or a background without texts, which the generations store differently. Only windows on
parts of a block stand four bytes further on.
-/
namespace HyperCard

open Window (IsLengthened StandsLater FourLater)

variable {short long : Window} {offset later : Nat}

namespace StyleTable

/-- A style is read alike where it stands four bytes further on. -/
theorem readEntry_lengthened (lengthened : IsLengthened short long)
    (four : FourLater offset later) :
    BothOrNeither Eq (readEntry short offset) (readEntry long later) := by
  refine (lengthened.signed (four.add 0x0E) 2).bind_eq fun flags => ?_
  refine (lengthened.unsigned four 4).bind_eq fun number => ?_
  refine (lengthened.unsigned (four.add 0x06) 2).bind_eq fun runCount => ?_
  refine (lengthened.signed (four.add 0x0C) 2).bind_eq fun fontFamilyId => ?_
  refine (lengthened.signed (four.add 0x10) 2).bind_eq fun size => ?_
  exact .ok rfl

/-- A table of styles is the same in both generations. -/
theorem read_lengthened (lengthened : IsLengthened short long) :
    BothOrNeither Eq (read short .one) (read long .two) := by
  have start : FourLater (FormatVersion.one.shift 0x18) (FormatVersion.two.shift 0x18) :=
    .of_shift (by decide)
  refine (lengthened.unsigned (.of_shift (by decide)) 4).lift.bind_eq fun count => ?_
  refine (BothOrNeither.collect (fun index => readEntry_lengthened lengthened
    (start.add (entrySize * index))) 0 count).lift.bind_eq fun styles => ?_
  refine lengthened.identifier.lift.bind_eq fun identifier => ?_
  refine (lengthened.unsigned (.of_shift (by decide)) 4).lift.bind_eq fun nextStyleNumber => ?_
  exact .ok rfl

end StyleTable

namespace FontTable

/-- Fonts begin at even offsets in both places. -/
theorem readFonts_lengthened (lengthened : IsLengthened short long) (count : Nat)
    (four : FourLater offset later) :
    BothOrNeither Eq (readFonts short count offset) (readFonts long count later) := by
  induction count generalizing offset later with
  | zero => exact .ok rfl
  | succ count ih =>
    refine (lengthened.unsigned four 2).bind_eq fun identifier => ?_
    refine (lengthened.text (four.add 2)).bind_eq fun name => ?_
    have next : FourLater (LayerBlock.roundUpToEven (offset + 2 + name.length + 1))
        (LayerBlock.roundUpToEven (later + 2 + name.length + 1)) := by
      obtain ⟨behind, rfl⟩ := four
      constructor <;> unfold LayerBlock.roundUpToEven <;> omega
    refine (ih next).bind_eq fun fonts => ?_
    exact .ok rfl

/-- A table of fonts is the same in both generations. -/
theorem read_lengthened (lengthened : IsLengthened short long) :
    BothOrNeither Eq (read short .one) (read long .two) := by
  refine (lengthened.unsigned (.of_shift (by decide)) 4).lift.bind_eq fun count => ?_
  refine (readFonts_lengthened lengthened count (.of_shift (by decide))).lift.bind_eq
    fun fonts => ?_
  refine lengthened.identifier.lift.bind_eq fun identifier => ?_
  exact .ok rfl

end FontTable

namespace LayerBlock

/-- Whether two layers are the same, but for where their parts and texts stand. -/
structure Corresponds (short long : Window) (left right : LayerBlock) : Prop where
  /-- The parts stand four bytes further on. -/
  parts : List.Forall₂ (StandsLater short long) left.parts right.parts
  /-- So do the texts. -/
  contents : List.Forall₂ (StandsLater short long) left.contents right.contents
  /-- All else is the same. -/
  others : right = { left with parts := right.parts, contents := right.contents }

/-- Whether a block whose parts begin at an offset has no texts, as far as it says how many. -/
def CountsNoTexts (data : Window) (partOffset : Nat) : Prop :=
  ∀ count, data.unsigned 2 (partOffset - 0x06) = .ok count → count = 0

/-- The parts of a layer are cut out of both blocks with the same sizes. -/
theorem readParts_lengthened (lengthened : IsLengthened short long) (count : Nat)
    (four : FourLater offset later) :
    BothOrNeither (List.Forall₂ (StandsLater short long)) (readParts short count offset)
      (readParts long count later) := by
  induction count generalizing offset later with
  | zero => exact .ok .nil
  | succ count ih =>
    refine (lengthened.unsigned four 2).lift.bind_eq fun size => ?_
    by_cases empty : size = 0
    · rw [if_pos empty, if_pos empty]
      exact .error
    · rw [if_neg empty, if_neg empty]
      refine (lengthened.sub four size).lift.bind fun part moved stands => ?_
      refine (ih (four.add size)).bind fun parts others stand => ?_
      exact .ok (.cons stands stand)

/-- A layer without texts is the same in both generations, but for where its parts stand. The fields
in front of the parts are counted back from them. -/
theorem read_lengthened (lengthened : IsLengthened short long) {partOffset laterParts : Nat}
    (four : FourLater partOffset laterParts) (fields : 0x1A ≤ partOffset)
    (textless : CountsNoTexts short partOffset) :
    BothOrNeither (Corresponds short long) (read short .one partOffset)
      (read long .two laterParts) := by
  refine (lengthened.unsigned (four.sub (by omega)) 2).lift.bind_eq fun partCount => ?_
  refine (lengthened.unsigned (four.sub (by omega)) 4).lift.bind_eq fun partSize => ?_
  refine (lengthened.unsigned (four.sub (by omega)) 2).and_left.lift.bind
    fun contentCount other counted => ?_
  obtain ⟨rfl, counted⟩ := counted
  obtain rfl := textless contentCount counted
  refine (lengthened.unsigned (four.sub (by omega)) 4).lift.bind_eq fun contentSize => ?_
  refine (readParts_lengthened lengthened partCount four).bind fun parts moved stand => ?_
  have nameOffset := (four.add partSize).add contentSize
  -- neither generation reads a text
  show BothOrNeither _ (liftM (short.text _) >>= _) (liftM (long.text _) >>= _)
  refine (lengthened.text nameOffset).lift.bind_eq fun name => ?_
  refine (lengthened.text ((nameOffset.add name.length).add 1)).lift.bind_eq fun script => ?_
  refine lengthened.identifier.lift.bind_eq fun identifier => ?_
  refine (lengthened.signed (.of_shift (by decide)) 4).lift.bind_eq fun bitmapId => ?_
  have flagsOffset : FourLater (FormatVersion.one.shift 0x14) (FormatVersion.two.shift 0x14) :=
    .of_shift (by decide)
  refine (lengthened.flag flagsOffset 14).lift.bind_eq fun cantDelete => ?_
  refine (lengthened.flag flagsOffset 13).lift.bind_eq fun hidePict => ?_
  refine (lengthened.flag flagsOffset 11).lift.bind_eq fun dontSearch => ?_
  refine (lengthened.unsigned (four.sub (by omega)) 2).lift.bind_eq fun nextAvailableId => ?_
  exact .ok ⟨stand, .nil, rfl⟩

end LayerBlock

/-- Whether two cards are the same, but for where their parts and texts stand. -/
structure CardBlock.Corresponds (short long : Window) (left right : CardBlock) : Prop where
  /-- The common contents are the same. -/
  layer : left.layer.Corresponds short long right.layer
  /-- All else is the same. -/
  others : right = { left with layer := right.layer }

/-- A card without texts is the same in both generations. -/
theorem CardBlock.read_lengthened (lengthened : IsLengthened short long)
    (textless : LayerBlock.CountsNoTexts short 0x32) :
    BothOrNeither (Corresponds short long) (read short .one) (read long .two) := by
  have parts : FourLater (FormatVersion.one.shift 0x36) (FormatVersion.two.shift 0x36) :=
    .of_shift (by decide)
  refine (LayerBlock.read_lengthened lengthened parts (by decide) textless).bind
    fun layer other same => ?_
  refine (lengthened.signed (.of_shift (by decide)) 4).lift.bind_eq fun pageId => ?_
  refine (lengthened.signed (.of_shift (by decide)) 4).lift.bind_eq fun backgroundId => ?_
  exact .ok ⟨same, rfl⟩

/-- Whether two backgrounds are the same, but for where their parts and texts stand. -/
structure BackgroundBlock.Corresponds (short long : Window) (left right : BackgroundBlock) :
    Prop where
  /-- The common contents are the same. -/
  layer : left.layer.Corresponds short long right.layer
  /-- All else is the same. -/
  others : right = { left with layer := right.layer }

/-- So is a background without texts. -/
theorem BackgroundBlock.read_lengthened (lengthened : IsLengthened short long)
    (textless : LayerBlock.CountsNoTexts short 0x2E) :
    BothOrNeither (Corresponds short long) (read short .one) (read long .two) := by
  have parts : FourLater (FormatVersion.one.shift 0x32) (FormatVersion.two.shift 0x32) :=
    .of_shift (by decide)
  refine (LayerBlock.read_lengthened lengthened parts (by decide) textless).bind
    fun layer other same => ?_
  refine (lengthened.unsigned (.of_shift (by decide)) 4).lift.bind_eq fun cardCount => ?_
  refine (lengthened.signed (.of_shift (by decide)) 4).lift.bind_eq fun nextBackgroundId => ?_
  refine (lengthened.signed (.of_shift (by decide)) 4).lift.bind_eq fun previousBackgroundId => ?_
  exact .ok ⟨same, rfl⟩

/-- A stream that is moved ends early exactly if it did before. -/
theorem Decoder.Displacement.outcome_eq_complete (moves : Displacement) (outcome : Outcome) :
    moves.outcome outcome = .complete ↔ outcome = .complete := by
  cases outcome with
  | complete => exact Iff.rfl
  | truncated rows opcode offset => exact iff_of_false (nomatch ·) (nomatch ·)

/-- Streams behind the header are decoded alike. -/
theorem Raster.decode_lengthened (lengthened : IsLengthened short long)
    (four : FourLater offset later) (rectangle : Rectangle) :
    BothOrNeither (fun left right => right.1 = left.1 ∧ (right.2 = .complete ↔ left.2 = .complete))
      (decode short offset rectangle) (decode long later rectangle) := by
  have longer := lengthened.length
  obtain ⟨behind, rfl⟩ := four
  have same (place : Nat) (within : offset + place < short.length) :
      long.byte (offset + 4 + place) = short.byte (offset + place) := by
    rw [Nat.add_right_comm]
    exact lengthened.byte_eq (by omega) within
  cases first : decode short offset rectangle with
  | ok decoded =>
    obtain ⟨stop, reads, _, fits⟩ := exists_readsUpTo first
    have moved := decode_other first reads fits fun place before => same place (by omega)
    rw [moved]
    exact .ok ⟨rfl, Decoder.Displacement.outcome_eq_complete _ _⟩
  | error error =>
    cases second : decode long (offset + 4) rectangle with
    | error other => exact .error
    | ok decoded =>
      obtain ⟨stop, reads, _, fits⟩ := exists_readsUpTo second
      have moved := decode_other second reads fits fun place before =>
        (same place (by omega)).symm
      rw [first] at moved
      cases moved

namespace BitmapBlock

/-- Whether two layers have the same pixels, and both or neither ended early. -/
structure SameLayer (left right : Option (Raster × Outcome)) : Prop where
  /-- The rasters are the same. -/
  raster : right.map (·.1) = left.map (·.1)
  /-- Both are complete, or neither is. -/
  complete : (right.map (·.2)).all (· = .complete) = (left.map (·.2)).all (· = .complete)

/-- Whether two pictures are the same, and both or neither are complete. -/
structure SamePicture (left right : Picture × DecodeReport) : Prop where
  /-- The pictures are the same. -/
  picture : right.1 = left.1
  /-- Both are complete, or neither is. -/
  complete : right.2.isComplete = left.2.isComplete

/-- Whether two blocks have the same picture. -/
structure Corresponds (short long : Window) (left right : BitmapBlock) : Prop where
  /-- One picture keeps the block. -/
  data : left.data = short
  /-- The other one keeps the lengthened block, and its layers begin four bytes further on. -/
  others : right = { left with data := long, dataOffset := left.dataOffset + 4 }
  /-- They are decoded to the same picture, or not decoded. -/
  decode : BothOrNeither SamePicture left.decode right.decode

/-- A layer of a picture is decoded alike four bytes further on, or is empty in both places. -/
theorem decodeLayer_lengthened (lengthened : IsLengthened short long) {left right : BitmapBlock}
    (one : left.data = short) (two : right.data = long) (four : FourLater offset later)
    (length : Nat) (rectangle : Rectangle) :
    BothOrNeither SameLayer (left.decodeLayer offset length rectangle)
      (right.decodeLayer later length rectangle) := by
  unfold decodeLayer
  by_cases empty : length = 0
  · rw [if_pos empty, if_pos empty]
    exact .ok ⟨rfl, rfl⟩
  · rw [if_neg empty, if_neg empty, one, two]
    refine (Raster.decode_lengthened lengthened four rectangle).map fun decoded moved same => ?_
    exact ⟨congrArg some same.1, decide_eq_decide.mpr same.2⟩

/-- The picture of a block is that of the lengthened block, whose layers begin four bytes later. -/
theorem decode_lengthened (lengthened : IsLengthened short long) {left right : BitmapBlock}
    (data : left.data = short) (behind : 12 ≤ left.dataOffset)
    (others : right = { left with data := long, dataOffset := left.dataOffset + 4 }) :
    BothOrNeither SamePicture left.decode right.decode := by
  have longer := lengthened.length
  have layer {offset later : Nat} := @decodeLayer_lengthened _ _ offset later lengthened left right
    data (by rw [others])
  have start : FourLater left.dataOffset right.dataOffset := ⟨behind, by rw [others]⟩
  have payload : right.hasPayload = left.hasPayload := by
    rw [hasPayload, hasPayload, others, data, longer]
    exact decide_eq_decide.mpr (Nat.add_lt_add_iff_right)
  have maskLength : right.maskLength = left.maskLength := by rw [others]
  have imageLength : right.imageLength = left.imageLength := by rw [others]
  have card : right.cardRectangle = left.cardRectangle := by rw [others]
  have mask : right.maskRectangle = left.maskRectangle := by rw [others]
  have image : right.imageRectangle = left.imageRectangle := by rw [others]
  unfold decode
  rw [payload, maskLength, imageLength, card, mask, image]
  by_cases compressed : left.hasPayload = true
  · simp only [if_pos compressed]
    refine (layer start _ _).bind fun mask moved sameMask => ?_
    refine (layer (start.add _) _ _).bind fun image displaced sameImage => ?_
    refine .ok ⟨?_, ?_⟩
    · dsimp only
      rw [sameMask.raster, sameImage.raster]
    · rw [DecodeReport.isComplete, DecodeReport.isComplete]
      exact congrArg₂ _ sameMask.complete sameImage.complete
  · simp only [if_neg compressed]
    exact .ok ⟨rfl, rfl⟩

/-- The picture of a block whose layers have given lengths. -/
def header (data : Window) (version : FormatVersion) (maskLength imageLength : Nat) :
    Except ArchiveError BitmapBlock := do
  return {
    data
    identifier := ← data.signed 4 0x08
    cardRectangle := ← data.rectangle (version.shift 0x18)
    maskRectangle := ← data.rectangle (version.shift 0x20)
    imageRectangle := ← data.rectangle (version.shift 0x28)
    maskLength
    imageLength
    dataOffset := version.shift 0x40 }

/-- Only a block with something behind its fields says how long its layers are. -/
theorem read_eq (data : Window) (version : FormatVersion) :
    read data version =
      if version.shift 0x40 < data.length then do
        let maskLength ← data.unsigned 4 (version.shift 0x38)
        let imageLength ← data.unsigned 4 (version.shift 0x3C)
        header data version maskLength imageLength
      else header data version 0 0 := rfl

/-- The fields of a picture are the same in both generations, and so is what it is decoded to. -/
theorem header_lengthened (lengthened : IsLengthened short long) (maskLength imageLength : Nat) :
    BothOrNeither (Corresponds short long) (header short .one maskLength imageLength)
      (header long .two maskLength imageLength) := by
  refine lengthened.identifier.lift.bind_eq fun identifier => ?_
  refine (lengthened.rectangle (.of_shift (by decide))).lift.bind_eq fun cardRectangle => ?_
  refine (lengthened.rectangle (.of_shift (by decide))).lift.bind_eq fun maskRectangle => ?_
  refine (lengthened.rectangle (.of_shift (by decide))).lift.bind_eq fun imageRectangle => ?_
  exact .ok ⟨rfl, rfl, decode_lengthened lengthened rfl (by dsimp only; decide) rfl⟩

/-- Both generations have a picture with lengths of its layers, or both have one without. -/
theorem read_lengthened (lengthened : IsLengthened short long) :
    BothOrNeither (Corresponds short long) (read short .one) (read long .two) := by
  have payload : FormatVersion.two.shift 0x40 < long.length ↔
      FormatVersion.one.shift 0x40 < short.length := by
    have start : FormatVersion.two.shift 0x40 = FormatVersion.one.shift 0x40 + 4 := rfl
    rw [lengthened.length, start, Nat.add_lt_add_iff_right]
  rw [read_eq, read_eq]
  by_cases compressed : FormatVersion.one.shift 0x40 < short.length
  · rw [if_pos compressed, if_pos (payload.mpr compressed)]
    refine (lengthened.unsigned (.of_shift (by decide)) 4).lift.bind_eq fun maskLength => ?_
    refine (lengthened.unsigned (.of_shift (by decide)) 4).lift.bind_eq fun imageLength => ?_
    exact header_lengthened lengthened maskLength imageLength
  · rw [if_neg compressed, if_neg fun less => compressed (payload.mp less)]
    exact header_lengthened lengthened 0 0

end BitmapBlock

/-- A block of the first generation and the same block with any four bytes behind its header, read
as one of the second generation: both fail, or both are the same picture, which is also decoded in
the same way, the same table of styles or of fonts, or the same card or background, if it has no
texts. -/
theorem Window.IsLengthened.read_alike (lengthened : IsLengthened short long) :
    BothOrNeither (BitmapBlock.Corresponds short long) (BitmapBlock.read short .one)
        (BitmapBlock.read long .two) ∧
      BothOrNeither Eq (StyleTable.read short .one) (StyleTable.read long .two) ∧
      BothOrNeither Eq (FontTable.read short .one) (FontTable.read long .two) ∧
      (LayerBlock.CountsNoTexts short 0x32 →
        BothOrNeither (CardBlock.Corresponds short long) (CardBlock.read short .one)
          (CardBlock.read long .two)) ∧
      (LayerBlock.CountsNoTexts short 0x2E →
        BothOrNeither (BackgroundBlock.Corresponds short long) (BackgroundBlock.read short .one)
          (BackgroundBlock.read long .two)) :=
  ⟨BitmapBlock.read_lengthened lengthened, StyleTable.read_lengthened lengthened,
    FontTable.read_lengthened lengthened, CardBlock.read_lengthened lengthened,
    BackgroundBlock.read_lengthened lengthened⟩

/-- A card with one part, a name and a script. -/
def earlyCard : List UInt8 :=
  [0, 0, 0, 58, 0x43, 0x41, 0x52, 0x44, 0, 0, 0, 9] ++ [0, 0, 0, 5, 0x40, 0] ++
    List.replicate 10 0 ++ [0, 0, 0, 3, 0, 0, 0, 8] ++
    [0, 1, 0, 2, 0, 0, 0, 4, 0, 0, 0, 0, 0, 0] ++ [0, 4, 0xAB, 0xCD] ++ [0x61, 0] ++ [0x62, 0]

/-- The same card with four more bytes. -/
def lateCard : List UInt8 := earlyCard.take 12 ++ [1, 2, 3, 4] ++ earlyCard.drop 12

/-- Both cards are read, and the part of the second one starts four bytes further on. -/
theorem Window.IsLengthened.read_alike_card :
    IsLengthened (.ofArray earlyCard.toArray) (.ofArray lateCard.toArray) ∧
      LayerBlock.CountsNoTexts (.ofArray earlyCard.toArray) 0x32 ∧
      ∃ left right, CardBlock.read (.ofArray earlyCard.toArray) .one = .ok left ∧
        CardBlock.read (.ofArray lateCard.toArray) .two = .ok right ∧
        left.Corresponds (.ofArray earlyCard.toArray) (.ofArray lateCard.toArray) right ∧
        left.layer.parts.map (·.start) = [0x32] ∧ right.layer.parts.map (·.start) = [0x36] := by
  have lengthened : IsLengthened (.ofArray earlyCard.toArray) (.ofArray lateCard.toArray) :=
    ⟨by decide, [1, 2, 3, 4], rfl, by decide +kernel⟩
  have textless : LayerBlock.CountsNoTexts (.ofArray earlyCard.toArray) 0x32 := by
    have none : (Window.ofArray earlyCard.toArray).unsigned 2 0x2C = .ok 0 := by decide +kernel
    intro count counted
    exact (Except.ok.inj (none.symm.trans counted)).symm
  have first : ∃ left, CardBlock.read (.ofArray earlyCard.toArray) .one = .ok left ∧
      left.layer.parts.map (·.start) = [0x32] := exists_of_check (by decide +kernel)
  have second : ∃ right, CardBlock.read (.ofArray lateCard.toArray) .two = .ok right ∧
      right.layer.parts.map (·.start) = [0x36] := exists_of_check (by decide +kernel)
  obtain ⟨left, readLeft, leftParts⟩ := first
  obtain ⟨right, readRight, rightParts⟩ := second
  have alike := (read_alike lengthened).2.2.2.1 textless
  rw [readLeft, readRight] at alike
  cases alike with
  | ok same =>
    exact ⟨lengthened, textless, left, right, readLeft, readRight, same, leftParts, rightParts⟩

end HyperCard
