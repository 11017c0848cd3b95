import HyperCard.Block.Card
import HyperCard.Proofs.Bytes.Writing

/-!
# Laying out cards and backgrounds

How the block of a card or of a background is put together: a header and fixed fields, the numbers
and sizes of the parts and of the texts, then the parts, the texts, the name and the script. Nothing
but the lengths of what comes before says where a part or a text stands. In the second generation a
text that ends at an odd offset is followed by a zero byte, in the first one every text is.
-/
namespace HyperCard

open Window (bigEndian length_bigEndian signedWord length_signedWord)

namespace Window

/-- Where a window stands in its file, and what it has there. -/
def place (window : Window) : Nat × List UInt8 := (window.start, window.toList)

/-- What stands at an offset of a window, by its offset in the file. -/
def shifted (window : Window) (place : Nat × List UInt8) : Nat × List UInt8 :=
  (window.start + place.1, place.2)

end Window

/-- A part as it is stored. -/
structure PartRecord where
  /-- All bytes. -/
  bytes : List UInt8
  /-- There is a length. -/
  sized : 2 ≤ bytes.length
  /-- The first two bytes are the number of all. -/
  declares : Window.naturalOf (bytes.take 2) = bytes.length

/-- The text of a field. -/
structure ContentRecord (version : FormatVersion) where
  /-- The identifier of the field. -/
  identifier : UInt16
  /-- The text. -/
  text : List UInt8
  /-- The second generation has a place for the length, the first one ends texts with a zero. -/
  readable : if version.isTwo then text.length < 0x10000 else 0 ∉ text

/-- A text as it is stored. -/
def ContentRecord.bytes {version : FormatVersion} (record : ContentRecord version) : List UInt8 :=
  bigEndian 2 record.identifier.toNat ++
    if version.isTwo then bigEndian 2 record.text.length ++ record.text else record.text ++ [0]

/-- What comes after a text that ends at an offset. -/
def FormatVersion.filler (version : FormatVersion) (finish : Nat) : List UInt8 :=
  if version.isTwo then List.replicate (finish % 2) 0 else []

/-- Records one after the other from an offset on, each filled up where it ends. -/
def storedFrom (filler : Nat → List UInt8) : Nat → List (List UInt8) → List UInt8
  | _, [] => []
  | offset, record :: records =>
    let filled := record ++ filler (offset + record.length)
    filled ++ storedFrom filler (offset + filled.length) records

/-- The records with the offsets where they stand. -/
def placesFrom (filler : Nat → List UInt8) : Nat → List (List UInt8) → List (Nat × List UInt8)
  | _, [] => []
  | offset, record :: records =>
    let filled := record ++ filler (offset + record.length)
    (offset, record) :: placesFrom filler (offset + filled.length) records

/-- The fields that only cards or only backgrounds have. -/
inductive LayerKind
  /-- A card: bytes without meaning, its page and its background. -/
  | card (reserved : Vector UInt8 10) (pageId backgroundId : Int32)
  /-- A background: bytes without meaning, the number of its cards and its neighbours. -/
  | background (reserved : Vector UInt8 2) (cardCount : UInt32)
      (nextBackgroundId previousBackgroundId : Int32)

namespace LayerKind

/-- The bytes of these fields. -/
def bytes : LayerKind → List UInt8
  | .card reserved pageId backgroundId =>
    reserved.toList ++ (signedWord pageId ++ signedWord backgroundId)
  | .background reserved cardCount nextBackgroundId previousBackgroundId =>
    reserved.toList ++ (bigEndian 4 cardCount.toNat ++
      (signedWord nextBackgroundId ++ signedWord previousBackgroundId))

/-- Where the parts begin in the second generation. -/
def partOffset : LayerKind → Nat
  | .card _ _ _ => 0x36
  | .background _ _ _ _ => 0x32

end LayerKind

/-- The parts of the block of a card or of a background. -/
structure LayerLayout (version : FormatVersion) where
  /-- The length and the type of the block. -/
  heading : Vector UInt8 8
  /-- The identifier. -/
  identifier : Int32
  /-- The field that the first generation lacks. -/
  added : Vector UInt8 4
  /-- The picture, zero for none. -/
  bitmapId : Int32
  /-- The flags. -/
  flags : UInt16
  /-- The fields of the card or of the background. -/
  kind : LayerKind
  /-- The identifier of the next new part. -/
  nextAvailableId : UInt16
  /-- The parts. -/
  parts : List PartRecord
  /-- The texts. -/
  contents : List (ContentRecord version)
  /-- The name. -/
  name : List UInt8
  /-- The script. -/
  script : List UInt8

namespace LayerLayout

variable {version : FormatVersion} (layout : LayerLayout version)

/-- Where the parts begin. -/
def partOffset : Nat := version.shift layout.kind.partOffset

/-- The parts as they are stored. -/
def partBytes : List UInt8 :=
  storedFrom (fun _ => []) layout.partOffset (layout.parts.map PartRecord.bytes)

/-- Where the texts begin. -/
def contentOffset : Nat := layout.partOffset + layout.partBytes.length

/-- The texts as they are stored. -/
def contentBytes : List UInt8 :=
  storedFrom version.filler layout.contentOffset (layout.contents.map ContentRecord.bytes)

/-- The fixed fields in front. -/
def fields : List UInt8 :=
  layout.heading.toList ++ (signedWord layout.identifier ++
    ((if version.isTwo then layout.added.toList else []) ++
      (signedWord layout.bitmapId ++ (bigEndian 2 layout.flags.toNat ++ layout.kind.bytes))))

/-- The numbers and sizes of the parts and of the texts. -/
def counts : List UInt8 :=
  bigEndian 2 layout.parts.length ++ (bigEndian 2 layout.nextAvailableId.toNat ++
    (bigEndian 4 layout.partBytes.length ++ (bigEndian 2 layout.contents.length ++
      bigEndian 4 layout.contentBytes.length)))

/-- The whole block. -/
def bytes : List UInt8 :=
  layout.fields ++ (layout.counts ++ (layout.partBytes ++ (layout.contentBytes ++
    (layout.name ++ [0] ++ (layout.script ++ [0])))))

/-- What makes the parts fit together. -/
structure WellFormed : Prop where
  /-- The number of parts has a place in its field. -/
  partCount : layout.parts.length < 0x10000
  /-- So has the number of texts. -/
  contentCount : layout.contents.length < 0x10000
  /-- So has the number of bytes of the texts. -/
  contentSize : layout.contentBytes.length < 0x100000000
  /-- The name ends at its zero byte. -/
  name : 0 ∉ layout.name
  /-- So does the script. -/
  script : 0 ∉ layout.script

/-- Whether a layer that was read from a window is the one that was laid out there. -/
structure IsRead (data : Window) (layer : LayerBlock) : Prop where
  /-- The identifier is the same. -/
  identifier : layer.identifier = layout.identifier.toInt
  /-- Zero stands for no picture. -/
  bitmapId : layer.bitmapId = if layout.bitmapId = 0 then none else some layout.bitmapId.toInt
  /-- Bit 14 protects the layer. -/
  cantDelete : layer.cantDelete = layout.flags.toNat.testBit 14
  /-- Bit 13 hides the picture. -/
  showPict : layer.showPict = !layout.flags.toNat.testBit 13
  /-- Bit 11 keeps searches away. -/
  dontSearch : layer.dontSearch = layout.flags.toNat.testBit 11
  /-- All parts are counted. -/
  partCount : layer.partCount = layout.parts.length
  /-- The identifier of the next new part is the same. -/
  nextAvailableId : layer.nextAvailableId = layout.nextAvailableId.toNat
  /-- All bytes of the parts are counted. -/
  partSize : layer.partSize = layout.partBytes.length
  /-- All texts are counted. -/
  contentCount : layer.contentCount = layout.contents.length
  /-- All bytes of the texts are counted, the fillers included. -/
  contentSize : layer.contentSize = layout.contentBytes.length
  /-- The parts are those laid out, and stand where they were. -/
  parts : layer.parts.map Window.place =
    (placesFrom (fun _ => []) layout.partOffset
      (layout.parts.map PartRecord.bytes)).map data.shifted
  /-- So are the texts. -/
  contents : layer.contents.map Window.place =
    (placesFrom version.filler layout.contentOffset
      (layout.contents.map ContentRecord.bytes)).map data.shifted
  /-- The name is the same. -/
  name : layer.name = ⟨layout.name⟩
  /-- The script is the same. -/
  script : layer.script = ⟨layout.script⟩

/-- Whether a window reads as the card or the background that was laid out. -/
def ReadsBack (data : Window) : Prop :=
  match layout.kind with
  | .card _ pageId backgroundId => ∃ card, CardBlock.read data version = .ok card ∧
      layout.IsRead data card.layer ∧ card.pageId = pageId.toInt ∧
      card.backgroundId = backgroundId.toInt
  | .background _ cardCount nextBackgroundId previousBackgroundId => ∃ background,
      BackgroundBlock.read data version = .ok background ∧
      layout.IsRead data background.layer ∧ background.cardCount = cardCount.toNat ∧
      background.nextBackgroundId = nextBackgroundId.toInt ∧
      background.previousBackgroundId = previousBackgroundId.toInt

end LayerLayout

/-- Fields behind the header keep their distance in both generations. -/
theorem FormatVersion.shift_add (version : FormatVersion) {offset distance : Nat}
    (behind : 4 ≤ offset) :
    version.shift offset + distance = version.shift (offset + distance) := by
  cases version with
  | one => exact (Nat.sub_add_comm behind).symm
  | two => rfl

section Records

variable {data : Window} {version : FormatVersion} {offset : Nat}

/-- Where records are stored, the first one stands first and the others after its filler. -/
theorem Window.Holds.storedFrom {filler : Nat → List UInt8} {record : List UInt8}
    {records : List (List UInt8)}
    (holds : data.Holds offset (storedFrom filler offset (record :: records))) :
    data.Holds offset record ∧
      data.Holds (offset + (record ++ filler (offset + record.length)).length)
        (HyperCard.storedFrom filler
          (offset + (record ++ filler (offset + record.length)).length) records) :=
  ⟨holds.append.1.append.1, holds.append.2⟩

/-- The windows on records stand where the records were stored if the first one does and the others
do behind it. -/
theorem map_place_cons {filler : Nat → List UInt8} {window : Window} {windows : List Window}
    {record : List UInt8} {records : List (List UInt8)}
    (first : (window.start, window.toList) = (data.start + offset, record))
    (others : windows.map Window.place =
      (placesFrom filler (offset + (record ++ filler (offset + record.length)).length)
        records).map data.shifted) :
    (window :: windows).map Window.place =
      (placesFrom filler offset (record :: records)).map data.shifted := by
  rw [List.map_cons, others, placesFrom, List.map_cons]
  exact congrArg (· :: _) first

/-- Where a reader takes one record and then the others, it gives the records where they were
stored. -/
theorem exists_windows {Record Failure : Type} {bytes : Record → List UInt8}
    {filler : Nat → List UInt8} {reader : (count offset : Nat) → Except Failure (List Window)}
    (nonempty : ∀ record, 0 < (bytes record).length) (done : ∀ offset, reader 0 offset = .ok [])
    (takes : ∀ {record window windows count offset}, data.Holds offset (bytes record) →
      data.sub offset (bytes record).length = .ok window →
      reader count (offset + (bytes record ++ filler (offset + (bytes record).length)).length) =
        .ok windows →
      reader (count + 1) offset = .ok (window :: windows))
    {records : List Record}
    (holds : data.Holds offset (storedFrom filler offset (records.map bytes))) :
    ∃ windows, reader records.length offset = .ok windows ∧
      windows.map Window.place =
        (placesFrom filler offset (records.map bytes)).map data.shifted := by
  induction records generalizing offset with
  | nil => exact ⟨[], done offset, rfl⟩
  | cons record records ih =>
    obtain ⟨here, later⟩ := Window.Holds.storedFrom holds
    obtain ⟨windows, others, places⟩ := ih later
    obtain ⟨window, cut, place⟩ :=
      here.exists_cut (List.ne_nil_of_length_pos (nonempty record))
    exact ⟨window :: windows, takes here cut others, map_place_cons place places⟩

/-- Parts are read back where they were stored. -/
theorem LayerBlock.readParts_eq {parts : List PartRecord}
    (holds : data.Holds offset
      (storedFrom (fun _ => []) offset (parts.map PartRecord.bytes))) :
    ∃ windows, readParts data parts.length offset = .ok windows ∧
      windows.map Window.place =
        (placesFrom (fun _ => []) offset (parts.map PartRecord.bytes)).map data.shifted := by
  have positive : ∀ part : PartRecord, 0 < part.bytes.length := fun part =>
    Nat.lt_of_lt_of_le (by decide) part.sized
  refine exists_windows positive (fun _ => rfl) ?_ holds
  intro part window windows count offset here cut others
  rw [List.append_nil] at others
  have size : data.unsigned 2 offset = .ok part.bytes.length := by
    have sized := part.sized
    have two : (part.bytes.take 2).length = 2 := by
      rw [List.length_take]
      omega
    have first := here.part 0 2
    rw [List.drop_zero, Nat.add_zero] at first
    have number := first.unsigned_eq (List.ne_nil_of_length_pos (by omega))
    rw [two, part.declares] at number
    exact number
  rw [readParts, size]
  simp only [bind, Except.bind, liftM_ok, Nat.ne_of_gt (positive part), ↓reduceIte, cut, others]
  rfl

/-- Texts of the second generation are read back where they were stored. -/
theorem LayerBlock.readContents_eq {contents : List (ContentRecord .two)}
    (holds : data.Holds offset
      (storedFrom FormatVersion.two.filler offset (contents.map ContentRecord.bytes))) :
    ∃ windows, readContents data contents.length offset = .ok windows ∧
      windows.map Window.place =
        (placesFrom FormatVersion.two.filler offset
          (contents.map ContentRecord.bytes)).map data.shifted := by
  have length : ∀ record : ContentRecord .two, record.bytes.length = record.text.length + 4 := by
    intro record
    change (bigEndian 2 record.identifier.toNat ++
      (bigEndian 2 record.text.length ++ record.text)).length = _
    rw [List.length_append, List.length_append, length_bigEndian, length_bigEndian]
    omega
  refine exists_windows (fun record => by rw [length]; omega) (fun _ => rfl) ?_ holds
  intro record window windows count offset here cut others
  have size : data.unsigned 2 (offset + 2) = .ok record.text.length := by
    have stored : record.bytes = bigEndian 2 record.identifier.toNat ++
        (bigEndian 2 record.text.length ++ record.text) := rfl
    rw [stored] at here
    have number := here.append.2.append.1
    rw [length_bigEndian] at number
    exact number.unsigned (by decide) record.readable
  have filled : offset + (record.bytes ++
      FormatVersion.two.filler (offset + record.bytes.length)).length =
      roundUpToEven (offset + record.text.length + 4) := by
    show offset + (record.bytes ++ List.replicate _ 0).length = _
    rw [List.length_append, List.length_replicate, length, roundUpToEven]
    omega
  rw [filled] at others
  rw [length] at cut
  rw [readContents, size]
  simp only [bind, Except.bind, cut, others]
  rfl

/-- Texts of the first generation are read back where they were stored. -/
theorem LayerBlock.readTerminatedContents_eq {contents : List (ContentRecord .one)}
    (holds : data.Holds offset
      (storedFrom FormatVersion.one.filler offset (contents.map ContentRecord.bytes))) :
    ∃ windows, readTerminatedContents data contents.length offset = .ok windows ∧
      windows.map Window.place =
        (placesFrom FormatVersion.one.filler offset
          (contents.map ContentRecord.bytes)).map data.shifted := by
  have length : ∀ record : ContentRecord .one,
      record.bytes.length = 2 + record.text.length + 1 := by
    intro record
    change (bigEndian 2 record.identifier.toNat ++ (record.text ++ [0])).length = _
    rw [List.length_append, List.length_append, length_bigEndian, List.length_singleton]
    omega
  refine exists_windows (fun record => by rw [length]; omega) (fun _ => rfl) ?_ holds
  intro record window windows count offset here cut others
  have text : data.text (offset + 2) = .ok ⟨record.text⟩ := by
    have stored : record.bytes =
        bigEndian 2 record.identifier.toNat ++ (record.text ++ [0]) := rfl
    rw [stored] at here
    have terminated := here.append.2
    rw [length_bigEndian] at terminated
    exact terminated.text record.readable
  have filled : offset + (record.bytes ++
      FormatVersion.one.filler (offset + record.bytes.length)).length =
      offset + (2 + record.text.length + 1) := by
    show offset + (record.bytes ++ []).length = _
    rw [List.append_nil, length]
  rw [filled] at others
  rw [length] at cut
  rw [readTerminatedContents, text]
  simp only [bind, Except.bind, RomanString.length, cut, others]
  rfl

end Records

/-- The length of a part fits in the two bytes that declare it. -/
theorem PartRecord.length_lt (part : PartRecord) : part.bytes.length < 0x10000 := by
  have bound := Window.naturalOf_lt (part.bytes.take 2)
  have sized := part.sized
  rw [part.declares, List.length_take, Nat.min_eq_left sized] at bound
  exact bound

/-- The bytes of the parts have a place in their field whenever the parts are counted. -/
theorem length_storedParts (parts : List PartRecord) (offset : Nat) :
    (storedFrom (fun _ => []) offset (parts.map PartRecord.bytes)).length ≤
      parts.length * 0xFFFF := by
  induction parts generalizing offset with
  | nil => exact Nat.le_refl 0
  | cons part parts ih =>
    have here := part.length_lt
    have later := ih (offset + part.bytes.length)
    rw [List.map_cons, storedFrom, List.append_nil, List.length_append, List.length_cons]
    omega

namespace LayerLayout

variable {version : FormatVersion} {layout : LayerLayout version} {data : Window}

/-- The fixed fields and the counts reach up to the parts. -/
theorem length_fields : layout.fields.length + 14 = layout.partOffset := by
  unfold fields partOffset
  cases layout.kind <;> cases version <;>
    simp [LayerKind.bytes, LayerKind.partOffset, FormatVersion.shift, FormatVersion.isTwo]

/-- The counts in front of the parts take fourteen bytes. -/
theorem length_counts : layout.counts.length = 14 := by
  simp [counts]

/-- Where the fixed fields stand. -/
structure HoldsFields (layout : LayerLayout version) (data : Window) : Prop where
  /-- The identifier stands behind the heading. -/
  identifier : data.Holds 0x08 (signedWord layout.identifier)
  /-- The picture stands behind the added field, if there is one. -/
  bitmapId : data.Holds (version.shift 0x10) (signedWord layout.bitmapId)
  /-- The flags follow. -/
  flags : data.Holds (version.shift 0x14) (bigEndian 2 layout.flags.toNat)
  /-- The fields of the card or of the background follow. -/
  kind : data.Holds (version.shift 0x16) layout.kind.bytes

/-- A window that begins with a layout has the fixed fields at their offsets. -/
theorem holdsFields (holds : data.Holds 0 layout.bytes) : layout.HoldsFields data := by
  have front := holds.append.1
  unfold fields at front
  obtain ⟨_, front⟩ := front.append
  obtain ⟨identifier, front⟩ := front.append
  obtain ⟨_, front⟩ := front.append
  obtain ⟨bitmapId, front⟩ := front.append
  obtain ⟨flags, kind⟩ := front.append
  have added : (if version.isTwo then layout.added.toList else []).length = version.shift 4 := by
    cases version with
    | one => rfl
    | two => exact layout.added.length_toList
  rw [Vector.length_toList] at identifier bitmapId flags kind
  rw [length_signedWord, added] at bitmapId flags kind
  rw [length_signedWord] at flags kind
  rw [length_bigEndian] at kind
  cases version <;> exact ⟨identifier, bitmapId, flags, kind⟩

/-- Where the counts stand. -/
structure HoldsCounts (layout : LayerLayout version) (data : Window) : Prop where
  /-- The number of parts comes first. -/
  partCount : data.Holds (layout.partOffset - 0x0E) (bigEndian 2 layout.parts.length)
  /-- The identifier of the next new part follows. -/
  nextAvailableId : data.Holds (layout.partOffset - 0x0C)
    (bigEndian 2 layout.nextAvailableId.toNat)
  /-- The number of bytes of the parts follows. -/
  partSize : data.Holds (layout.partOffset - 0x0A) (bigEndian 4 layout.partBytes.length)
  /-- The number of texts follows. -/
  contentCount : data.Holds (layout.partOffset - 0x06) (bigEndian 2 layout.contents.length)
  /-- The number of bytes of the texts follows. -/
  contentSize : data.Holds (layout.partOffset - 0x04) (bigEndian 4 layout.contentBytes.length)

/-- It has the counts at their offsets, which are given from the parts backwards. -/
theorem holdsCounts (holds : data.Holds 0 layout.bytes) : layout.HoldsCounts data := by
  have fields := @length_fields version layout
  obtain ⟨partCount, rest⟩ := holds.append.2.append.1.append
  obtain ⟨nextAvailableId, rest⟩ := rest.append
  obtain ⟨partSize, rest⟩ := rest.append
  obtain ⟨contentCount, contentSize⟩ := rest.append
  simp only [length_bigEndian] at nextAvailableId partSize contentCount contentSize
  have first : 0 + layout.fields.length = layout.partOffset - 0x0E := by omega
  have second : layout.partOffset - 0x0E + 2 = layout.partOffset - 0x0C := by omega
  have third : layout.partOffset - 0x0C + 2 = layout.partOffset - 0x0A := by omega
  have fourth : layout.partOffset - 0x0A + 4 = layout.partOffset - 0x06 := by omega
  have fifth : layout.partOffset - 0x06 + 2 = layout.partOffset - 0x04 := by omega
  rw [first] at partCount nextAvailableId partSize contentCount contentSize
  rw [second] at nextAvailableId partSize contentCount contentSize
  rw [third] at partSize contentCount contentSize
  rw [fourth] at contentCount contentSize
  rw [fifth] at contentSize
  exact ⟨partCount, nextAvailableId, partSize, contentCount, contentSize⟩

/-- Where the parts, the texts, the name and the script stand. -/
structure HoldsRecords (layout : LayerLayout version) (data : Window) : Prop where
  /-- The parts come first. -/
  parts : data.Holds layout.partOffset layout.partBytes
  /-- The texts follow. -/
  contents : data.Holds layout.contentOffset layout.contentBytes
  /-- The name follows, up to its zero byte. -/
  name : data.Holds (layout.contentOffset + layout.contentBytes.length) (layout.name ++ [0])
  /-- The script comes last. -/
  script : data.Holds
    (layout.contentOffset + layout.contentBytes.length + layout.name.length + 1)
    (layout.script ++ [0])

/-- It has the parts, the texts, the name and the script, one behind the other. -/
theorem holdsRecords (holds : data.Holds 0 layout.bytes) : layout.HoldsRecords data := by
  obtain ⟨parts, rest⟩ := holds.append.2.append.2.append
  obtain ⟨contents, rest⟩ := rest.append
  obtain ⟨name, script⟩ := rest.append
  have start : 0 + layout.fields.length + layout.counts.length = layout.partOffset := by
    rw [length_counts, ← length_fields, Nat.zero_add]
  rw [start] at parts contents name script
  rw [List.length_append] at script
  exact ⟨parts, contents, name, script⟩

/-- The texts are found where they were laid out, in the format of either generation. -/
theorem exists_readContents (holds : data.Holds layout.contentOffset layout.contentBytes) :
    ∃ contents, (if version.isTwo
      then LayerBlock.readContents data layout.contents.length layout.contentOffset
      else LayerBlock.readTerminatedContents data layout.contents.length layout.contentOffset) =
        .ok contents ∧ contents.map Window.place =
      (placesFrom version.filler layout.contentOffset
        (layout.contents.map ContentRecord.bytes)).map data.shifted := by
  cases version with
  | one => exact LayerBlock.readTerminatedContents_eq holds
  | two => exact LayerBlock.readContents_eq holds

/-- The number of bytes of all parts fits in the field for it. -/
theorem WellFormed.length_partBytes_lt (wellFormed : layout.WellFormed) :
    layout.partBytes.length < 0x100000000 := by
  have bound := length_storedParts layout.parts layout.partOffset
  have counted := wellFormed.partCount
  unfold partBytes
  omega

/-- The block of a layout with some parts and texts. -/
def layerBlock (layout : LayerLayout version) (parts contents : List Window) : LayerBlock where
  identifier := layout.identifier.toInt
  bitmapId := if layout.bitmapId.toInt = 0 then none else some layout.bitmapId.toInt
  cantDelete := layout.flags.toNat.testBit 14
  showPict := !layout.flags.toNat.testBit 13
  dontSearch := layout.flags.toNat.testBit 11
  partCount := layout.parts.length
  nextAvailableId := layout.nextAvailableId.toNat
  partSize := layout.partBytes.length
  contentCount := layout.contents.length
  contentSize := layout.contentBytes.length
  parts := parts
  contents := contents
  name := ⟨layout.name⟩
  script := ⟨layout.script⟩

/-- What cards and backgrounds have in common is read back. -/
theorem WellFormed.exists_layer (wellFormed : layout.WellFormed)
    (holds : data.Holds 0 layout.bytes) :
    ∃ layer, LayerBlock.read data version layout.partOffset = .ok layer ∧
      layout.IsRead data layer := by
  have fields := holdsFields holds
  have counts := holdsCounts holds
  have records := holdsRecords holds
  obtain ⟨parts, readParts, partPlaces⟩ := LayerBlock.readParts_eq records.parts
  obtain ⟨contents, readContents, contentPlaces⟩ := exists_readContents records.contents
  have picture : layout.bitmapId.toInt = 0 ↔ layout.bitmapId = 0 :=
    @Int32.toInt_inj layout.bitmapId 0
  refine ⟨layout.layerBlock parts contents, ?_, ?_⟩
  · have small : layout.nextAvailableId.toNat < 0x10000 := layout.nextAvailableId.toNat_lt
    have flags : layout.flags.toNat < 0x10000 := layout.flags.toNat_lt
    have start : layout.partOffset + layout.partBytes.length = layout.contentOffset := rfl
    unfold LayerBlock.read
    simp only [counts.partCount.unsigned (by decide) wellFormed.partCount,
      counts.partSize.unsigned (by decide) wellFormed.length_partBytes_lt,
      counts.contentCount.unsigned (by decide) wellFormed.contentCount,
      counts.contentSize.unsigned (by decide) wellFormed.contentSize,
      counts.nextAvailableId.unsigned (by decide) small, readParts,
      fields.identifier.signed, fields.bitmapId.signed, fields.flags.flag flags, start,
      records.name.text wellFormed.name, records.script.text wellFormed.script,
      RomanString.length, bind, Except.bind, liftM_ok]
    by_cases second : version.isTwo = true
    · rw [if_pos second] at readContents ⊢
      rw [readContents]
      rfl
    · rw [if_neg second] at readContents ⊢
      rw [readContents]
      rfl
  · constructor
    case bitmapId => simp only [layerBlock, picture]
    case parts => exact partPlaces
    case contents => exact contentPlaces
    all_goals rfl

/-- A card or a background that was laid out is read back, wherever its block stands and whatever
follows its script. -/
theorem readsBack_of_holds (wellFormed : layout.WellFormed) (holds : data.Holds 0 layout.bytes) :
    layout.ReadsBack data := by
  obtain ⟨layer, read, isRead⟩ := wellFormed.exists_layer holds
  have fields := (holdsFields holds).kind
  unfold ReadsBack
  unfold partOffset at read
  cases kind : layout.kind with
  | card reserved pageId backgroundId =>
    rw [kind] at read fields
    obtain ⟨page, background⟩ := fields.append.2.append
    rw [length_signedWord, Vector.length_toList, version.shift_add (by decide),
      version.shift_add (by decide)] at background
    rw [Vector.length_toList, version.shift_add (by decide)] at page
    refine ⟨⟨layer, pageId.toInt, backgroundId.toInt⟩, ?_, isRead, rfl, rfl⟩
    unfold LayerKind.partOffset at read
    simp only [CardBlock.read, read, page.signed, background.signed, bind, Except.bind, liftM_ok]
    rfl
  | background reserved cardCount nextBackgroundId previousBackgroundId =>
    rw [kind] at read fields
    obtain ⟨count, others⟩ := fields.append.2.append
    obtain ⟨next, previous⟩ := others.append
    rw [length_signedWord, length_bigEndian, Vector.length_toList, version.shift_add (by decide),
      version.shift_add (by decide), version.shift_add (by decide)] at previous
    rw [length_bigEndian, Vector.length_toList, version.shift_add (by decide),
      version.shift_add (by decide)] at next
    rw [Vector.length_toList, version.shift_add (by decide)] at count
    have small : cardCount.toNat < 0x100000000 := cardCount.toNat_lt
    refine ⟨⟨layer, cardCount.toNat, nextBackgroundId.toInt, previousBackgroundId.toInt⟩, ?_,
      isRead, rfl, rfl, rfl⟩
    unfold LayerKind.partOffset at read
    simp only [BackgroundBlock.read, read, count.unsigned (by decide) small, next.signed,
      previous.signed, bind, Except.bind, liftM_ok]
    rfl

end LayerLayout

/-- A card whose part ends at an odd offset, as do both of its texts. -/
def oddLayout : LayerLayout .two where
  heading := .replicate 8 0
  identifier := -7
  added := .replicate 4 0
  bitmapId := 0
  flags := 0x4000
  kind := .card (.replicate 10 0xFF) 12 (-1)
  nextAvailableId := 2
  parts := [⟨[0, 3, 9], by decide, by decide⟩]
  contents := [⟨1, [0x41, 0x42], by decide⟩, ⟨2, [0x43], by decide⟩]
  name := [0x4E]
  script := []

/-- A window on the card that stands three bytes after the start of its file and has a byte more. -/
def oddWindow : Window where
  file := ([7, 7, 7] ++ oddLayout.bytes ++ [0xEE]).toArray
  start := 3
  length := oddLayout.bytes.length + 1
  inside := by decide

/-- The texts stand at even offsets but for the first one, and the card is read as it is. -/
theorem readsBack_of_holds_odd : oddLayout.WellFormed ∧ oddWindow.Holds 0 oddLayout.bytes ∧
    ∃ card, CardBlock.read oddWindow .two = .ok card ∧
      card.layer.parts.map Window.place = [(3 + 0x36, [0, 3, 9])] ∧
      card.layer.contents.map Window.place =
        [(3 + 0x39, [0, 1, 0, 2, 0x41, 0x42]), (3 + 0x40, [0, 2, 0, 1, 0x43])] ∧
      card.layer.name = ⟨[0x4E]⟩ ∧ card.backgroundId = -1 := by
  have wellFormed : oddLayout.WellFormed := by
    constructor <;> decide
  have cut : (Window.ofArray ([7, 7, 7] ++ oddLayout.bytes ++ [0xEE]).toArray).sub 3
      (oddLayout.bytes.length + 1) = .ok oddWindow := dif_pos (by decide)
  have holds : oddWindow.Holds 0 oddLayout.bytes :=
    Window.Holds.sub cut (Window.holds_ofArray [7, 7, 7]) (by decide)
  obtain ⟨card, read, isRead, _, background⟩ := LayerLayout.readsBack_of_holds wellFormed holds
  refine ⟨wellFormed, holds, card, read, isRead.parts, ?_, isRead.name, background⟩
  rw [isRead.contents]
  decide

end HyperCard
