import HyperCard.Block.Table
import HyperCard.Proofs.Block.Layer

/-!
# Laying out tables of styles and of fonts

How the block of a table is put together: a header, the number of entries, a word, and the entries.
A style has 24 bytes, with minus one in the place of an attribute that it lacks; its faces stand in
the higher byte of their two, so no faces are taken for none. A font has as many bytes as its name
needs, and is followed by one more where it ends at an odd offset. Either table is read as what was
laid out, in both generations, and a lookup gives the first entry with its number.
-/
namespace HyperCard

open Window (bigEndian length_bigEndian signedWord length_signedWord signedHalf length_signedHalf)

namespace TextStyle

/-- The byte of the faces, the lowest bit first. -/
def flags (style : TextStyle) : Nat :=
  style.bold.toNat + 2 * style.italic.toNat + 4 * style.underline.toNat +
    8 * style.outline.toNat + 16 * style.shadow.toNat + 32 * style.condense.toNat +
    64 * style.extend.toNat + 128 * style.group.toNat

/-- The faces fit in one byte. -/
theorem flags_lt (style : TextStyle) : style.flags < 256 := by
  have bold := style.bold.toNat_lt
  have italic := style.italic.toNat_lt
  have underline := style.underline.toNat_lt
  have outline := style.outline.toNat_lt
  have shadow := style.shadow.toNat_lt
  have condense := style.condense.toNat_lt
  have extend := style.extend.toNat_lt
  have group := style.group.toNat_lt
  unfold flags
  omega

/-- The faces of the byte of faces. -/
theorem ofFlags_flags (style : TextStyle) : ofFlags style.flags = style := by
  obtain ⟨bold, italic, underline, outline, shadow, condense, extend, group⟩ := style
  revert bold italic underline outline shadow condense extend group
  decide +kernel

end TextStyle

/-- A font or a size: any number but minus one, which stands for none. -/
abbrev StyleAttribute := { value : Int16 // value ≠ -1 }

namespace StyleAttribute

/-- An attribute as it is stored. -/
def bytes (present : Option StyleAttribute) : List UInt8 :=
  signedHalf (present.elim (-1) Subtype.val)

/-- The number of an attribute. -/
def value (present : Option StyleAttribute) : Option Int := present.map (·.val.toInt)

end StyleAttribute

/-- Faces as they are stored. -/
def TextStyle.bytes : Option TextStyle → List UInt8
  | none => [0xFF, 0xFF]
  | some style => [UInt8.ofNat style.flags, 0]

/-- A style as it is stored. -/
structure StyleRecord where
  /-- The number that text refers to. -/
  number : UInt32
  /-- Bytes without meaning. -/
  reserved : Vector UInt8 2
  /-- The number of runs of text with the style. -/
  runCount : UInt16
  /-- Bytes without meaning. -/
  unused : Vector UInt8 4
  /-- The font. -/
  fontFamilyId : Option StyleAttribute
  /-- The faces. -/
  style : Option TextStyle
  /-- The size. -/
  size : Option StyleAttribute
  /-- Bytes without meaning. -/
  remainder : Vector UInt8 6

namespace StyleRecord

/-- The bytes of a style. -/
def bytes (record : StyleRecord) : List UInt8 :=
  bigEndian 4 record.number.toNat ++ (record.reserved.toList ++
    (bigEndian 2 record.runCount.toNat ++ (record.unused.toList ++
      (StyleAttribute.bytes record.fontFamilyId ++ (TextStyle.bytes record.style ++
        (StyleAttribute.bytes record.size ++ record.remainder.toList))))))

/-- The entry that is read. -/
def entry (record : StyleRecord) : StyleEntry where
  number := record.number.toNat
  runCount := record.runCount.toNat
  fontFamilyId := StyleAttribute.value record.fontFamilyId
  style := record.style
  size := StyleAttribute.value record.size

end StyleRecord

/-- A font as it is stored. -/
structure FontRecord where
  /-- The identifier that styles refer to. -/
  identifier : UInt16
  /-- The name. -/
  name : List UInt8
  /-- The name ends at its zero byte. -/
  readable : 0 ∉ name
  /-- The byte after a font that ends at an odd offset. -/
  filler : UInt8

namespace FontRecord

/-- The bytes of a font, without filler. -/
def bytes (record : FontRecord) : List UInt8 :=
  bigEndian 2 record.identifier.toNat ++ (record.name ++ [0])

/-- The entry that is read. -/
def entry (record : FontRecord) : FontEntry := ⟨record.identifier.toNat, ⟨record.name⟩⟩

/-- The bytes of a font that begins at an offset, up to an even one. -/
def filledFrom (record : FontRecord) (offset : Nat) : List UInt8 :=
  record.bytes ++ List.replicate ((offset + record.bytes.length) % 2) record.filler

/-- Fonts one after the other from an offset on. -/
def storedFrom : Nat → List FontRecord → List UInt8
  | _, [] => []
  | offset, record :: records =>
    record.filledFrom offset ++ storedFrom (offset + (record.filledFrom offset).length) records

end FontRecord

/-- What a table begins with. -/
structure TableFront where
  /-- The length and the type of the block. -/
  heading : Vector UInt8 8
  /-- The identifier. -/
  identifier : Int32
  /-- The field that the first generation lacks. -/
  added : Vector UInt8 4

/-- The bytes before the number of entries. -/
def TableFront.bytes (front : TableFront) (version : FormatVersion) : List UInt8 :=
  front.heading.toList ++ (signedWord front.identifier ++
    if version.isTwo then front.added.toList else [])

/-- The parts of a table of styles. -/
structure StyleLayout where
  /-- What the block begins with. -/
  front : TableFront
  /-- The number of the next new style. -/
  nextStyleNumber : UInt32
  /-- The styles in order. -/
  styles : List StyleRecord
  /-- Their number has a place in its field. -/
  counted : styles.length < 0x100000000

namespace StyleLayout

/-- The whole block. -/
def bytes (layout : StyleLayout) (version : FormatVersion) : List UInt8 :=
  layout.front.bytes version ++ (bigEndian 4 layout.styles.length ++
    (bigEndian 4 layout.nextStyleNumber.toNat ++ layout.styles.flatMap StyleRecord.bytes))

/-- The table that is read. -/
def table (layout : StyleLayout) : StyleTable where
  identifier := layout.front.identifier.toInt
  nextStyleNumber := layout.nextStyleNumber.toNat
  styles := layout.styles.map StyleRecord.entry

end StyleLayout

/-- The parts of a table of fonts. -/
structure FontLayout where
  /-- What the block begins with. -/
  front : TableFront
  /-- Bytes without meaning. -/
  reserved : Vector UInt8 4
  /-- The fonts in order. -/
  fonts : List FontRecord
  /-- Their number has a place in its field. -/
  counted : fonts.length < 0x100000000

namespace FontLayout

/-- The whole block. -/
def bytes (layout : FontLayout) (version : FormatVersion) : List UInt8 :=
  layout.front.bytes version ++ (bigEndian 4 layout.fonts.length ++
    (layout.reserved.toList ++ FontRecord.storedFrom (version.shift 0x18) layout.fonts))

/-- The table that is read. -/
def table (layout : FontLayout) : FontTable where
  identifier := layout.front.identifier.toInt
  fonts := layout.fonts.map FontRecord.entry

end FontLayout

/-- Whether an answer is the first of some entries that is wanted, or none where none is. -/
inductive IsFirst {α : Type} (wanted : α → Prop) : List α → Option α → Prop
  /-- No entry is wanted. -/
  | missing {entries : List α} (others : ∀ entry ∈ entries, ¬wanted entry) :
    IsFirst wanted entries none
  /-- The entry is wanted, and none before it. -/
  | found {before after : List α} {entry : α} (this : wanted entry)
    (earlier : ∀ other ∈ before, ¬wanted other) :
    IsFirst wanted (before ++ entry :: after) (some entry)

/-- A search from the front gives the first entry that is wanted. -/
theorem isFirst_find? {α : Type} {wanted : α → Prop} {test : α → Bool}
    (decides : ∀ entry, test entry = true ↔ wanted entry) (entries : List α) :
    IsFirst wanted entries (entries.find? test) := by
  cases answer : entries.find? test with
  | none =>
    rw [List.find?_eq_none] at answer
    exact .missing fun entry mem => (not_congr (decides entry)).mp (answer entry mem)
  | some entry =>
    obtain ⟨this, before, after, rfl, earlier⟩ := List.find?_eq_some_iff_append.mp answer
    refine .found ((decides entry).mp this) fun other mem => (not_congr (decides other)).mp ?_
    rw [Bool.not_eq_true, ← Bool.not_eq_true']
    exact earlier other mem

section Reading

variable {data : Window} {offset : Nat} {version : FormatVersion}

/-- Minus one stands for no attribute, and no attribute is minus one. -/
theorem Window.Holds.present {stored : Option StyleAttribute}
    (holds : data.Holds offset (StyleAttribute.bytes stored)) :
    ∃ number, data.signed 2 offset = .ok number ∧
      StyleTable.present number = StyleAttribute.value stored := by
  refine ⟨_, holds.half, ?_⟩
  cases stored with
  | none => rfl
  | some value =>
    have other : value.val.toInt ≠ -1 := fun same => value.property (Int16.toInt_inj.mp same)
    exact if_neg other

/-- The faces stand in the higher byte, and the lower one keeps them from being none. -/
theorem Window.Holds.faces {style : Option TextStyle}
    (holds : data.Holds offset (TextStyle.bytes style)) :
    ∃ number, data.signed 2 offset = .ok number ∧
      (StyleTable.present number).map (fun flags => TextStyle.ofFlags (flags / 256 % 256).toNat) =
        style := by
  cases style with
  | none =>
    have word : data.unsigned 2 offset = .ok 0xFFFF := holds.unsigned_eq (by decide)
    refine ⟨-1, ?_, rfl⟩
    rw [Window.signed, word]
    rfl
  | some style =>
    have small := style.flags_lt
    have byte : (UInt8.ofNat style.flags).toNat = style.flags := by
      rw [UInt8.toNat_ofNat']
      omega
    have number : Window.naturalOf (TextStyle.bytes (some style)) = 256 * style.flags := by
      show 256 * (256 * 0 + (UInt8.ofNat style.flags).toNat) + 0 = _
      rw [byte]
      omega
    have word : data.unsigned 2 offset = .ok (256 * style.flags) :=
      (holds.unsigned_eq (List.cons_ne_nil _ _)).trans (congrArg Except.ok number)
    have higher : Window.twosComplement 2 (256 * style.flags) ≠ -1 ∧
        (Window.twosComplement 2 (256 * style.flags) / 256 % 256).toNat = style.flags := by
      have modulus : Nat.pow 256 2 = 65536 := rfl
      unfold Window.twosComplement
      rw [modulus]
      dsimp only
      split <;> omega
    refine ⟨Window.twosComplement 2 (256 * style.flags), ?_, ?_⟩
    · rw [Window.signed, word]
      rfl
    · rw [StyleTable.present, if_neg higher.1, Option.map_some, higher.2, style.ofFlags_flags]

/-- The faces take two bytes, whether they are given or not. -/
theorem TextStyle.length_bytes (style : Option TextStyle) : (bytes style).length = 2 := by
  cases style <;> rfl

/-- So does a font or a size. -/
theorem StyleAttribute.length_bytes (stored : Option StyleAttribute) : (bytes stored).length = 2 :=
  length_signedHalf _

/-- Every style takes the same number of bytes. -/
theorem StyleRecord.length_bytes (record : StyleRecord) :
    record.bytes.length = StyleTable.entrySize := by
  simp only [bytes, List.length_append, length_bigEndian, Vector.length_toList,
    StyleAttribute.length_bytes, TextStyle.length_bytes, StyleTable.entrySize]

/-- A style that was written is read back. -/
theorem StyleTable.readEntry_eq {record : StyleRecord} (holds : data.Holds offset record.bytes) :
    readEntry data offset = .ok record.entry := by
  obtain ⟨number, rest⟩ := holds.append
  obtain ⟨_, rest⟩ := rest.append
  obtain ⟨runCount, rest⟩ := rest.append
  obtain ⟨_, rest⟩ := rest.append
  obtain ⟨fontFamilyId, rest⟩ := rest.append
  obtain ⟨style, rest⟩ := rest.append
  obtain ⟨size, _⟩ := rest.append
  simp only [length_bigEndian, Vector.length_toList, StyleAttribute.length_bytes,
    TextStyle.length_bytes, Nat.add_assoc, Nat.reduceAdd] at runCount fontFamilyId style size
  obtain ⟨font, readFont, fontValue⟩ := fontFamilyId.present
  obtain ⟨faces, readFaces, styleValue⟩ := style.faces
  obtain ⟨points, readSize, sizeValue⟩ := size.present
  simp only [readEntry, number.unsigned (by decide) record.number.toNat_lt,
    runCount.unsigned (by decide) record.runCount.toNat_lt, readFont, readFaces, readSize,
    fontValue, styleValue, sizeValue, bind, Except.bind]
  rfl

/-- Where a table begins, its identifier stands behind the heading and the number of entries behind
the added field, if there is one. -/
theorem TableFront.holds {front : TableFront} {rest : List UInt8}
    (holds : data.Holds 0 (front.bytes version ++ rest)) :
    data.Holds 0x08 (signedWord front.identifier) ∧ data.Holds (version.shift 0x10) rest := by
  obtain ⟨before, behind⟩ := holds.append
  obtain ⟨identifier, _⟩ := before.append.2.append
  rw [Vector.length_toList] at identifier
  have length : 0 + (front.bytes version).length = version.shift 0x10 := by
    cases version <;>
      simp [TableFront.bytes, FormatVersion.isTwo, FormatVersion.shift, length_signedWord]
  rw [length] at behind
  exact ⟨identifier, behind⟩

/-- A table of styles that was laid out is read back. -/
theorem StyleTable.read_eq {layout : StyleLayout} (holds : data.Holds 0 (layout.bytes version)) :
    read data version = .ok layout.table := by
  obtain ⟨identifier, rest⟩ := TableFront.holds holds
  obtain ⟨count, rest⟩ := rest.append
  obtain ⟨nextStyleNumber, styles⟩ := rest.append
  rw [length_bigEndian, version.shift_add (by decide)] at nextStyleNumber styles
  rw [length_bigEndian, version.shift_add (by decide)] at styles
  have readStyles : Window.collect
      (fun index => readEntry data (version.shift 0x18 + entrySize * index)) 0
        layout.styles.length = .ok (layout.styles.map StyleRecord.entry) :=
    Window.collect_map fun index inside =>
      readEntry_eq (styles.record StyleRecord.length_bytes inside)
  simp only [read, count.unsigned (by decide) layout.counted, readStyles, identifier.signed,
    nextStyleNumber.unsigned (by decide) layout.nextStyleNumber.toNat_lt, bind, Except.bind,
    liftM_ok]
  rfl

/-- Fonts that were written are read back, each behind the filler of the one before. -/
theorem FontTable.readFonts_eq {fonts : List FontRecord}
    (holds : data.Holds offset (FontRecord.storedFrom offset fonts)) :
    readFonts data fonts.length offset = .ok (fonts.map FontRecord.entry) := by
  induction fonts generalizing offset with
  | nil => rfl
  | cons font fonts ih =>
    obtain ⟨here, later⟩ := holds.append
    obtain ⟨identifier, name⟩ := here.append.1.append
    rw [length_bigEndian] at name
    have length : font.bytes.length = 2 + font.name.length + 1 := by
      simp only [FontRecord.bytes, List.length_append, length_bigEndian, List.length_singleton,
        Nat.add_assoc]
    have next : offset + (font.filledFrom offset).length =
        LayerBlock.roundUpToEven (offset + 2 + font.name.length + 1) := by
      rw [FontRecord.filledFrom, List.length_append, List.length_replicate, length,
        LayerBlock.roundUpToEven]
      omega
    have others := ih later
    rw [next] at others
    simp only [List.length_cons, readFonts,
      identifier.unsigned (by decide) font.identifier.toNat_lt, name.text font.readable,
      RomanString.length, others, bind, Except.bind]
    rfl

/-- A table of fonts that was laid out is read back. -/
theorem FontTable.read_eq {layout : FontLayout} (holds : data.Holds 0 (layout.bytes version)) :
    read data version = .ok layout.table := by
  obtain ⟨identifier, rest⟩ := TableFront.holds holds
  obtain ⟨count, rest⟩ := rest.append
  obtain ⟨_, fonts⟩ := rest.append
  rw [length_bigEndian, Vector.length_toList, version.shift_add (by decide),
    version.shift_add (by decide)] at fonts
  simp only [read, count.unsigned (by decide) layout.counted, readFonts_eq fonts,
    identifier.signed, bind, Except.bind, liftM_ok]
  rfl

/-- **Tables are read as they were laid out.** A table of styles or of fonts, wherever its block
stands and whatever follows its entries, is read as its entries in their order, and a lookup by the
number of a style or by the identifier of a font gives the first entry that has it. -/
theorem tables_read_back (version : FormatVersion) (data : Window) :
    (∀ layout : StyleLayout, data.Holds 0 (layout.bytes version) →
      StyleTable.read data version = .ok layout.table ∧
        ∀ number, IsFirst (·.number = number) layout.table.styles (layout.table.style? number)) ∧
    ∀ layout : FontLayout, data.Holds 0 (layout.bytes version) →
      FontTable.read data version = .ok layout.table ∧
        ∀ identifier, IsFirst (·.identifier = identifier) layout.table.fonts
          (layout.table.font? identifier) := by
  refine ⟨fun layout holds => ⟨StyleTable.read_eq holds, fun number => ?_⟩,
    fun layout holds => ⟨FontTable.read_eq holds, fun identifier => ?_⟩⟩
  · exact isFirst_find? (fun entry => beq_iff_eq) layout.table.styles
  · exact isFirst_find? (fun entry => beq_iff_eq) layout.table.fonts

end Reading

/-- Two styles with one number: all faces in a font with a number below zero, and a size alone. -/
def repeatedStyles : StyleLayout where
  front := ⟨.replicate 8 0, -3, .replicate 4 0⟩
  nextStyleNumber := 9
  styles := [
    { number := 5
      reserved := .replicate 2 0
      runCount := 4
      unused := .replicate 4 0xFF
      fontFamilyId := some ⟨-2, by decide⟩
      style := some ⟨true, true, true, true, true, true, true, true⟩
      size := none
      remainder := .replicate 6 0xFF },
    { number := 5
      reserved := .replicate 2 0
      runCount := 0
      unused := .replicate 4 0
      fontFamilyId := none
      style := none
      size := some ⟨24, by decide⟩
      remainder := .replicate 6 0 }]
  counted := by decide

/-- Two fonts with one identifier, of which the first ends at an odd offset. -/
def repeatedFonts : FontLayout where
  front := ⟨.replicate 8 0, 11, .replicate 4 0⟩
  reserved := .replicate 4 0
  fonts :=
    [⟨3, [0x41, 0x42], by decide, 0xFF⟩, ⟨3, [0x43], by decide, 0⟩, ⟨0xFFFF, [], by decide, 7⟩]
  counted := by decide

/-- The tables are read in the first and in the second generation, with a byte behind each, and the
first entry with a number is found. -/
theorem tables_read_back_repeated :
    let styles := Window.ofArray (repeatedStyles.bytes .one ++ [0xEE]).toArray
    let fonts := Window.ofArray (repeatedFonts.bytes .two ++ [0xEE]).toArray
    styles.Holds 0 (repeatedStyles.bytes .one) ∧ fonts.Holds 0 (repeatedFonts.bytes .two) ∧
      StyleTable.read styles .one = .ok ⟨-3, 9, [
        ⟨5, 4, some (-2), some ⟨true, true, true, true, true, true, true, true⟩, none⟩,
        ⟨5, 0, none, none, some 24⟩]⟩ ∧
      FontTable.read fonts .two =
        .ok ⟨11, [⟨3, ⟨[0x41, 0x42]⟩⟩, ⟨3, ⟨[0x43]⟩⟩, ⟨0xFFFF, ⟨[]⟩⟩]⟩ ∧
      IsFirst (·.identifier = 3) repeatedFonts.table.fonts (some ⟨3, ⟨[0x41, 0x42]⟩⟩) := by
  intro styles fonts
  have stylesHold : styles.Holds 0 (repeatedStyles.bytes .one) := @Window.holds_ofArray _ [0xEE] []
  have fontsHold : fonts.Holds 0 (repeatedFonts.bytes .two) := @Window.holds_ofArray _ [0xEE] []
  obtain ⟨readStyles, _⟩ := (tables_read_back .one styles).1 repeatedStyles stylesHold
  obtain ⟨readFonts, first⟩ := (tables_read_back .two fonts).2 repeatedFonts fontsHold
  exact ⟨stylesHold, fontsHold, readStyles, readFonts, first 3⟩

end HyperCard
