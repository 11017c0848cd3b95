import HyperCard.Block.Card

/-!
# Tables of text styles and of fonts

Runs of styled text refer to an entry of the table of styles by its number, and styles refer to
an entry of the table of fonts. An attribute of a style may be absent, which minus one stands
for, and then the text keeps that of its field. Entries of the table of fonts begin at even
offsets.
-/
namespace HyperCard

/-- The faces of a text. -/
structure TextStyle where
  /-- Bold. -/
  bold : Bool
  /-- Slanted. -/
  italic : Bool
  /-- Underlined. -/
  underline : Bool
  /-- Outlined. -/
  outline : Bool
  /-- With a shadow. -/
  shadow : Bool
  /-- Closer together. -/
  condense : Bool
  /-- Further apart. -/
  extend : Bool
  /-- Grouped, so that a click finds all of it. -/
  group : Bool
  deriving DecidableEq, Repr

/-- The faces that a byte stands for, the lowest bit first. -/
def TextStyle.ofFlags (flags : Nat) : TextStyle :=
  ⟨flags.testBit 0, flags.testBit 1, flags.testBit 2, flags.testBit 3, flags.testBit 4,
    flags.testBit 5, flags.testBit 6, flags.testBit 7⟩

/-- An entry of the table of styles. -/
structure StyleEntry where
  /-- The number that text refers to. -/
  number : Nat
  /-- The number of runs of text with the style. -/
  runCount : Nat
  /-- The font. -/
  fontFamilyId : Option Int
  /-- The faces. -/
  style : Option TextStyle
  /-- The size. -/
  size : Option Int
  deriving DecidableEq, Repr

/-- The table of text styles. -/
structure StyleTable where
  /-- The identifier. -/
  identifier : Int
  /-- The number of the next new style. -/
  nextStyleNumber : Nat
  /-- The styles in order. -/
  styles : List StyleEntry
  deriving DecidableEq, Repr

namespace StyleTable

/-- The number of bytes of an entry. -/
def entrySize : Nat := 0x18

/-- An attribute, for which minus one stands for none. -/
def present (value : Int) : Option Int := if value = -1 then none else some value

/-- The entry at an offset; the faces are in the higher byte of their two. -/
def readEntry (data : Window) (offset : Nat) : Except ReadError StyleEntry := do
  let flags ← data.signed 2 (offset + 0x0E)
  return {
    number := ← data.unsigned 4 offset
    runCount := ← data.unsigned 2 (offset + 0x06)
    fontFamilyId := present (← data.signed 2 (offset + 0x0C))
    style := (present flags).map fun flags => .ofFlags (flags / 256 % 256).toNat
    size := present (← data.signed 2 (offset + 0x10)) }

/-- The table of styles of a window. -/
def read (data : Window) (version : FormatVersion) : Except ArchiveError StyleTable := do
  let count ← data.unsigned 4 (version.shift 0x10)
  let start := version.shift 0x18
  let styles ← Window.collect (fun index => readEntry data (start + entrySize * index)) 0 count
  return {
    identifier := ← data.signed 4 0x08
    nextStyleNumber := ← data.unsigned 4 (version.shift 0x14)
    styles }

/-- The first style with a number. -/
def style? (table : StyleTable) (number : Nat) : Option StyleEntry :=
  table.styles.find? (·.number == number)

end StyleTable

/-- An entry of the table of fonts. -/
structure FontEntry where
  /-- The identifier that styles refer to. -/
  identifier : Nat
  /-- The name. -/
  name : RomanString
  deriving DecidableEq, Repr

/-- The table of fonts. -/
structure FontTable where
  /-- The identifier. -/
  identifier : Int
  /-- The fonts in order. -/
  fonts : List FontEntry
  deriving DecidableEq, Repr

namespace FontTable

/-- So many fonts from an offset on. -/
def readFonts (data : Window) : (count offset : Nat) → Except ReadError (List FontEntry)
  | 0, _ => .ok []
  | count + 1, offset => do
    let identifier ← data.unsigned 2 offset
    let name ← data.text (offset + 2)
    let next := LayerBlock.roundUpToEven (offset + 2 + name.length + 1)
    return { identifier, name } :: (← readFonts data count next)

/-- The table of fonts of a window. -/
def read (data : Window) (version : FormatVersion) : Except ArchiveError FontTable := do
  let count ← data.unsigned 4 (version.shift 0x10)
  let fonts ← readFonts data count (version.shift 0x18)
  return { identifier := ← data.signed 4 0x08, fonts }

/-- The first font with an identifier. -/
def font? (table : FontTable) (identifier : Nat) : Option FontEntry :=
  table.fonts.find? (·.identifier == identifier)

end FontTable
end HyperCard
