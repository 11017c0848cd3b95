import HyperCard.Archive.File
import HyperCard.Report.Json

/-!
# The summary of a stack

What a stack file holds, as a JSON object: the fields of its stack block, how many blocks of
each type its directory has, and how many cards, backgrounds, fonts and styles.
-/
namespace HyperCard

/-- A rectangle as an object. -/
def Rectangle.report (rectangle : Rectangle) : Json :=
  .object [("top", .number rectangle.top), ("left", .number rectangle.left),
    ("bottom", .number rectangle.bottom), ("right", .number rectangle.right)]

/-- The protection of a stack as an object. -/
def Protection.report (protection : Protection) : Json :=
  .object [("cant_abort", .boolean protection.cantAbort),
    ("cant_delete", .boolean protection.cantDelete),
    ("cant_modify", .boolean protection.cantModify),
    ("cant_peek", .boolean protection.cantPeek),
    ("private_access", .boolean protection.privateAccess)]

/-- The versions of the program as an object. -/
def ProgramVersions.report (versions : ProgramVersions) : Json :=
  .object [("at_creation", .ofOption .natural versions.atCreation),
    ("at_last_compacting", .ofOption .natural versions.atLastCompacting),
    ("at_last_modification_since_compacting",
      .ofOption .natural versions.atLastModificationSinceCompacting),
    ("at_last_modification", .ofOption .natural versions.atLastModification)]

/-- Unused bytes as an object. -/
def FreeLocation.report (location : FreeLocation) : Json :=
  .object [("offset", .natural location.offset), ("size", .natural location.size)]

/-- The fields of a stack block in order, the script apart. -/
def StackBlock.report (block : StackBlock) : List (String × Json) :=
  [("version", .string block.version.name), ("format", .natural block.format),
    ("total_size", .natural block.totalSize), ("stack_size", .natural block.stackSize),
    ("background_count", .natural block.backgroundCount),
    ("first_background_id", .number block.firstBackgroundId),
    ("card_count", .natural block.cardCount), ("first_card_id", .number block.firstCardId),
    ("list_id", .number block.listId), ("free_count", .natural block.freeCount),
    ("free_size", .natural block.freeSize), ("print_block_id", .number block.printBlockId),
    ("password_hash", .ofOption .natural block.passwordHash),
    ("user_level", .string block.userLevel.name), ("protection", block.protection.report),
    ("versions", block.versions.report), ("checksum", .natural block.checksum.toNat),
    ("marked_card_count", .natural block.markedCardCount),
    ("window_rectangle", block.windowRectangle.report),
    ("screen_rectangle", block.screenRectangle.report),
    ("font_block_id", .ofOption .number block.fontBlockId),
    ("style_block_id", .ofOption .number block.styleBlockId),
    ("card_width", .natural block.cardWidth), ("card_height", .natural block.cardHeight),
    ("patterns", .array (block.patterns.map fun rows =>
      .array (rows.map fun row => .natural row.toNat))),
    ("free_locations", .array (block.freeLocations.map (·.report)))]

/-- How often each text occurs, in the order of the texts. -/
def tally (texts : List String) : List (String × Nat) :=
  texts.foldl count []
where
  /-- Count one more occurrence of a text. -/
  count : List (String × Nat) → String → List (String × Nat)
    | [], text => [(text, 1)]
    | (first, occurrences) :: later, text =>
      if text = first then (first, occurrences + 1) :: later
      else if text < first then (text, 1) :: (first, occurrences) :: later
      else (first, occurrences) :: count later text

/-- The summary of a file with the given name. -/
def StackFile.summary (file : StackFile) (name : String) : Request Json := do
  let blocks ← file.blocks
  let cards ← file.cardReferences
  let backgrounds ← file.backgrounds
  let fonts ← file.fontTable
  let styles ← file.styleTable
  return .object [("file", .string name), ("stack", .object file.stack.report),
    ("directory_records", .natural file.records.length),
    ("blocks", .object ((tally (blocks.map (·.tag.text))).map fun (tag, occurrences) =>
      (tag, .natural occurrences))),
    ("cards", .natural cards.length), ("backgrounds", .natural backgrounds.length),
    ("fonts", .array (fonts.elim [] fun table =>
      table.fonts.map fun font => .string font.name.decode)),
    ("styles", .natural (styles.elim 0 (·.styles.length)))]

end HyperCard
