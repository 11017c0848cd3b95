import HyperCard.Proofs.Bytes.Window
import HyperCard.Proofs.Number.Decimal
import HyperCard.Proofs.Picture.Words

/-!
# Reading portable bitmaps

A portable bitmap begins with its two letters, the width and the height in decimal digits, each
behind separators, and one more separator. The rows follow, eight pixels a byte with the leftmost in
the highest bit, each row in whole bytes of its own. A picture that is written in this format has
the rows that its size asks for and nothing behind them, no pixel that is not there, and is read
back as its black pixels.
-/
namespace HyperCard

/-- What a portable bitmap shows. -/
structure PortableImage where
  /-- The number of columns. -/
  width : Nat
  /-- The number of rows. -/
  height : Nat
  /-- The rows from the top, where a pixel is on if it is black. -/
  rows : List (List Bool)
  deriving DecidableEq, Repr

namespace PortableImage

/-- The number of bytes of a row. -/
def rowBytes (width : Nat) : Nat := (width + 7) / 8

/-- Spaces, tabulations and ends of lines stand between the parts of the header. -/
def isSeparator (byte : UInt8) : Bool := byte == 0x20 || (0x09 ≤ byte && byte ≤ 0x0D)

/-- A number of the header, and what follows its digits. -/
def number? (bytes : List UInt8) : Option (Nat × List UInt8) :=
  let rest := bytes.dropWhile isSeparator
  let digits := rest.takeWhile Character.isDigit
  if bytes.head?.any isSeparator && !digits.isEmpty then
    some (Written.valueFrom 0 digits, rest.dropWhile Character.isDigit)
  else none

/-- The pixels of a row. -/
def pixels (width : Nat) (row : List UInt8) : List Bool :=
  (List.range width).map fun x => (row.getD (x / 8) 0).toNat.testBit (7 - x % 8)

/-- So many rows. -/
def rows? (width : Nat) : (height : Nat) → List UInt8 → Option (List (List Bool))
  | 0, _ => some []
  | height + 1, bytes =>
    if bytes.length < rowBytes width then none
    else
      (pixels width (bytes.take (rowBytes width)) :: ·) <$>
        rows? width height (bytes.drop (rowBytes width))

/-- The image of a file. -/
def read? : List UInt8 → Option PortableImage
  | 0x50 :: 0x34 :: bytes => do
    let (width, bytes) ← number? bytes
    let (height, bytes) ← number? bytes
    match bytes with
    | [] => none
    | separator :: raster =>
      if isSeparator separator then (⟨width, height, ·⟩) <$> rows? width height raster else none
  | _ => none

/-- What a file begins with. -/
def header (width height : Nat) : List UInt8 :=
  [0x50, 0x34, 0x0A] ++ Written.decimal width ++ [0x20] ++ Written.decimal height ++ [0x0A]

end PortableImage

section Text

/-- The bytes of an array in order. -/
theorem toList_eq_data (bytes : ByteArray) : bytes.toList = bytes.data.toList := by
  have loop : ∀ (left index : Nat) (read : List UInt8), index + left = bytes.size →
      ByteArray.toList.loop bytes index read = read.reverse ++ bytes.data.toList.drop index := by
    intro left
    induction left with
    | zero =>
      intro index read all
      have none : bytes.data.toList.drop index = [] :=
        List.drop_eq_nil_of_le (Nat.le_of_eq all.symm)
      rw [ByteArray.toList.loop, if_neg (by omega), none, List.append_nil]
    | succ left ih =>
      intro index read all
      have more : index < bytes.size := by omega
      have inside : index < bytes.data.toList.length := more
      have here : bytes.get! index = bytes.data.toList[index] :=
        getElem!_pos bytes.data index more
      rw [ByteArray.toList.loop, if_pos more, ih _ _ (by omega), here, List.reverse_cons,
        List.append_assoc, List.drop_eq_getElem_cons inside]
      rfl
  exact loop bytes.size 0 [] (Nat.zero_add _)

/-- A text in ASCII has a byte for each character. -/
theorem toUTF8_ascii {text : String} (plain : ∀ character ∈ text.toList, character.toNat < 0x80) :
    text.toUTF8.toList = text.toList.map fun character => UInt8.ofNat character.toNat := by
  have bytes : ∀ characters : List Char, (∀ character ∈ characters, character.toNat < 0x80) →
      characters.flatMap String.utf8EncodeChar =
        characters.map fun character => UInt8.ofNat character.toNat := by
    intro characters
    induction characters with
    | nil => exact fun _ => rfl
    | cons character characters ih =>
      intro small
      have one : String.utf8EncodeChar character = [UInt8.ofNat character.toNat] :=
        if_pos (Nat.le_of_lt_succ (small character List.mem_cons_self))
      rw [List.flatMap_cons, one, ih fun other mem => small other (List.mem_cons_of_mem _ mem)]
      rfl
  have encoded : text.toUTF8 = (text.toList.flatMap String.utf8EncodeChar).toByteArray := by
    rw [← List.utf8Encode, ← String.toByteArray_ofList, String.ofList_toList]
    rfl
  rw [toList_eq_data, encoded, List.toList_data_toByteArray, bytes _ plain]

/-- A number in decimal digits is a text in ASCII. -/
theorem toList_toString (value : Nat) : (toString value).toList = Nat.toDigits 10 value :=
  String.toList_ofList

/-- What a portable bitmap begins with, as bytes. -/
theorem PortableImage.toUTF8_header (width height : Nat) :
    ("P4\n" ++ toString width ++ " " ++ toString height ++ "\n").toUTF8.toList =
      header width height := by
  have digits (value : Nat) {character : Char} (mem : character ∈ Nat.toDigits 10 value) :
      character.toNat < 0x80 := by
    have bounds := Written.toNat_digit mem
    omega
  have plain {text : String} (all : text.toList.all (·.toNat < 0x80) = true) {character : Char}
      (mem : character ∈ text.toList) : character.toNat < 0x80 :=
    of_decide_eq_true (List.all_eq_true.mp all character mem)
  rw [toUTF8_ascii]
  · simp only [String.toList_append, toList_toString, List.map_append]
    rfl
  · simp only [String.toList_append, toList_toString, List.mem_append]
    rintro character ((((first | mem) | space) | mem) | last)
    · exact plain (by decide) first
    · exact digits width mem
    · exact plain (by decide) space
    · exact digits height mem
    · exact plain (by decide) last

end Text

section Packing

/-- The bits of a byte are its pixels, the first in the highest bit. -/
theorem Picture.testBit_packedByte (isBlack : Nat → Bool) {bit : Nat} (less : bit < 8) :
    (packedByte isBlack).toNat.testBit (7 - bit) = isBlack bit := by
  have mask : ∀ place : Fin 8,
      ((0x80 : UInt8) >>> place.val.toUInt8).toNat = 2 ^ (7 - place.val) := by decide
  have first : ∀ count ≤ 8, ((List.range count).foldl (fun byte place =>
      if isBlack place then byte ||| 0x80 >>> place.toUInt8 else byte) (0 : UInt8)).toNat.testBit
        (7 - bit) = (decide (bit < count) && isBlack bit) := by
    intro count
    induction count with
    | zero => exact fun _ => Nat.zero_testBit _
    | succ count ih =>
      intro most
      have before := ih (Nat.le_of_succ_le most)
      rw [List.range_succ, List.foldl_append, List.foldl_cons, List.foldl_nil]
      by_cases black : isBlack count = true
      · have same : 7 - count = 7 - bit ↔ bit = count := by omega
        rw [if_pos black, UInt8.toNat_or, Nat.testBit_or, before, mask ⟨count, most⟩,
          Nat.testBit_two_pow]
        by_cases here : bit = count
        · simp [here, black]
        · have further : bit < count + 1 ↔ bit < count := by omega
          simp [same, here, further]
      · rw [if_neg black, before]
        by_cases here : bit = count
        · simp [here, black]
        · have further : bit < count + 1 ↔ bit < count := by omega
          simp [further]
  have all := first 8 (Nat.le_refl 8)
  rw [decide_eq_true less, Bool.true_and] at all
  exact all

variable (picture : Picture) (width y : Nat)

/-- Every row has the bytes that its width needs. -/
theorem Picture.length_portableRow :
    (picture.portableRow width y).length = PortableImage.rowBytes width := by
  rw [portableRow, List.length_map, List.length_range]
  rfl

/-- A bit of a row is on where it belongs to a pixel that is black. -/
theorem Picture.exists_byte_portableRow {x : Nat}
    (inside : x < 8 * PortableImage.rowBytes width) :
    ∃ byte, (picture.portableRow width y)[x / 8]? = some byte ∧
      byte.toNat.testBit (7 - x % 8) =
        (decide (x < width) && decide (picture.pixel x y = .black)) := by
  have within : x / 8 < (width + 7) / 8 := by
    unfold PortableImage.rowBytes at inside
    omega
  have place : 8 * (x / 8) + x % 8 = x := Nat.div_add_mod x 8
  refine ⟨packedByte fun bit => 8 * (x / 8) + bit < width &&
    picture.pixel ((8 * (x / 8) + bit : Nat) : Int) y = .black, ?_, ?_⟩
  · rw [portableRow, List.getElem?_map, List.getElem?_range within]
    rfl
  · rw [testBit_packedByte _ (Nat.mod_lt _ (by decide)), place]

/-- The pixels of a row are read back. -/
theorem PortableImage.pixels_portableRow :
    pixels width (picture.portableRow width y) =
      (List.range width).map fun (x : Nat) => decide (picture.pixel x y = .black) := by
  apply List.map_congr_left
  intro x mem
  have inside := List.mem_range.mp mem
  obtain ⟨byte, found, bit⟩ := @Picture.exists_byte_portableRow picture width y x (by
    unfold rowBytes
    omega)
  rw [List.getD_eq_getElem?_getD, found, Option.getD_some, bit, decide_eq_true inside,
    Bool.true_and]

end Packing

namespace PortableImage

/-- A digit separates nothing. -/
theorem isSeparator_of_isDigit {byte : UInt8} (digit : Character.isDigit byte = true) :
    isSeparator byte = false := by
  have each : ∀ byte, Character.isDigit byte = true → isSeparator byte = false :=
    forall_byte (by decide)
  exact each byte digit

/-- A number of the header ends before what is no digit. -/
theorem number?_decimal (value : Nat) {separator stop : UInt8} {rest : List UInt8}
    (separates : isSeparator separator = true) (stops : Character.isDigit stop = false) :
    number? (separator :: (Written.decimal value ++ stop :: rest)) =
      some (value, stop :: rest) := by
  have digits := Written.isDigit_decimal value
  have starts : (separator :: (Written.decimal value ++ stop :: rest)).dropWhile isSeparator =
      Written.decimal value ++ stop :: rest := by
    rw [List.dropWhile_cons_of_pos separates]
    cases written : Written.decimal value with
    | nil => exact absurd written (Written.decimal_ne_nil value)
    | cons digit others =>
      have digit := digits digit (by rw [written]; exact List.mem_cons_self)
      rw [List.cons_append, List.dropWhile_cons_of_neg]
      rw [isSeparator_of_isDigit digit]
      exact Bool.false_ne_true
  have some : (Written.decimal value).isEmpty = false := by
    rw [List.isEmpty_eq_false_iff]
    exact Written.decimal_ne_nil value
  have ends : ¬Character.isDigit stop = true := by
    rw [stops]
    exact Bool.false_ne_true
  have taken : (Written.decimal value ++ stop :: rest).takeWhile Character.isDigit =
      Written.decimal value := by
    rw [List.takeWhile_append_of_pos digits, List.takeWhile_cons_of_neg ends, List.append_nil]
  have dropped : (Written.decimal value ++ stop :: rest).dropWhile Character.isDigit =
      stop :: rest := by
    rw [List.dropWhile_append_of_pos digits, List.dropWhile_cons_of_neg ends]
  simp only [number?, starts, taken, dropped, List.head?_cons, Option.any_some, separates, some,
    Bool.not_false, Bool.and_self, ↓reduceIte, Written.valueFrom_decimal]

/-- Rows of whole bytes are read one after the other. -/
theorem rows?_flatten {width : Nat} {rows : List (List UInt8)}
    (widths : ∀ row ∈ rows, row.length = rowBytes width) :
    rows? width rows.length rows.flatten = some (rows.map (pixels width)) := by
  induction rows with
  | nil => rfl
  | cons row rows ih =>
    have length := widths row List.mem_cons_self
    have others := ih fun other mem => widths other (List.mem_cons_of_mem _ mem)
    have enough : ¬(row ++ rows.flatten).length < rowBytes width := by
      rw [List.length_append]
      omega
    rw [List.flatten_cons, List.length_cons, rows?, if_neg enough, ← length, List.take_left,
      List.drop_left, others]
    rfl

/-- A file with a header and as many rows is read. -/
theorem read?_header {width : Nat} {rows : List (List UInt8)}
    (widths : ∀ row ∈ rows, row.length = rowBytes width) :
    read? (header width rows.length ++ rows.flatten) =
      some ⟨width, rows.length, rows.map (pixels width)⟩ := by
  have front : header width rows.length ++ rows.flatten =
      0x50 :: 0x34 :: (0x0A :: (Written.decimal width ++
        0x20 :: (Written.decimal rows.length ++ 0x0A :: rows.flatten))) := by
    simp [header]
  have separates : isSeparator 0x0A = true := by decide
  have first : number? (0x0A :: (Written.decimal width ++
      0x20 :: (Written.decimal rows.length ++ 0x0A :: rows.flatten))) =
      some (width, 0x20 :: (Written.decimal rows.length ++ 0x0A :: rows.flatten)) :=
    number?_decimal width separates (by decide)
  have second : number? (0x20 :: (Written.decimal rows.length ++ 0x0A :: rows.flatten)) =
      some (rows.length, 0x0A :: rows.flatten) :=
    number?_decimal rows.length (by decide) (by decide)
  rw [front, read?, first]
  simp only [bind, Option.bind, second, separates, ↓reduceIte, rows?_flatten widths]
  rfl

end PortableImage

/-- **A picture is read back from its portable bitmap.** The file begins with a header that names
the size, where a size below zero counts as zero, and the rows follow in as many bytes as they need.
A bit is on exactly where it belongs to a black pixel of the picture, so the bits that fill up a row
are off, and whoever reads the format gets the black pixels of the picture. -/
theorem portableBitmap_reads_back (picture : Picture) :
    let width := picture.width.toNat
    let height := picture.height.toNat
    let rowBytes := PortableImage.rowBytes width
    (∃ raster, picture.portableBitmap = PortableImage.header width height ++ raster ∧
      raster.length = height * rowBytes ∧
      ∀ y < height, ∀ x < 8 * rowBytes, ∃ byte, raster[y * rowBytes + x / 8]? = some byte ∧
        byte.toNat.testBit (7 - x % 8) =
          (decide (x < width) && decide (picture.pixel x y = .black))) ∧
      PortableImage.read? picture.portableBitmap = some ⟨width, height,
        (List.range height).map fun (y : Nat) => (List.range width).map fun (x : Nat) =>
          decide (picture.pixel x y = .black)⟩ := by
  intro width height rowBytes
  let rows := (List.range height).map (picture.portableRow width)
  have widths : ∀ row ∈ rows, row.length = rowBytes := by
    intro row mem
    obtain ⟨y, _, rfl⟩ := List.mem_map.mp mem
    exact picture.length_portableRow width y
  have count : rows.length = height := by
    rw [List.length_map, List.length_range]
  have written : picture.portableBitmap = PortableImage.header width height ++ rows.flatten := by
    rw [Picture.portableBitmap, PortableImage.toUTF8_header, List.flatMap_def]
  refine ⟨⟨rows.flatten, written, ?_, fun y above x within => ?_⟩, ?_⟩
  · rw [Decoder.length_flatten_rows widths, count]
  · have row : rows[y]? = some (picture.portableRow width y) := by
      rw [List.getElem?_map, List.getElem?_range above]
      rfl
    have column : x / 8 < rowBytes := by omega
    rw [Decoder.getElem?_flatten_rows widths row column]
    exact picture.exists_byte_portableRow width y within
  · have read := PortableImage.read?_header widths
    rw [count, ← written, List.map_map] at read
    rw [read]
    have pixels : PortableImage.pixels width ∘ picture.portableRow width = fun (y : Nat) =>
        (List.range width).map fun (x : Nat) => decide (picture.pixel x y = .black) :=
      funext (PortableImage.pixels_portableRow picture width)
    rw [pixels]

end HyperCard
