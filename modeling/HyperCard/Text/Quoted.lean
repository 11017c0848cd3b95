import HyperCard.Number.Hexadecimal
import HyperCard.Text.Printable

/-!
# Quoted text

Text between quotes, with the mark that closes it, the backslash and the common controls
escaped by a letter, and every other character that is not printable written by its number in
hexadecimal. Strings stand between double quotes and single characters between single ones.
-/
namespace HyperCard.Quoted

/-- The mark around strings. -/
def doubleMark : Char := '\x22'

/-- The mark around single characters. -/
def singleMark : Char := '\x27'

/-- One character as it stands between the given quotes. -/
def escape (mark character : Char) : String :=
  match character with
  | '\x00' => "\\0"
  | '\t' => "\\t"
  | '\r' => "\\r"
  | '\n' => "\\n"
  | '\\' => "\\\\"
  | _ =>
    if character == mark then String.ofList ['\\', mark]
    else if isPrintable character then character.toString
    else "\\u\x7b" ++ Hexadecimal.digits character.toNat ++ "\x7d"

/-- A string between double quotes. -/
def ofString (text : String) : String :=
  let written :=
    text.toList.foldl (fun written character => written ++ escape doubleMark character) ""
  doubleMark.toString ++ written ++ doubleMark.toString

/-- A character between single quotes. -/
def ofChar (character : Char) : String :=
  singleMark.toString ++ escape singleMark character ++ singleMark.toString

end HyperCard.Quoted
