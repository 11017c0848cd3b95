import HyperCard.Number.Hexadecimal

/-!
# JSON text

Values of JSON whose members keep their order, and their text: one item a line, each level two
spaces further in, and nothing between the brackets of an empty list or object.
-/
namespace HyperCard

/-- A value. -/
inductive Json
  /-- The absent value. -/
  | null
  /-- A truth value. -/
  | boolean (value : Bool)
  /-- A whole number. -/
  | number (value : Int)
  /-- A text. -/
  | string (value : String)
  /-- Values in order. -/
  | array (items : List Json)
  /-- Values by name, in order. -/
  | object (members : List (String × Json))
  deriving Inhabited

namespace Json

/-- A natural number. -/
def natural (value : Nat) : Json := .number value

/-- A value that may be absent. -/
def ofOption {α : Type} (encode : α → Json) (value : Option α) : Json := value.elim .null encode

/-- A character of a text. Marks and controls are escaped. -/
def escape (character : Char) : String :=
  match character with
  | '\x22' => "\\\""
  | '\\' => "\\\\"
  | '\x08' => "\\b"
  | '\x0C' => "\\f"
  | '\n' => "\\n"
  | '\r' => "\\r"
  | '\t' => "\\t"
  | _ =>
    if character.val < 0x20 then "\\u" ++ Hexadecimal.padded 4 character.toNat
    else character.toString

/-- A text between its marks. -/
def quote (text : String) : String :=
  "\"" ++ text.toList.foldl (fun written character => written ++ escape character) "" ++ "\""

/-- The start of a line so many levels in. -/
def margin (depth : Nat) : String := String.ofList ('\n' :: List.replicate (2 * depth) ' ')

/-- Lines between brackets, with commas between them. -/
def enclose (opening closing : String) (depth : Nat) (lines : List String) : String :=
  if lines.isEmpty then opening ++ closing
  else
    opening ++ margin (depth + 1) ++ (("," ++ margin (depth + 1)).intercalate lines) ++
      margin depth ++ closing

mutual

/-- The text of a value so many levels in. -/
def renderAt (depth : Nat) : Json → String
  | .null => "null"
  | .boolean value => if value then "true" else "false"
  | .number value => toString value
  | .string value => quote value
  | .array items => enclose "[" "]" depth (renderItems (depth + 1) items)
  | .object members => enclose "\x7b" "\x7d" depth (renderMembers (depth + 1) members)

/-- The texts of the items of a list. -/
def renderItems (depth : Nat) : List Json → List String
  | [] => []
  | item :: items => renderAt depth item :: renderItems depth items

/-- The texts of the members of an object. -/
def renderMembers (depth : Nat) : List (String × Json) → List String
  | [] => []
  | (name, value) :: members =>
    (quote name ++ ": " ++ renderAt depth value) :: renderMembers depth members

end

/-- The text of a value. -/
def render (value : Json) : String := renderAt 0 value

end Json
end HyperCard
