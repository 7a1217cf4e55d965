import FieldAudit.Json.Value
import FieldAudit.Decimal.Shortest
import FieldAudit.Text.Hex

/-!
Writing JSON text: two spaces of indentation per level, one item or member a line, a colon and a
space after a name, and no space inside an empty list or object. Points are written as they are,
except the quote, the backslash and the controls below U+0020. The text is written stroke by stroke;
a stroke is written whole or not at all.

`render` is the `json.dump` of `OutputManager.write_report`, and a stroke is one of its calls of
`write`.
-/

set_option autoImplicit false

namespace FieldAudit.Json

/-- One point inside the quotes. -/
def escapePoint (p : Point) : Text :=
  if p = '\x22' then ['\\', '\x22']
  else if p = '\\' then ['\\', '\\']
  else if p = '\n' then ['\\', 'n']
  else if p = '\r' then ['\\', 'r']
  else if p = '\t' then ['\\', 't']
  else if p = '\x08' then ['\\', 'b']
  else if p = '\x0c' then ['\\', 'f']
  else if p.code < 0x20 then '\\' :: 'u' :: Text.hex 4 p.code
  else [p]

/-- A text in quotes. -/
def writeText (t : Text) : Text := '\x22' :: (t.flatMap escapePoint ++ "\x22")

/-- The words for the numbers that have no digits. -/
def numberWords : Decimal.SpecialWords := ⟨"Infinity", "NaN"⟩

/-- A line break and the indentation of a level. -/
def indentation (level : Nat) : Text := '\n' :: List.replicate (2 * level) ' '

/-- A value without parts: neither a list nor an object that holds something. -/
def plain? : Value → Option Text
  | .null => some "null"
  | .bool true => some "true"
  | .bool false => some "false"
  | .int n => some (.ofInt n)
  | .float x => some (Decimal.text numberWords x)
  | .string t => some (writeText t)
  | .array _ | .object _ => none

mutual

/-- The strokes of a value whose lines stand at a level of indentation. -/
def strokes (level : Nat) : Value → List Text
  | .array [] => ["[]"]
  | .array (item :: items) =>
    strokesOfItems (level + 1) ('[' :: indentation (level + 1)) (item :: items) ++
      [indentation level, "]"]
  | .object [] => ["\x7b\x7d"]
  | .object (member :: members) =>
    "\x7b" :: (strokesOfMembers (level + 1) (indentation (level + 1)) (member :: members) ++
      [indentation level, "\x7d"])
  | value => (plain? value).toList

/-- The strokes of items, the first of which follows a lead. An item without parts forms one stroke
with what leads to it. -/
def strokesOfItems (level : Nat) (lead : Text) : List Value → List Text
  | [] => []
  | item :: items =>
    (match plain? item with
      | some written => [lead ++ written]
      | none => lead :: strokes level item) ++
      strokesOfItems level (',' :: indentation level) items

/-- The strokes of members, the first of which follows a lead. -/
def strokesOfMembers (level : Nat) (lead : Text) : List (Text × Value) → List Text
  | [] => []
  | (name, value) :: members =>
    lead :: writeText name :: ": " ::
      (strokes level value ++ strokesOfMembers level (',' :: indentation level) members)

end

/-- The text of a value. -/
def render (value : Value) : Text := (strokes 0 value).flatten

end FieldAudit.Json
