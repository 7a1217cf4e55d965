import FieldAudit.Json.Value
import FieldAudit.Decimal.Shortest
import FieldAudit.Text.Quoted

/-!
How messages spell JSON values. `Value.bare` shows a text without quotes, `Value.quoted` shows it as
data, and `Value.outline` shows a value that may be large: long texts lose their middle, long lists
and objects theirs, and only two levels of lists and objects are opened.

`Value.bare` is how a message shows a value, `Value.quoted` how it shows one inside another, and
`Value.outline` is how the messages of `build_client_schema` show one.
-/

set_option autoImplicit false

namespace FieldAudit.Json

/-- Texts with commas between them. -/
def commaSeparated (texts : List Text) : Text := .join ", " texts

/-- A list of spelled items. -/
def bracketed (texts : List Text) : Text := "[" ++ commaSeparated texts ++ "]"

/-- A list of spelled members. -/
def braced (texts : List Text) : Text := "\x7b" ++ commaSeparated texts ++ "\x7d"

namespace Value

mutual

/-- A value as data. -/
def quoted : Value → Text
  | .null => "None"
  | .bool true => "True"
  | .bool false => "False"
  | .int n => .ofInt n
  | .float x => Decimal.text ⟨"inf", "nan"⟩ x
  | .string t => t.quoted
  | .array items => bracketed (quotedItems items)
  | .object members => braced (quotedMembers members)

/-- Items as data. -/
def quotedItems : List Value → List Text
  | [] => []
  | item :: items => quoted item :: quotedItems items

/-- Members as data. -/
def quotedMembers : List (Text × Value) → List Text
  | [] => []
  | (name, value) :: members => (name.quoted ++ ": " ++ quoted value) :: quotedMembers members

end

/-- A value inside a sentence: a text is shown as it is. -/
def bare : Value → Text
  | .string t => t
  | value => value.quoted

/-- A text of at most 240 points as it is, a longer one with three points for its middle. -/
def shortened (t : Text) : Text :=
  if t.length ≤ 240 then t else t.take 118 ++ "..." ++ t.drop (t.length - 119)

/-- At most ten texts as they are, more with three points for all but the first five and last
four. -/
def thinned (texts : List Text) : List Text :=
  if texts.length ≤ 10 then texts
  else texts.take 5 ++ [Text.ofString "..."] ++ texts.drop (texts.length - 4)

mutual

/-- The outline of a value below `levels` further levels of lists and objects. -/
def outlineWithin (levels : Nat) : Value → Text
  | .int n => shortened (.ofInt n)
  | .string t => shortened t.quoted
  | .array [] => "[]"
  | .array (item :: items) =>
    match levels with
    | 0 => "[...]"
    | levels + 1 => bracketed (thinned (outlineItems levels (item :: items)))
  | .object [] => "\x7b\x7d"
  | .object (member :: members) =>
    match levels with
    | 0 => "\x7b...\x7d"
    | levels + 1 => braced (thinned (outlineMembers levels (member :: members)))
  | value => value.quoted

/-- The outlines of items. -/
def outlineItems (levels : Nat) : List Value → List Text
  | [] => []
  | item :: items => outlineWithin levels item :: outlineItems levels items

/-- The outlines of members. -/
def outlineMembers (levels : Nat) : List (Text × Value) → List Text
  | [] => []
  | (name, value) :: members =>
    (shortened (name.quoted) ++ ": " ++ outlineWithin levels value) ::
      outlineMembers levels members

end

/-- The outline of a value: two levels of lists and objects are opened. -/
def outline (value : Value) : Text := outlineWithin 2 value

end Value

end FieldAudit.Json
