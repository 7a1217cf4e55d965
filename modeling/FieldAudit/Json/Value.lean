import FieldAudit.Decimal.Binary64
import FieldAudit.Entries

/-!
JSON values. An object keeps its members in the order in which their names first came; whole numbers
are exact and all others are 64-bit binary floating point. Texts and names may hold halves of
surrogate pairs that stand on their own.

These are the values that `json.load` returns.
-/

set_option autoImplicit false

namespace FieldAudit.Json

/-- A JSON value. -/
inductive Value
  | null
  | bool (b : Bool)
  | int (n : Int)
  | float (x : Decimal.Binary64)
  | string (t : Text)
  | array (items : List Value)
  | object (members : List (Text × Value))
  deriving Repr, Inhabited

namespace Value

/-- A value counts as given unless it is null, false, a zero, or an empty text, list or object. -/
def isGiven : Value → Bool
  | .null => false
  | .bool b => b
  | .int n => n != 0
  | .float x => !x.isZero
  | .string t => !t.isEmpty
  | .array items => !items.isEmpty
  | .object members => !members.isEmpty

/-- Whether the value is null. -/
def isNull : Value → Bool
  | .null => true
  | _ => false

/-- The text of a text value. -/
def text? : Value → Option Text
  | .string t => some t
  | _ => none

/-- The text of a text value, if it is a string. -/
def word? : Value → Option String
  | .string t => t.word?
  | _ => none

/-- The members of an object value. -/
def members? : Value → Option (Entries Value)
  | .object members => some members
  | _ => none

/-- The member of an object under a name; null stands for a missing member. -/
def member (name : Text) (members : Entries Value) : Value :=
  (Entries.get? name members).getD .null

/-- The name that messages use for the kind of a value. -/
def kindName : Value → String
  | .null => "NoneType"
  | .bool _ => "bool"
  | .int _ => "int"
  | .float _ => "float"
  | .string _ => "str"
  | .array _ => "list"
  | .object _ => "dict"

end Value

end FieldAudit.Json
