import FieldAudit.Json.Value

/-!
Access to JSON values whose kind nobody has checked. Each access says which kinds it takes and names
the mismatch for every other kind.

A mismatch is what the program raises where it takes a value apart without looking at its kind.
-/

set_option autoImplicit false

namespace FieldAudit.Json

/-- A value of the wrong kind for what is done with it. -/
inductive Mismatch
  /-- A member is asked of a value that has none. -/
  | notSubscriptable (value : Value)
  /-- A member is asked of a list. -/
  | listSubscript
  /-- A member is asked of a text. -/
  | textSubscript
  /-- The items are asked of a value that has none. -/
  | notIterable (value : Value)
  /-- A list or an object stands where a key is needed. -/
  | notHashable (value : Value)
  deriving Repr

/-- The words for a mismatch. -/
def Mismatch.message : Mismatch → String
  | .notSubscriptable value => s!"'{value.kindName}' object is not subscriptable"
  | .listSubscript => "list indices must be integers or slices, not str"
  | .textSubscript => "string indices must be integers, not 'str'"
  | .notIterable value => s!"'{value.kindName}' object is not iterable"
  | .notHashable value => s!"unhashable type: '{value.kindName}'"

namespace Value

/-- The members of a value that is to be an object. -/
def membersOf : Value → Except Mismatch (Entries Value)
  | .object members => .ok members
  | .array _ => .error .listSubscript
  | .string _ => .error .textSubscript
  | value => .error (.notSubscriptable value)

/-- The items of a value: of a list its items, of a text its points, of an object its names. -/
def itemsOf : Value → Except Mismatch (List Value)
  | .array items => .ok items
  | .string t => .ok (t.map fun p => .string [p])
  | .object members => .ok (members.map fun member => .string member.1)
  | value => .error (.notIterable value)

/-- The value as a key; lists and objects are none. -/
def asKey : Value → Except Mismatch Value
  | .array items => .error (.notHashable (.array items))
  | .object members => .error (.notHashable (.object members))
  | value => .ok value

end Value

end FieldAudit.Json
