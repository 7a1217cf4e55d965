import FieldAudit.GraphQL.Document

/-!
The walk through a document. It meets what may set the type of a selection set (an operation, a
fragment, an inline fragment, a field), and enters and leaves every selection set, in the order in
which they are written. Type-system definitions select nothing.

`walk` is the `visit` of `bind_usages`, down to the nodes at which `UsageBinder` has a method.
-/

set_option autoImplicit false

namespace FieldAudit.Usage

open GraphQL

/-- What a walk meets. -/
inductive Event
  | operation (kind : OperationKind)
  | fragment (condition : Text)
  | inline (condition? : Option Text)
  | field (name : Text)
  | enter
  | leave
  deriving DecidableEq, Repr

mutual

/-- The walk through one selection. A spread is not followed. -/
def walkSelection : Selection → List Event
  | .field _ name _ _ none => [.field name]
  | .field _ name _ _ (some selections) =>
    .field name :: .enter :: (walkSelections selections ++ [.leave])
  | .spread _ _ => []
  | .inline condition? _ selections =>
    .inline condition? :: .enter :: (walkSelections selections ++ [.leave])

/-- The walk through selections, one after the other. -/
def walkSelections : List Selection → List Event
  | [] => []
  | selection :: selections => walkSelection selection ++ walkSelections selections

end

/-- The walk through a selection set. -/
def walkSet (selections : List Selection) : List Event :=
  .enter :: (walkSelections selections ++ [.leave])

/-- The walk through a definition. -/
def walkDefinition : Definition → List Event
  | .operation op => .operation op.kind :: walkSet op.selections
  | .fragment f => .fragment f.condition :: walkSet f.selections
  | _ => []

/-- The walk through a document. -/
def walk (document : Document) : List Event := document.flatMap walkDefinition

end FieldAudit.Usage
