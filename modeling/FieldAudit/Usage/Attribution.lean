import FieldAudit.Schema
import FieldAudit.Usage.Map
import FieldAudit.Usage.Walk

/-!
Attribution of selected fields to types. During a walk a stack holds the type of every selection set
that is open, and the type for the next one waits beside it: what opens a selection set has set it
just before. A field is recorded for the type of the innermost selection set, if fields can be
selected on that type.

`recordAll` is `bind_usages`, `Attribution` is the state of a `UsageBinder`, and `step` is what its
methods do at an event.
-/

set_option autoImplicit false

namespace FieldAudit.Usage

open GraphQL

/-- The type of a selection set, if the schema knows it. -/
abbrev Context := Option Text

/-- The state of a walk: the types of the open selection sets, innermost first, the type for the
next one, and what is recorded. -/
structure Attribution where
  stack : List Context
  pending : Context
  usages : UsageMap
  recorded : Nat
  deriving DecidableEq, Repr

namespace Attribution

/-- The state before a walk. -/
def start (usages : UsageMap) : Attribution := ⟨[], none, usages, 0⟩

/-- The type of the innermost selection set. -/
def current (state : Attribution) : Context := state.stack.head?.join

/-- A name as the type of a selection set. -/
def known (schema : Schema) (name : Text) : Context :=
  if (schema.type? name).isSome then some name else none

/-- The type of the innermost selection set, if fields can be selected on it. -/
def parent? (schema : Schema) (state : Attribution) : Context :=
  state.current.filter schema.isComposite

/-- What an event does to the state. -/
def step (schema : Schema) (site : Site) (state : Attribution) : Event → Attribution
  | .operation kind => { state with pending := schema.root? kind }
  | .fragment condition => { state with pending := known schema condition }
  | .inline (some condition) => { state with pending := known schema condition }
  | .inline none => { state with pending := state.current }
  | .enter => { state with stack := state.pending :: state.stack, pending := none }
  | .leave => { state with stack := state.stack.tail }
  | .field name =>
    match state.parent? schema with
    | none => { state with pending := none }
    | some type =>
      { state with
        pending := schema.fieldType? type name
        usages := state.usages.record type name site
        recorded := state.recorded + 1 }

end Attribution

/-- Records the fields that a document selects, all at one site. Gives the usages and how many were
recorded. -/
def recordAll (schema : Schema) (document : Document) (site : Site) (usages : UsageMap) :
    UsageMap × Nat :=
  let state := (walk document).foldl (Attribution.step schema site) (.start usages)
  (state.usages, state.recorded)

end FieldAudit.Usage
