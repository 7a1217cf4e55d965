import FieldAudit.Environment
import FieldAudit.Proofs.Attempt
import FieldAudit.Proofs.Entries
import Mathlib.Data.List.Induction

/-!
Bindings that an environment does not take. A text is loaded unless one of its bindings gives a
value to a name that the environment lacks, and the name or the value is refused
(`load_eq_error_iff`): a name that the environment has keeps its value, so its binding is not looked
at.
-/

set_option autoImplicit false

namespace FieldAudit.Environment

/-- One of the values is refused: its name is none that the environment has, and no environment
takes the two. -/
def Refuses (environment : Environment) (values : Entries (Option Text)) : Prop :=
  ∃ name value problem, (name, some value) ∈ values ∧ Entries.has name environment = false
    ∧ problem? name value = some problem

/-- Takes one value over; a name alone has none. -/
def take (environment : Environment) (entry : Text × Option Text) :
    Except BindingProblem Environment :=
  match entry.2 with
  | some value => extend environment entry.1 value
  | none => .ok environment

end FieldAudit.Environment
