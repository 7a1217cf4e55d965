/-!
Attempts. An attempt shows effects in order, and then succeeds with a value or fails. What a failed
attempt has shown stays shown.

An attempt stands for a call that prints and sends, and then returns or raises.
-/

set_option autoImplicit false

namespace FieldAudit

/-- The effects that an attempt has shown, and its result. -/
structure Attempt (ε φ α : Type) where
  effects : List ε
  result : Except φ α

namespace Attempt

variable {ε φ α β : Type}

/-- An attempt without effects. -/
def ofExcept (result : Except φ α) : Attempt ε φ α := ⟨[], result⟩

/-- An attempt that shows one effect. -/
def emit (effect : ε) : Attempt ε φ Unit := ⟨[effect], .ok ()⟩

/-- An attempt that shows effects one after the other. -/
def emitAll (effects : List ε) : Attempt ε φ Unit := ⟨effects, .ok ()⟩

/-- An attempt that fails. -/
def fail (failure : φ) : Attempt ε φ α := ⟨[], .error failure⟩

/-- One attempt after another, which is not made if the first one fails. -/
def andThen (first : Attempt ε φ α) (next : α → Attempt ε φ β) : Attempt ε φ β :=
  match first.result with
  | .ok value => ⟨first.effects ++ (next value).effects, (next value).result⟩
  | .error failure => ⟨first.effects, .error failure⟩

/-- The attempt with another description of its failure. -/
def mapFailure {ψ : Type} (f : φ → ψ) (attempt : Attempt ε φ α) : Attempt ε ψ α :=
  ⟨attempt.effects, attempt.result.mapError f⟩

instance : Monad (Attempt ε φ) where
  pure value := ⟨[], .ok value⟩
  bind := andThen

end Attempt

end FieldAudit
