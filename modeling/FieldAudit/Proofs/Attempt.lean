import FieldAudit.Attempt
import Mathlib.Data.List.Forall2

/-!
Results of steps that are made one after the other. A chain of steps succeeds exactly when every
step does, each with the value that the one before it gave; the effects of an attempt have no part
in its result.
-/

set_option autoImplicit false

namespace FieldAudit

variable {ε φ ψ α β : Type}

/-! ## 1. Results without effects -/

theorem map_eq_ok_iff (result : Except φ α) (f : α → β) (value : β) :
    result.map f = .ok value ↔ ∃ found, result = .ok found ∧ f found = value := by
  cases result with
  | error failure => simp [Except.map]
  | ok found => simp [Except.map]

theorem eq_ok_of_toOption_eq_some {result : Except φ α} {value : α}
    (h : result.toOption = some value) :
    result = .ok value := by
  cases result with
  | error failure => simp [Except.toOption] at h
  | ok found => rw [Option.some.inj h]

/-- A result is a value or a failure, and not both. -/
theorem ne_error_of_eq_ok {result : Except φ α} {value : α} (h : result = .ok value) (failure : φ) :
    result ≠ .error failure := by
  intro herror
  rw [h] at herror
  simp at herror

theorem mapError_eq_ok_iff (result : Except φ α) (f : φ → ψ) (value : α) :
    result.mapError f = .ok value ↔ result = .ok value := by
  cases result with
  | error failure =>
    change Except.error (f failure) = .ok value ↔ Except.error failure = .ok value
    simp
  | ok found =>
    change Except.ok found = .ok value ↔ Except.ok found = .ok value
    simp

theorem mapError_eq_error_iff (result : Except φ α) (f : φ → ψ) (failure : ψ) :
    result.mapError f = .error failure ↔ ∃ cause, result = .error cause ∧ f cause = failure := by
  cases result with
  | error cause =>
    change Except.error (f cause) = .error failure ↔ _
    simp
  | ok found =>
    change Except.ok found = .error failure ↔ _
    simp

theorem bind_eq_ok_iff (first : Except φ α) (next : α → Except φ β) (value : β) :
    first >>= next = .ok value ↔ ∃ found, first = .ok found ∧ next found = .ok value := by
  cases first with
  | error failure => simp [bind, Except.bind]
  | ok found => simp [bind, Except.bind]

theorem bind_eq_error_iff (first : Except φ α) (next : α → Except φ β) (failure : φ) :
    first >>= next = .error failure
      ↔ first = .error failure ∨ ∃ found, first = .ok found ∧ next found = .error failure := by
  cases first with
  | error cause => simp [bind, Except.bind]
  | ok found => simp [bind, Except.bind]

/-- What a step preserves, a run of steps preserves. -/
theorem foldlM_preserves {step : β → α → Except φ β} {xs : List α} (kept : β → Prop)
    {first last : β} (hfirst : kept first)
    (hstep : ∀ before, ∀ x ∈ xs, ∀ after, kept before → step before x = .ok after → kept after)
    (h : xs.foldlM step first = .ok last) : kept last := by
  induction xs generalizing first with
  | nil =>
    rw [← Except.ok.inj h]
    exact hfirst
  | cons x xs ih =>
    rw [List.foldlM_cons] at h
    obtain ⟨next, hnext, hrest⟩ := (bind_eq_ok_iff _ _ _).mp h
    refine ih (hstep first x List.mem_cons_self next hfirst hnext) ?_ hrest
    exact fun before y hy => hstep before y (List.mem_cons_of_mem x hy)

/-- A run of steps on other values, each of which goes as the first one does. -/
theorem foldlM_map_eq_ok {φ γ δ : Type} {step : β → α → Except φ β} {other : δ → γ → Except φ δ}
    (f : β → δ) (g : α → γ)
    (hstep : ∀ before x after, step before x = .ok after → other (f before) (g x) = .ok (f after))
    {xs : List α} {first last : β} (h : xs.foldlM step first = .ok last) :
    (xs.map g).foldlM other (f first) = .ok (f last) := by
  induction xs generalizing first with
  | nil =>
    rw [← Except.ok.inj h]
    rfl
  | cons x xs ih =>
    rw [List.foldlM_cons] at h
    obtain ⟨next, hnext, hrest⟩ := (bind_eq_ok_iff _ _ _).mp h
    rw [List.map_cons, List.foldlM_cons]
    exact (bind_eq_ok_iff _ _ _).mpr ⟨f next, hstep first x next hnext, ih hrest⟩

/-- A run of steps that do not depend on each other comes to its end exactly if every step does. -/
theorem exists_mapM_eq_ok_iff {f : α → Except φ β} {xs : List α} :
    (∃ values, xs.mapM f = .ok values) ↔ ∀ x ∈ xs, ∃ value, f x = .ok value := by
  induction xs with
  | nil => exact iff_of_true ⟨[], List.mapM_nil⟩ fun x hx => absurd hx List.not_mem_nil
  | cons x xs ih =>
    rw [List.forall_mem_cons, ← ih, List.mapM_cons]
    simp only [bind_eq_ok_iff]
    constructor
    · rintro ⟨_, first, hfirst, rest, hrest, -⟩
      exact ⟨⟨first, hfirst⟩, rest, hrest⟩
    · rintro ⟨⟨first, hfirst⟩, rest, hrest⟩
      exact ⟨first :: rest, first, hfirst, rest, hrest, rfl⟩

/-- A run of steps that do not depend on each other gives, place by place, what the steps give. -/
theorem mapM_eq_ok_iff {f : α → Except φ β} {xs : List α} {values : List β} :
    xs.mapM f = .ok values ↔ List.Forall₂ (fun x value => f x = .ok value) xs values := by
  induction xs generalizing values with
  | nil =>
    rw [List.mapM_nil, List.forall₂_nil_left_iff]
    constructor
    · intro h
      exact (Except.ok.inj h).symm
    · rintro rfl
      rfl
  | cons x xs ih =>
    rw [List.mapM_cons, List.forall₂_cons_left_iff]
    simp only [bind_eq_ok_iff]
    constructor
    · rintro ⟨first, hfirst, rest, hrest, hvalues⟩
      exact ⟨first, rest, hfirst, ih.mp hrest, (Except.ok.inj hvalues).symm⟩
    · rintro ⟨first, rest, hfirst, hrest, rfl⟩
      exact ⟨first, hfirst, rest, ih.mpr hrest, rfl⟩

/-- A run of checks comes to its end exactly if every check does. -/
theorem forM_eq_ok_iff {check : α → Except φ PUnit} {xs : List α} :
    xs.forM check = .ok () ↔ ∀ x ∈ xs, check x = .ok () := by
  induction xs with
  | nil => exact iff_of_true rfl fun x hx => absurd hx List.not_mem_nil
  | cons x xs ih =>
    have hcons : (x :: xs).forM check = check x >>= fun _ => xs.forM check := rfl
    rw [hcons, bind_eq_ok_iff, List.forall_mem_cons, ← ih]
    constructor
    · rintro ⟨_, hfirst, hrest⟩
      exact ⟨hfirst, hrest⟩
    · rintro ⟨hfirst, hrest⟩
      exact ⟨(), hfirst, hrest⟩

/-- What lists of a run of steps hold: something that one of the steps gave. -/
theorem mem_flatten_of_mapM_eq_ok {f : α → Except φ (List β)} {xs : List α} {lists : List (List β)}
    (h : xs.mapM f = .ok lists) (y : β) :
    y ∈ lists.flatten ↔ ∃ x ∈ xs, ∃ found, f x = .ok found ∧ y ∈ found := by
  induction xs generalizing lists with
  | nil =>
    rw [List.mapM_nil] at h
    rw [← Except.ok.inj h]
    simp
  | cons x xs ih =>
    rw [List.mapM_cons] at h
    obtain ⟨first, hfirst, h⟩ := (bind_eq_ok_iff _ _ _).mp h
    obtain ⟨rest, hrest, h⟩ := (bind_eq_ok_iff _ _ _).mp h
    rw [← Except.ok.inj h, List.flatten_cons, List.mem_append, ih hrest]
    constructor
    · rintro (hy | ⟨other, hother, found, hfound, hy⟩)
      · exact ⟨x, List.mem_cons_self, first, hfirst, hy⟩
      · exact ⟨other, List.mem_cons_of_mem x hother, found, hfound, hy⟩
    · rintro ⟨other, hother, found, hfound, hy⟩
      rcases List.mem_cons.mp hother with rfl | hother
      · rw [hfirst] at hfound
        rw [Except.ok.inj hfound]
        exact .inl hy
      · exact .inr ⟨other, hother, found, hfound, hy⟩

namespace Attempt

/-! ## 2. Results of attempts -/

/-- The result of two attempts is that of the second, if the first succeeds. -/
theorem result_bind (first : Attempt ε φ α) (next : α → Attempt ε φ β) :
    (first >>= next).result = first.result >>= fun value => (next value).result := by
  change (first.andThen next).result = _
  unfold andThen
  cases first.result with
  | ok value => rfl
  | error failure => rfl

@[simp] theorem result_pure (value : α) : (pure value : Attempt ε φ α).result = .ok value := rfl

@[simp] theorem result_fail (failure : φ) :
    (fail failure : Attempt ε φ α).result = .error failure := rfl

@[simp] theorem result_mapFailure (attempt : Attempt ε φ α) (f : φ → ψ) :
    (attempt.mapFailure f).result = attempt.result.mapError f := rfl

@[simp] theorem result_emit_bind (effect : ε) (next : Unit → Attempt ε φ β) :
    (emit effect >>= next).result = (next ()).result := rfl

@[simp] theorem result_emitAll_bind (effects : List ε) (next : Unit → Attempt ε φ β) :
    (emitAll effects >>= next).result = (next ()).result := rfl

end Attempt

end FieldAudit
