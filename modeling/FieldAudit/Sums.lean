/-!
Sums of counts. Main statements: the sum of a list that is put together from two is the sum of their
sums, and counts that are no greater add up to no more.
-/

set_option autoImplicit false

namespace FieldAudit

/-- The sum of counts. -/
def sumOf : List Nat → Nat
  | [] => 0
  | count :: rest => count + sumOf rest

theorem sumOf_append (first second : List Nat) :
    sumOf (first ++ second) = sumOf first + sumOf second := by
  induction first with
  | nil => simp only [List.nil_append, sumOf, Nat.zero_add]
  | cons count rest ih => simp only [List.cons_append, sumOf, ih, Nat.add_assoc]

theorem sumOf_map_le {α : Type} {xs : List α} {f g : α → Nat} (h : ∀ x, f x ≤ g x) :
    sumOf (xs.map f) ≤ sumOf (xs.map g) := by
  induction xs with
  | nil => exact Nat.le_refl 0
  | cons x xs ih => exact Nat.add_le_add (h x) ih

end FieldAudit
