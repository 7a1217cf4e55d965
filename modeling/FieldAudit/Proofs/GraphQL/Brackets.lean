import FieldAudit.GraphQL.Token
import Mathlib.Data.List.Basic

/-!
Nested brackets. The brackets of a document are its parentheses, square brackets and braces, as far
as they are tokens. They are well nested if every one that opens is closed by one of its own sort,
with well-nested brackets between the two (`WellNested`). One pass with a stack of the brackets that
are due decides that (`wellNested_iff_closesAll`).
-/

set_option autoImplicit false

namespace FieldAudit.GraphQL

/-! ## 1. Brackets -/

/-- The bracket that closes what a bracket opens. -/
def TokenKind.closing? : TokenKind → Option TokenKind
  | .parenOpen => some .parenClose
  | .bracketOpen => some .bracketClose
  | .braceOpen => some .braceClose
  | _ => none

/-- Whether tokens of the kind open or close something. -/
def TokenKind.isBracket : TokenKind → Bool
  | .parenOpen | .parenClose | .bracketOpen | .bracketClose | .braceOpen | .braceClose => true
  | _ => false

/-- The brackets among tokens, in their order. -/
def brackets (tokens : List Token) : List TokenKind :=
  (tokens.map Token.kind).filter TokenKind.isBracket

theorem brackets_append (first second : List Token) :
    brackets (first ++ second) = brackets first ++ brackets second := by
  unfold brackets
  rw [List.map_append, List.filter_append]

/-- What closes something opens nothing. -/
theorem closing?_of_closing? {opening close : TokenKind} (h : opening.closing? = some close) :
    close.closing? = none := by
  cases opening <;> first
    | exact absurd h (Option.some_ne_none close).symm
    | (obtain rfl := Option.some.inj h; rfl)

/-! ## 2. Nesting -/

/-- Brackets that are well nested: one group after the other, each within its pair of brackets. -/
inductive WellNested : List TokenKind → Prop
  | nil : WellNested []
  | group {opening close : TokenKind} {inside rest : List TokenKind}
      (hclose : opening.closing? = some close) (hinside : WellNested inside)
      (hrest : WellNested rest) :
      WellNested (opening :: (inside ++ close :: rest))

namespace WellNested

theorem append {first second : List TokenKind} (hfirst : WellNested first)
    (hsecond : WellNested second) : WellNested (first ++ second) := by
  induction hfirst with
  | nil => exact hsecond
  | @group opening close inside rest hclose hinside _ _ ih =>
    rw [List.cons_append, List.append_assoc, List.cons_append]
    exact .group hclose hinside ih

/-- A pair of brackets around well-nested ones. -/
theorem pair {opening close : TokenKind} {inside : List TokenKind}
    (hclose : opening.closing? = some close) (hinside : WellNested inside) :
    WellNested (opening :: (inside ++ [close])) := .group hclose hinside .nil

end WellNested

/-! ## 3. Deciding it -/

/-- Whether brackets close those that are due, the first of them first, and all that they open in
between. -/
def closesAll : List TokenKind → List TokenKind → Bool
  | due, [] => due.isEmpty
  | due, kind :: kinds =>
    match kind.closing? with
    | some close => closesAll (close :: due) kinds
    | none => due.head? == some kind && closesAll due.tail kinds

theorem closesAll_opening {opening close : TokenKind} (h : opening.closing? = some close)
    (due kinds : List TokenKind) :
    closesAll due (opening :: kinds) = closesAll (close :: due) kinds := by
  rw [closesAll, h]

theorem closesAll_closing {close : TokenKind} (h : close.closing? = none)
    (due kinds : List TokenKind) :
    closesAll (close :: due) (close :: kinds) = closesAll due kinds := by
  rw [closesAll, h]
  simp only [List.head?_cons, beq_self_eq_true, Bool.true_and, List.tail_cons]

/-- Well-nested brackets close what they open, so they leave what is due as it is. -/
theorem WellNested.closesAll_append {kinds : List TokenKind} (h : WellNested kinds)
    (due rest : List TokenKind) : closesAll due (kinds ++ rest) = closesAll due rest := by
  induction h generalizing due rest with
  | nil => rfl
  | @group opening close inside others hclose _ _ ihinside ihothers =>
    rw [List.cons_append, List.append_assoc, List.cons_append, closesAll_opening hclose, ihinside,
      closesAll_closing (closing?_of_closing? hclose), ihothers]

/-- Well-nested brackets, each of them up to the next bracket that is due. -/
def NestedUpTo : List TokenKind → List TokenKind → Prop
  | [], kinds => WellNested kinds
  | close :: due, kinds =>
    ∃ inside rest, kinds = inside ++ close :: rest ∧ WellNested inside ∧ NestedUpTo due rest

/-- A group in front changes nothing. -/
theorem NestedUpTo.group {due : List TokenKind} {opening close : TokenKind}
    {inside rest : List TokenKind} (hclose : opening.closing? = some close)
    (hinside : WellNested inside) (hrest : NestedUpTo due rest) :
    NestedUpTo due (opening :: (inside ++ close :: rest)) := by
  cases due with
  | nil => exact WellNested.group hclose hinside hrest
  | cons next due =>
    obtain ⟨others, behind, rfl, hothers, hbehind⟩ := hrest
    refine ⟨opening :: (inside ++ close :: others), behind, ?_, .group hclose hinside hothers,
      hbehind⟩
    rw [List.cons_append, List.append_assoc, List.cons_append]

theorem nestedUpTo_of_closesAll {due kinds : List TokenKind} (h : closesAll due kinds = true) :
    NestedUpTo due kinds := by
  induction kinds generalizing due with
  | nil =>
    obtain rfl := List.isEmpty_iff.mp h
    exact WellNested.nil
  | cons kind kinds ih =>
    cases hclosing : kind.closing? with
    | some close =>
      rw [closesAll_opening hclosing] at h
      obtain ⟨inside, rest, rfl, hinside, hrest⟩ := ih h
      exact .group hclosing hinside hrest
    | none =>
      rw [closesAll, hclosing] at h
      obtain ⟨hdue, hkinds⟩ := Bool.and_eq_true_iff.mp h
      obtain ⟨due, rfl⟩ := List.head?_eq_some_iff.mp (beq_iff_eq.mp hdue)
      exact ⟨[], kinds, rfl, .nil, ih hkinds⟩

/-- **Nesting is decided in one pass**, with a stack of the brackets that are due. -/
theorem wellNested_iff_closesAll {kinds : List TokenKind} :
    WellNested kinds ↔ closesAll [] kinds = true := by
  constructor
  · intro h
    have happend := h.closesAll_append [] []
    rw [List.append_nil] at happend
    rw [happend]
    rfl
  · exact nestedUpTo_of_closesAll

instance (kinds : List TokenKind) : Decidable (WellNested kinds) :=
  decidable_of_iff _ wellNested_iff_closesAll.symm

/-- Brackets of different sorts may not cross. -/
example : WellNested [.braceOpen, .parenOpen, .parenClose, .braceClose]
    ∧ ¬ WellNested [.braceOpen, .parenOpen, .braceClose, .parenClose] := by decide

end FieldAudit.GraphQL
