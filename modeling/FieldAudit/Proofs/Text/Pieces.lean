import FieldAudit.Text.Lines
import Mathlib.Data.List.Basic

/-!
Pieces of a text. A text is cut at every occurrence of one point: no piece holds the point
(`not_mem_of_mem_pieces`), the pieces with the point between them are the text (`join_pieces`), and
there is one more of them than there are occurrences (`length_pieces`). Where a text is put together
around an occurrence, its pieces are those of the two parts, and so are the places of the
occurrences (`pieces_append`, `idxsOf_append_cons`).
-/

set_option autoImplicit false

namespace FieldAudit

namespace Text

/-! ## 1. Pieces -/

theorem pieces_append (sep : Point) (first second : Text) :
    pieces sep (first ++ sep :: second) = pieces sep first ++ pieces sep second := by
  induction first with
  | nil => simp [pieces]
  | cons p first ih =>
    rw [List.cons_append, pieces, pieces, ih]
    by_cases hp : p = sep
    · rw [if_pos hp, if_pos hp, List.cons_append]
    · -- the point goes to the first piece, and there is one
      rw [if_neg hp, if_neg hp]
      obtain ⟨piece, more, hpieces⟩ := List.exists_cons_of_ne_nil (pieces_ne_nil sep first)
      rw [hpieces]
      rfl

theorem pieces_of_not_mem {sep : Point} {t : Text} (h : sep ∉ t) : pieces sep t = [t] := by
  induction t with
  | nil => rw [pieces]
  | cons p t ih =>
    have hp : p ≠ sep := fun heq => h (heq ▸ List.mem_cons_self)
    have ht : sep ∉ t := fun hmem => h (List.mem_cons_of_mem p hmem)
    rw [pieces, if_neg hp, ih ht]

/-- No piece holds the point at which the text is cut. -/
theorem not_mem_of_mem_pieces {sep : Point} {t piece : Text} (h : piece ∈ pieces sep t) :
    sep ∉ piece := by
  induction t generalizing piece with
  | nil =>
    rw [pieces, List.mem_singleton] at h
    rw [h]
    exact List.not_mem_nil
  | cons p t ih =>
    rw [pieces] at h
    by_cases hp : p = sep
    · rw [if_pos hp] at h
      rcases List.mem_cons.mp h with rfl | hrest
      · exact List.not_mem_nil
      · exact ih hrest
    · obtain ⟨first, more, hpieces⟩ := List.exists_cons_of_ne_nil (pieces_ne_nil sep t)
      rw [if_neg hp, hpieces] at h
      rcases List.mem_cons.mp h with rfl | hrest
      · intro hmem
        rcases List.mem_cons.mp hmem with heq | hfirst
        · exact hp heq.symm
        · exact ih (hpieces ▸ List.mem_cons_self) hfirst
      · exact ih (hpieces ▸ List.mem_cons_of_mem first hrest)

/-- The points of a piece are points of the text. -/
theorem mem_of_mem_pieces {sep : Point} {t piece : Text} (h : piece ∈ pieces sep t) {p : Point}
    (hp : p ∈ piece) : p ∈ t := by
  induction t generalizing piece with
  | nil =>
    rw [pieces, List.mem_singleton] at h
    rwa [h] at hp
  | cons q t ih =>
    rw [pieces] at h
    by_cases hq : q = sep
    · rw [if_pos hq] at h
      rcases List.mem_cons.mp h with rfl | hrest
      · exact absurd hp List.not_mem_nil
      · exact List.mem_cons_of_mem q (ih hrest hp)
    · obtain ⟨first, more, hpieces⟩ := List.exists_cons_of_ne_nil (pieces_ne_nil sep t)
      rw [if_neg hq, hpieces] at h
      rw [hpieces] at ih
      rcases List.mem_cons.mp h with rfl | hrest
      · rcases List.mem_cons.mp hp with rfl | hfirst
        · exact List.mem_cons_self
        · exact List.mem_cons_of_mem q (ih List.mem_cons_self hfirst)
      · exact List.mem_cons_of_mem q (ih (List.mem_cons_of_mem first hrest) hp)

/-- A point other than the one at which the text is cut stands in some piece. -/
theorem exists_mem_pieces {sep p : Point} (hp : p ≠ sep) {t : Text} (h : p ∈ t) :
    ∃ piece ∈ pieces sep t, p ∈ piece := by
  obtain ⟨first, second, rfl⟩ := List.append_of_mem h
  induction first with
  | nil =>
    obtain ⟨piece, more, hpieces⟩ := List.exists_cons_of_ne_nil (pieces_ne_nil sep second)
    refine ⟨p :: piece, ?_, List.mem_cons_self⟩
    rw [List.nil_append, pieces, if_neg hp, hpieces]
    exact List.mem_cons_self
  | cons q first ih =>
    obtain ⟨piece, hpiece, hmem⟩ := ih (List.mem_append_right first List.mem_cons_self)
    rw [List.cons_append, pieces]
    by_cases hq : q = sep
    · rw [if_pos hq]
      exact ⟨piece, List.mem_cons_of_mem [] hpiece, hmem⟩
    · obtain ⟨start, more, hpieces⟩ :=
        List.exists_cons_of_ne_nil (pieces_ne_nil sep (first ++ p :: second))
      rw [if_neg hq, hpieces]
      rw [hpieces] at hpiece
      rcases List.mem_cons.mp hpiece with rfl | hmore
      · exact ⟨q :: piece, List.mem_cons_self, List.mem_cons_of_mem q hmem⟩
      · exact ⟨piece, List.mem_cons_of_mem _ hmore, hmem⟩

/-- The pieces of a text, with the point at which it is cut between them, make up the text. -/
theorem join_pieces (sep : Point) (t : Text) : join [sep] (pieces sep t) = t := by
  induction t with
  | nil => rfl
  | cons p t ih =>
    rw [pieces]
    obtain ⟨first, more, hpieces⟩ := List.exists_cons_of_ne_nil (pieces_ne_nil sep t)
    rw [hpieces, join] at ih
    rw [hpieces, join]
    by_cases hp : p = sep
    · rw [if_pos hp, List.intercalate_cons_cons, List.nil_append, ih, hp]
      rfl
    · -- the point goes to the first piece, which may be the only one
      rw [if_neg hp]
      cases more with
      | nil =>
        rw [List.intercalate_singleton] at ih ⊢
        rw [ih]
      | cons second more =>
        rw [List.intercalate_cons_cons] at ih ⊢
        rw [List.cons_append, List.cons_append, ih]

/-- There is one piece more than there are occurrences of the point at which the text is cut. -/
theorem length_pieces (sep : Point) (t : Text) : (pieces sep t).length = t.count sep + 1 := by
  induction t with
  | nil => rfl
  | cons p t ih =>
    obtain ⟨first, more, hpieces⟩ := List.exists_cons_of_ne_nil (pieces_ne_nil sep t)
    rw [pieces]
    by_cases hp : p = sep
    · rw [if_pos hp, hp, List.count_cons_self, List.length_cons, ih]
    · rw [if_neg hp, List.count_cons_of_ne hp, ← ih, hpieces, List.length_cons, List.length_cons]

/-! ## 2. Places of the occurrences -/

section Places

variable {α : Type} [BEq α] [LawfulBEq α] {x : α}

theorem idxsOf_of_not_mem {xs : List α} (h : x ∉ xs) : xs.idxsOf x = [] := by
  rw [List.idxsOf_eq_nil_iff]
  intro y hy
  rw [beq_eq_false_iff_ne]
  rintro rfl
  exact h hy

theorem idxsOf_append_cons {before : List α} (h : x ∉ before) (rest : List α) :
    (before ++ x :: rest).idxsOf x
      = before.length :: (rest.idxsOf x).map fun place => before.length + 1 + place := by
  rw [List.idxsOf_append, idxsOf_of_not_mem h, List.nil_append, List.idxsOf_cons,
    if_pos (beq_self_eq_true _), List.idxsOf_start, Nat.zero_add]
  simp only [Nat.add_comm]

end Places

end Text

end FieldAudit
