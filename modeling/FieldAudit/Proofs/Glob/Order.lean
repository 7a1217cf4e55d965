import FieldAudit.Proofs.FileTree
import FieldAudit.Proofs.Glob.Found

/-!
The order in which files are found. Texts in ascending order are told by their members, repetitions
aside (`eraseDups_filter_sorted`), and what stays of lists in a row is told by what stays of each
(`eraseDups_flatten_of_mapM`). So if every pattern finds files on the same paths in two workspaces,
a search finds the same list of files in both, in the same order (`findFiles_eq_of_findsSame`).
-/

set_option autoImplicit false

namespace FieldAudit

open scoped List

/-! ## 1. Texts in ascending order -/

namespace Point

theorem code_injective {p q : Point} (h : p.code = q.code) : p = q := by
  rw [← ofCode_code p, ← ofCode_code q, h]

instance : Std.IsLinearOrder Point where
  le_refl p := Nat.le_refl p.code
  le_trans _ _ _ := Nat.le_trans
  le_antisymm _ _ hpq hqp := code_injective (Nat.le_antisymm hpq hqp)
  le_total p q := Nat.le_total p.code q.code

instance : Std.LawfulOrderLT Point where
  lt_iff _ _ := Nat.lt_iff_le_and_not_ge

end Point

theorem pairwise_sorted (texts : List Text) : (Text.sorted texts).Pairwise (· ≤ ·) := by
  have htrans : ∀ a b c : Text, decide (a ≤ b) = true → decide (b ≤ c) = true →
      decide (a ≤ c) = true := by
    intro a b c hab hbc
    rw [decide_eq_true_eq] at hab hbc ⊢
    exact List.le_trans hab hbc
  have htotal : ∀ a b : Text, (decide (a ≤ b) || decide (b ≤ a)) = true := by
    intro a b
    rw [Bool.or_eq_true, decide_eq_true_eq, decide_eq_true_eq]
    exact List.le_total a b
  exact (List.pairwise_mergeSort htrans htotal texts).imp fun h => of_decide_eq_true h

/-! ## 2. Repetitions that are dropped -/

section Repetitions

variable {α β : Type} [BEq α] [LawfulBEq α] [BEq β] [LawfulBEq β]

theorem eraseDups_sublist (xs : List α) : xs.eraseDups <+ xs := by
  induction xs using List.reverseRecOn with
  | nil => exact List.Sublist.refl _
  | append_singleton xs x ih =>
    by_cases hx : x ∈ xs
    · rw [eraseDups_concat_of_mem hx]
      exact ih.trans (List.sublist_append_left xs [x])
    · rw [eraseDups_concat_of_not_mem hx]
      exact ih.append_right [x]

/-- Values may be left out before or after repetitions are dropped. -/
theorem eraseDups_filter (p : α → Bool) (xs : List α) :
    (xs.filter p).eraseDups = xs.eraseDups.filter p := by
  induction xs using List.reverseRecOn with
  | nil => rfl
  | append_singleton xs x ih =>
    rw [List.filter_append]
    by_cases hp : p x = true
    · rw [List.filter_cons_of_pos hp, List.filter_nil]
      by_cases hx : x ∈ xs
      · rw [eraseDups_concat_of_mem (List.mem_filter.mpr ⟨hx, hp⟩), eraseDups_concat_of_mem hx, ih]
      · have hnew : x ∉ xs.filter p := fun hmem => hx (List.mem_filter.mp hmem).1
        rw [eraseDups_concat_of_not_mem hnew, eraseDups_concat_of_not_mem hx, List.filter_append,
          List.filter_cons_of_pos hp, List.filter_nil, ih]
    · rw [List.filter_cons_of_neg hp, List.filter_nil, List.append_nil, ih]
      by_cases hx : x ∈ xs
      · rw [eraseDups_concat_of_mem hx]
      · rw [eraseDups_concat_of_not_mem hx, List.filter_append, List.filter_cons_of_neg hp,
          List.filter_nil, List.append_nil]

/-- Repetitions may be dropped before and after a function is applied, or after it only. -/
theorem eraseDups_map_eraseDups (f : α → β) (xs : List α) :
    (xs.eraseDups.map f).eraseDups = (xs.map f).eraseDups := by
  induction xs using List.reverseRecOn with
  | nil => rfl
  | append_singleton xs x ih =>
    rw [List.map_append, List.map_cons, List.map_nil]
    by_cases hx : x ∈ xs
    · rw [eraseDups_concat_of_mem hx, eraseDups_concat_of_mem (List.mem_map_of_mem hx), ih]
    · rw [eraseDups_concat_of_not_mem hx, List.map_append, List.map_cons, List.map_nil,
        List.eraseDups_append, List.eraseDups_append, ih]
      congr 2
      -- both leave out the value if an earlier one has the same image
      refine List.filter_congr ?_
      intro y _
      simp [List.mem_eraseDups]

/-- What stays of two lists in a row is told by what stays of each. -/
theorem eraseDups_append_congr {first second first' second' : List α}
    (hfirst : first.eraseDups = first'.eraseDups) (hsecond : second.eraseDups = second'.eraseDups) :
    (first ++ second).eraseDups = (first' ++ second').eraseDups := by
  have hmem : ∀ x, x ∈ first ↔ x ∈ first' := by
    intro x
    rw [← List.mem_eraseDups, hfirst, List.mem_eraseDups]
  have hremoved : second.eraseDups.removeAll first = second'.eraseDups.removeAll first' := by
    rw [hsecond]
    refine List.filter_congr ?_
    intro x _
    simp [hmem]
  rw [List.eraseDups_append, List.eraseDups_append, List.removeAll, List.removeAll,
    eraseDups_filter, eraseDups_filter, hfirst]
  exact congrArg _ hremoved

theorem eraseDups_append_of_subset {xs ys : List α} (h : ys ⊆ xs) :
    (xs ++ ys).eraseDups = xs.eraseDups := by
  have hremoved : ys.removeAll xs = [] := by
    rw [List.removeAll, List.filter_eq_nil_iff]
    intro y hy
    simpa using h hy
  rw [List.eraseDups_append, hremoved, List.eraseDups_nil, List.append_nil]

omit [BEq α] [LawfulBEq α] in
/-- Repetitions may be dropped in each of the lists that come of values, or at the end only. -/
theorem eraseDups_flatMap_congr {xs : List α} {f g : α → List β}
    (h : ∀ x ∈ xs, (f x).eraseDups = (g x).eraseDups) :
    (xs.flatMap f).eraseDups = (xs.flatMap g).eraseDups := by
  induction xs with
  | nil => rfl
  | cons x xs ih =>
    rw [List.flatMap_cons, List.flatMap_cons]
    exact eraseDups_append_congr (h x List.mem_cons_self)
      (ih fun y hy => h y (List.mem_cons_of_mem x hy))

/-- Repetitions may be dropped among the values from which lists come as well. -/
theorem eraseDups_flatMap_eraseDups (xs : List α) (f : α → List β) :
    (xs.eraseDups.flatMap f).eraseDups = (xs.flatMap f).eraseDups := by
  induction xs using List.reverseRecOn with
  | nil => rfl
  | append_singleton xs x ih =>
    rw [List.flatMap_append, List.flatMap_singleton]
    by_cases hx : x ∈ xs
    · have hsub : f x ⊆ xs.flatMap f := fun y hy => List.mem_flatMap.mpr ⟨x, hx, hy⟩
      rw [eraseDups_concat_of_mem hx, ih, eraseDups_append_of_subset hsub]
    · rw [eraseDups_concat_of_not_mem hx, List.flatMap_append, List.flatMap_singleton]
      exact eraseDups_append_congr ih rfl

/-- A function that keeps values apart may be applied before or after repetitions are dropped. -/
theorem eraseDups_map_of_injective {f : α → β} {xs : List α}
    (h : ∀ x ∈ xs, ∀ y ∈ xs, f x = f y → x = y) :
    (xs.map f).eraseDups = xs.eraseDups.map f := by
  rw [← eraseDups_map_eraseDups]
  refine eraseDups_of_nodup ((List.nodup_map_iff_inj_on (nodup_eraseDups xs)).mpr ?_)
  intro x hx y hy
  exact h x (List.mem_eraseDups.mp hx) y (List.mem_eraseDups.mp hy)

/-- Runs of steps that give lists: if each step gives the same in both runs, repetitions aside, so
do the runs. -/
theorem eraseDups_flatten_of_mapM {γ φ : Type} {f g : γ → Except φ (List α)} {xs : List γ}
    (h : ∀ x ∈ xs, ∀ found, f x = .ok found →
      ∃ other, g x = .ok other ∧ found.eraseDups = other.eraseDups)
    {lists : List (List α)} (hlists : xs.mapM f = .ok lists) :
    ∃ others, xs.mapM g = .ok others ∧ lists.flatten.eraseDups = others.flatten.eraseDups := by
  induction xs generalizing lists with
  | nil =>
    rw [List.mapM_nil] at hlists
    obtain rfl := Except.ok.inj hlists
    exact ⟨[], List.mapM_nil, rfl⟩
  | cons x xs ih =>
    rw [List.mapM_cons] at hlists
    obtain ⟨first, hfirst, hlists⟩ := (bind_eq_ok_iff _ _ _).mp hlists
    obtain ⟨rest, hrest, hlists⟩ := (bind_eq_ok_iff _ _ _).mp hlists
    obtain rfl := Except.ok.inj hlists
    obtain ⟨other, hother, hsame⟩ := h x List.mem_cons_self first hfirst
    obtain ⟨others, hothers, hothersSame⟩ := ih (fun y hy => h y (List.mem_cons_of_mem x hy)) hrest
    refine ⟨other :: others, ?_, ?_⟩
    · rw [List.mapM_cons, hother, hothers]
      rfl
    · rw [List.flatten_cons, List.flatten_cons]
      exact eraseDups_append_congr hsame hothersSame

end Repetitions

/-- Texts that are kept of two lists in ascending order: if they are the same ones, they come in the
same order, repetitions aside. -/
theorem eraseDups_filter_sorted {first second : List Text} {p q : Text → Bool}
    (h : ∀ text, (text ∈ first ∧ p text = true) ↔ (text ∈ second ∧ q text = true)) :
    ((Text.sorted first).filter p).eraseDups = ((Text.sorted second).filter q).eraseDups := by
  have hpairwise : ∀ (texts : List Text) (r : Text → Bool),
      ((Text.sorted texts).filter r).eraseDups.Pairwise (· ≤ ·) := fun texts r =>
    ((pairwise_sorted texts).filter r).sublist (eraseDups_sublist _)
  refine List.Perm.eq_of_pairwise (fun _ _ _ _ => List.le_antisymm) (hpairwise first p)
    (hpairwise second q) ?_
  rw [List.perm_ext_iff_of_nodup (nodup_eraseDups _) (nodup_eraseDups _)]
  intro text
  have hmem : ∀ texts : List Text, text ∈ Text.sorted texts ↔ text ∈ texts :=
    fun texts => List.mem_mergeSort
  rw [List.mem_eraseDups, List.mem_eraseDups, List.mem_filter, List.mem_filter, hmem, hmem]
  exact h text

/-! ## 3. The same files -/

namespace Glob

variable {w w' : Workspace}

/-- A pattern finds files on the same paths in two workspaces. -/
def FindsSame (w w' : Workspace) (pattern : Text) : Prop :=
  ∀ paths, search w pattern = .ok paths → ∃ others, search w' pattern = .ok others
    ∧ ∀ path, (path ∈ paths ∧ w.isFile path = true) ↔ (path ∈ others ∧ w'.isFile path = true)

theorem filesOf_of_findsSame (hdirectory : w'.directory = w.directory) {pattern : Text}
    (h : FindsSame w w' pattern) {files : List Text} (hfiles : filesOf w pattern = .ok files) :
    ∃ others, filesOf w' pattern = .ok others ∧ files.eraseDups = others.eraseDups := by
  obtain ⟨paths, hpaths, rfl⟩ := (map_eq_ok_iff _ _ _).mp hfiles
  obtain ⟨others, hothers, hsame⟩ := h paths hpaths
  have habsolute : w'.absolute = w.absolute := (Workspace.absolute_eq_of_directory hdirectory).1
  refine ⟨_, (map_eq_ok_iff _ _ _).mpr ⟨others, hothers, rfl⟩, ?_⟩
  rw [habsolute, ← eraseDups_map_eraseDups, eraseDups_filter_sorted hsame, eraseDups_map_eraseDups]

/-- **Where every pattern finds the same, the same list is found.** -/
theorem findFiles_eq_of_findsSame (hdirectory : w'.directory = w.directory) {root : Text}
    {patterns : List Text}
    (h : ∀ pattern ∈ rooted root (patterns.flatMap expandBraces), FindsSame w w' pattern)
    {files : List Text} (hfiles : findFiles w root patterns = .ok files) :
    findFiles w' root patterns = .ok files := by
  obtain ⟨lists, hlists, rfl⟩ := (map_eq_ok_iff _ _ _).mp hfiles
  obtain ⟨others, hothers, hsame⟩ := eraseDups_flatten_of_mapM
    (fun pattern hpattern found hfound =>
      filesOf_of_findsSame hdirectory (h pattern hpattern) hfound)
    hlists
  exact (map_eq_ok_iff _ _ _).mpr ⟨others, hothers, hsame.symm⟩

end Glob

end FieldAudit
