import FieldAudit.Glob.Search
import FieldAudit.Proofs.Attempt
import Mathlib.Data.List.Induction
import Mathlib.Data.List.Nodup

/-!
What a search for files finds. A file is found if one of the patterns finds it by itself, whichever
other patterns there are and in whichever order they come (`mem_findFiles_iff`); it is listed once,
however many patterns find it (`nodup_findFiles`).
-/

set_option autoImplicit false

namespace FieldAudit

/-! ## 1. Repetitions -/

section Repetitions

variable {α : Type} [BEq α] [LawfulBEq α]

/-- A last value is dropped exactly if it is a repetition. -/
theorem eraseDups_concat_of_mem {xs : List α} {x : α} (h : x ∈ xs) :
    (xs ++ [x]).eraseDups = xs.eraseDups := by
  have hremoved : [x].removeAll xs = [] := by
    rw [List.removeAll, List.filter_cons_of_neg (by simpa using h), List.filter_nil]
  rw [List.eraseDups_append, hremoved, List.eraseDups_nil, List.append_nil]

theorem eraseDups_concat_of_not_mem {xs : List α} {x : α} (h : x ∉ xs) :
    (xs ++ [x]).eraseDups = xs.eraseDups ++ [x] := by
  have hremoved : [x].removeAll xs = [x] := by
    rw [List.removeAll, List.filter_cons_of_pos (by simpa using h), List.filter_nil]
  rw [List.eraseDups_append, hremoved, List.eraseDups_cons, List.filter_nil, List.eraseDups_nil]

theorem nodup_eraseDups (xs : List α) : xs.eraseDups.Nodup := by
  induction xs using List.reverseRecOn with
  | nil => exact List.nodup_nil
  | append_singleton xs x ih =>
    by_cases hx : x ∈ xs
    · rw [eraseDups_concat_of_mem hx]
      exact ih
    · have hnew : x ∉ xs.eraseDups := fun hmem => hx (List.mem_eraseDups.mp hmem)
      rw [eraseDups_concat_of_not_mem hx, ← List.concat_eq_append]
      exact ih.concat hnew

theorem eraseDups_of_nodup {xs : List α} (h : xs.Nodup) : xs.eraseDups = xs := by
  induction xs using List.reverseRecOn with
  | nil => rfl
  | append_singleton xs x ih =>
    obtain ⟨hxs, -, hother⟩ := List.nodup_append.mp h
    have hnew : x ∉ xs := fun hx => hother x hx x (List.mem_singleton_self x) rfl
    rw [eraseDups_concat_of_not_mem hnew, ih hxs]

end Repetitions

/-! ## 2. What patterns find -/

namespace Glob

/-- A pattern finds a file below a root, by one of the choices between its alternatives. -/
def Finds (w : Workspace) (root pattern file : Text) : Prop :=
  ∃ choice ∈ expandBraces pattern, ∃ paths, search w (Path.join root choice) = .ok paths
    ∧ ∃ path ∈ paths, w.isFile path = true ∧ w.absolute path = file

variable {w : Workspace}

/-- The files of a pattern are those among the paths that the search finds, in normal form. -/
theorem mem_of_filesOf_eq_ok {pattern : Text} {files : List Text}
    (h : filesOf w pattern = .ok files) (file : Text) :
    file ∈ files ↔ ∃ paths, search w pattern = .ok paths
      ∧ ∃ path ∈ paths, w.isFile path = true ∧ w.absolute path = file := by
  obtain ⟨paths, hpaths, rfl⟩ := (map_eq_ok_iff _ _ _).mp h
  have hsorted : ∀ path, path ∈ Text.sorted paths ↔ path ∈ paths := fun path => List.mem_mergeSort
  simp only [List.mem_map, List.mem_filter, hsorted]
  constructor
  · rintro ⟨path, ⟨hpath, hfile⟩, habsolute⟩
    exact ⟨paths, hpaths, path, hpath, hfile, habsolute⟩
  · rintro ⟨others, hothers, path, hpath, hfile, habsolute⟩
    rw [hpaths] at hothers
    rw [← Except.ok.inj hothers] at hpath
    exact ⟨path, ⟨hpath, hfile⟩, habsolute⟩

/-- **A search finds what its patterns find.** -/
theorem mem_findFiles_iff {root : Text} {patterns files : List Text}
    (h : findFiles w root patterns = .ok files) (file : Text) :
    file ∈ files ↔ ∃ pattern ∈ patterns, Finds w root pattern file := by
  obtain ⟨lists, hlists, rfl⟩ := (map_eq_ok_iff _ _ _).mp h
  rw [List.mem_eraseDups, mem_flatten_of_mapM_eq_ok hlists]
  constructor
  · rintro ⟨full, hfull, found, hfound, hfile⟩
    obtain ⟨choice, hchoice, rfl⟩ := List.mem_map.mp hfull
    obtain ⟨pattern, hpattern, hchoice⟩ := List.mem_flatMap.mp hchoice
    exact ⟨pattern, hpattern, choice, hchoice, (mem_of_filesOf_eq_ok hfound file).mp hfile⟩
  · rintro ⟨pattern, hpattern, choice, hchoice, paths, hpaths, hfile⟩
    have hfull : Path.join root choice ∈ rooted root (patterns.flatMap expandBraces) :=
      List.mem_map_of_mem (List.mem_flatMap.mpr ⟨pattern, hpattern, hchoice⟩)
    have hfound : filesOf w (Path.join root choice)
        = .ok (((Text.sorted paths).filter w.isFile).map w.absolute) := by
      rw [filesOf, hpaths]
      rfl
    exact ⟨_, hfull, _, hfound, (mem_of_filesOf_eq_ok hfound file).mpr ⟨paths, hpaths, hfile⟩⟩

/-- No file is listed twice. -/
theorem nodup_findFiles {root : Text} {patterns files : List Text}
    (h : findFiles w root patterns = .ok files) : files.Nodup := by
  obtain ⟨lists, -, rfl⟩ := (map_eq_ok_iff _ _ _).mp h
  exact nodup_eraseDups _

end Glob

end FieldAudit
