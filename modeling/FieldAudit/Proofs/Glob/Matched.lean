import FieldAudit.Proofs.Glob.Along
import FieldAudit.Proofs.Glob.Order

/-!
What a pattern matches. A pattern is divided behind the last slash before its first wildcard
(`divide_append`): the search starts from the path before it, and from there every part of the
pattern finds the next path (`FindsParts`). A search fails at the first pattern from whose path no
search can start, and else lists what the patterns match: the files of each pattern in ascending
order, one pattern after the other, each file at its first place (`findFiles_eq_of_matched`).
-/

set_option autoImplicit false

namespace FieldAudit.Glob

open scoped List

/-! ## 1. Dividing a pattern -/

theorem isWild_append (first second : Text) :
    isWild (first ++ second) = (isWild first || isWild second) :=
  List.any_append

/-- A text whose first part is a wildcard. -/
def StartsWild (rest : Text) : Prop :=
  ∃ part more, Path.parts rest = part :: more ∧ isWild part = true

/-- The parts of a pattern that are looked for, from its first wildcard on. -/
def partsToFind (rest : Text) : List Text :=
  ((Path.parts rest).filter fun part => !part.isEmpty)
    ++ if (Path.parts rest).getLast? = some [] then [[]] else []

/-- A text that ends with a slash, if it is not empty. -/
def Slashed (lead : Text) : Prop := lead = [] ∨ ∃ before, lead = before ++ [.char '/']

/-- A point of a path that is no slash stands in one of its parts. -/
theorem isWild_eq_false_of_parts {path : Text} (h : ∀ part ∈ Path.parts path, isWild part = false) :
    isWild path = false := by
  rw [isWild, List.any_eq_false]
  intro p hp
  by_cases hslash : p = .char '/'
  · rw [hslash]
    decide
  · obtain ⟨part, hpart, hmem⟩ := Text.exists_mem_pieces hslash hp
    exact List.any_eq_false.mp (h part hpart) p hmem

theorem isWild_of_mem_parts {path part : Text} (hpart : part ∈ Path.parts path)
    (h : isWild path = false) :
    isWild part = false := by
  rw [isWild, List.any_eq_false] at h ⊢
  exact fun p hp => h p (Text.mem_of_mem_pieces hpart hp)

/-- A text whose first part is a wildcard does not start with a slash. -/
theorem StartsWild.isAbsolute {rest : Text} (h : StartsWild rest) :
    Path.isAbsolute rest = false := by
  obtain ⟨part, more, hparts, hwild⟩ := h
  cases rest with
  | nil => rfl
  | cons p rest =>
    by_contra hslash
    rw [Bool.not_eq_false, Path.isAbsolute, List.head?_cons, beq_iff_eq] at hslash
    obtain rfl : p = .char '/' := Option.some.inj hslash
    rw [Path.parts, Text.pieces, if_pos rfl] at hparts
    rw [← (List.cons.inj hparts).1] at hwild
    exact absurd hwild (by decide)

/-- A pattern is divided behind the last slash before its first wildcard. -/
theorem divide_append {lead rest : Text} (hslash : Slashed lead) (hlead : isWild lead = false)
    (hrest : StartsWild rest) :
    divide (lead ++ rest) = (Path.trimSlashes lead, partsToFind rest) := by
  obtain ⟨part, more, hparts, hwild⟩ := hrest
  have hstop : ¬ (!isWild part) = true := by simp [hwild]
  rcases hslash with rfl | ⟨before, rfl⟩
  -- no part stands before the wildcard, or the parts before the slash do
  · unfold divide partsToFind
    dsimp only
    rw [List.nil_append, hparts, List.takeWhile_cons, if_neg hstop, List.dropWhile_cons,
      if_neg hstop]
    rfl
  · have hbefore : ∀ other ∈ Path.parts before, (!isWild other) = true := by
      intro other hother
      rw [isWild_append, Bool.or_eq_false_iff] at hlead
      rw [isWild_of_mem_parts hother hlead.1]
      rfl
    have hall : Path.parts (before ++ [.char '/'] ++ rest)
        = Path.parts before ++ Path.parts rest := by
      rw [List.append_assoc, List.singleton_append, Path.parts_append_slash]
    have hstart : Text.join "/" (Path.parts before ++ [[]]) = before ++ [.char '/'] := by
      rw [← Path.parts_concat_slash]
      exact Text.join_pieces '/' _
    have hsome : (Path.parts before).isEmpty = false :=
      List.isEmpty_eq_false_iff.mpr (Text.pieces_ne_nil _ before)
    unfold divide partsToFind
    dsimp only
    rw [hall, List.takeWhile_append_of_pos hbefore, List.dropWhile_append_of_pos hbefore, hparts,
      List.takeWhile_cons, if_neg hstop, List.dropWhile_cons, if_neg hstop, List.append_nil, hstart,
      hsome, if_neg Bool.false_ne_true]

/-- A pattern with a wildcard can be divided there. -/
theorem exists_eq_append_of_isWild {pattern : Text} (h : isWild pattern = true) :
    ∃ lead rest, pattern = lead ++ rest ∧ Slashed lead ∧ isWild lead = false ∧ StartsWild rest := by
  obtain ⟨fixed, hfixed⟩ :
      ∃ fixed, fixed = (Path.parts pattern).takeWhile fun part => !isWild part := ⟨_, rfl⟩
  obtain ⟨others, hothers⟩ :
      ∃ others, others = (Path.parts pattern).dropWhile fun part => !isWild part := ⟨_, rfl⟩
  have hall : Path.parts pattern = fixed ++ others := by
    rw [hfixed, hothers, List.takeWhile_append_dropWhile]
  have hplain : ∀ part ∈ fixed, isWild part = false := by
    intro part hpart
    rw [hfixed] at hpart
    simpa using List.mem_takeWhile_imp hpart
  have hslash : ∀ part ∈ fixed ++ others, Point.char '/' ∉ part := by
    rw [← hall]
    exact fun part hpart => Text.not_mem_of_mem_pieces hpart
  cases others with
  | nil =>
    -- some part is a wildcard
    rw [List.append_nil] at hall
    rw [isWild_eq_false_of_parts (by rwa [hall])] at h
    simp at h
  | cons part more =>
    have hwild : isWild part = true := by
      have hstop :=
        List.head_dropWhile_not (fun part => !isWild part) (hothers ▸ List.cons_ne_nil part more)
      simpa [← hothers] using hstop
    have hrest : Path.parts (Text.join "/" (part :: more)) = part :: more :=
      Path.pieces_join (List.cons_ne_nil part more) fun other hother =>
        hslash other (List.mem_append_right _ hother)
    have hstarts : StartsWild (Text.join "/" (part :: more)) := ⟨part, more, hrest, hwild⟩
    have hpattern : pattern = Text.join "/" (fixed ++ part :: more) := by
      rw [← hall]
      exact (Text.join_pieces '/' pattern).symm
    by_cases hnone : fixed = []
    · rw [hnone, List.nil_append] at hpattern
      exact ⟨[], _, hpattern, .inl rfl, rfl, hstarts⟩
    · refine ⟨Text.join "/" fixed ++ [.char '/'], _, ?_, .inr ⟨_, rfl⟩, ?_, hstarts⟩
      · rw [hpattern, Text.join_append hnone (List.cons_ne_nil part more), List.append_assoc]
        rfl
      · have hparts : Path.parts (Text.join "/" fixed) = fixed :=
          Path.pieces_join hnone fun other hother => hslash other (List.mem_append_left _ hother)
        rw [isWild_append, isWild_eq_false_of_parts (by rwa [hparts])]
        decide

theorem rootOf_divide {pattern : Text} (h : isWild pattern = true) :
    Path.rootOf (divide pattern).1 = Path.rootOf pattern
      ∧ Path.isAbsolute (divide pattern).1 = Path.isAbsolute pattern := by
  obtain ⟨lead, rest, rfl, hslash, hlead, hrest⟩ := exists_eq_append_of_isWild h
  obtain ⟨hroot, habsolute⟩ := Path.rootOf_trimSlashes lead
  rw [divide_append hslash hlead hrest, hroot, habsolute,
    Path.rootOf_append (.inr hrest.isAbsolute)]
  refine ⟨rfl, ?_⟩
  by_cases hne : lead = []
  · rw [hne, List.nil_append, hrest.isAbsolute]
    rfl
  · obtain ⟨p, more, rfl⟩ := List.exists_cons_of_ne_nil hne
    rfl

/-! ## 2. Paths that match -/

variable {w : Workspace}

/-- The paths that the parts of a pattern find, each part from the path that the one before it has
found. -/
inductive FindsParts (w : Workspace) : List Text → Text → Text → Prop
  | done (path : Text) : FindsParts w [] path path
  | step {part : Text} {parts : List Text} {path next found : Text}
      (hnext : FindsPart w parts.isEmpty part path next) (hfound : FindsParts w parts next found) :
      FindsParts w (part :: parts) path found

theorem mem_findParts_iff (h : w.Sound) (parts : List Text) (path found : Text) :
    found ∈ findParts w parts path ↔ FindsParts w parts path found := by
  induction parts generalizing path with
  | nil =>
    rw [findParts, List.mem_singleton]
    constructor
    · rintro rfl
      exact .done found
    · intro hfound
      cases hfound
      rfl
  | cons part parts ih =>
    rw [findParts, List.mem_flatMap]
    constructor
    · rintro ⟨next, hnext, hrest⟩
      exact .step ((mem_findPart_iff h _ _ _ _).mp hnext) ((ih next).mp hrest)
    · intro hfound
      cases hfound with
      | step hnext hrest => exact ⟨_, (mem_findPart_iff h _ _ _ _).mpr hnext, (ih _).mpr hrest⟩

/-- A pattern matches a path: its parts find it, from the path before the first wildcard on. A
pattern without wildcards matches itself. -/
def Matches (w : Workspace) (pattern path : Text) : Prop :=
  if isWild pattern = true then FindsParts w (divide pattern).2 (divide pattern).1 path
    else path = pattern

/-- What parts of a pattern find has the root of the path from which they start. -/
theorem FindsParts.rootOf (h : w.Sound) {parts : List Text}
    (hparts : ∀ part ∈ parts, Point.char '/' ∉ part) {path found : Text} (hne : path ≠ [])
    (hfound : FindsParts w parts path found) :
    Path.rootOf found = Path.rootOf path ∧ Path.isAbsolute found = Path.isAbsolute path := by
  induction hfound with
  | done path => exact ⟨rfl, rfl⟩
  | @step part parts path next found hnext _ ih =>
    obtain ⟨hpart, hlater⟩ := List.forall_mem_cons.mp hparts
    -- what the part finds is joined to the path, which keeps its root
    obtain ⟨more, hmore, rfl, -⟩ := hnext.exists_eq_join h hpart
    obtain ⟨hroot, habsolute⟩ := ih hlater (Path.join_ne_nil hne more)
    rw [hroot, habsolute, Path.rootOf_join hne hmore, Path.isAbsolute_join hmore]
    exact ⟨rfl, rfl⟩

/-- What parts of a pattern find has all points of the path from which they start. -/
theorem FindsParts.sublist (h : w.Sound) {parts : List Text}
    (hparts : ∀ part ∈ parts, Point.char '/' ∉ part) {path found : Text}
    (hfound : FindsParts w parts path found) : path <+ found := by
  induction hfound with
  | done path => exact List.Sublist.refl path
  | step hnext _ ih =>
    obtain ⟨hpart, hlater⟩ := List.forall_mem_cons.mp hparts
    obtain ⟨more, hmore, rfl, -⟩ := hnext.exists_eq_join h hpart
    exact (Path.sublist_join _ hmore).trans (ih hlater)

/-- What an absolute pattern matches is absolute and has its root. -/
theorem Matches.rootOf (h : w.Sound) {pattern path : Text}
    (habsolute : Path.isAbsolute pattern = true) (hmatches : Matches w pattern path) :
    Path.rootOf path = Path.rootOf pattern ∧ Path.isAbsolute path = true := by
  unfold Matches at hmatches
  split at hmatches
  · next hwild =>
    obtain ⟨hroot, hstart⟩ := rootOf_divide hwild
    have hne : (divide pattern).1 ≠ [] := by
      intro hnil
      rw [hnil, habsolute] at hstart
      exact absurd hstart (by decide)
    obtain ⟨hfound, hend⟩ := hmatches.rootOf h (not_mem_of_mem_divide pattern) hne
    rw [hfound, hend, hroot, hstart]
    exact ⟨rfl, habsolute⟩
  · rw [hmatches]
    exact ⟨rfl, habsolute⟩

/-! ## 3. What is listed -/

/-- Why no search for a pattern can start. -/
def refusal? (pattern : Text) : Option Refusal :=
  if isWild pattern = true then startRefusal? (divide pattern).1 else none

/-- The files that a pattern matches, under the paths that it matches, in ascending order. -/
structure Matched (w : Workspace) (pattern : Text) (paths : List Text) : Prop where
  ascending : paths.Pairwise (· < ·)
  mem_iff : ∀ path, path ∈ paths ↔ Matches w pattern path ∧ w.isFile path = true

/-- Among the files, a search finds those that the pattern matches. -/
theorem mem_search_iff (h : w.Sound) {pattern : Text} {found : List Text}
    (hfound : search w pattern = .ok found) {path : Text} (hfile : w.isFile path = true) :
    path ∈ found ↔ Matches w pattern path := by
  rw [Matches]
  rcases (search_eq_ok_iff w pattern found).mp hfound with ⟨hwild, -, rfl⟩ | ⟨hwild, rfl⟩
  · rw [hwild, if_pos rfl]
    exact mem_findParts_iff h _ _ path
  · rw [hwild]
    constructor
    · intro hpath
      split at hpath
      · exact List.mem_singleton.mp hpath
      · exact absurd hpath List.not_mem_nil
    · intro heq
      rw [heq] at hfile ⊢
      rw [if_pos (isThere_of_isFile hfile)]
      exact List.mem_singleton_self pattern

theorem search_eq_error_iff (w : Workspace) (pattern : Text) (refusal : Refusal) :
    search w pattern = .error refusal ↔ refusal? pattern = some refusal := by
  unfold search refusal?
  cases isWild pattern with
  | true =>
    rw [if_pos rfl, if_pos rfl]
    dsimp only
    cases startRefusal? (divide pattern).1 with
    | some cause => simp
    | none => simp
  | false =>
    rw [if_neg Bool.false_ne_true, if_neg Bool.false_ne_true]
    dsimp only
    split <;> simp

/-- The files of a pattern are those that it matches, in the order of the paths that it matches. -/
theorem exists_filesOf (h : w.Sound) {pattern : Text} (hstart : refusal? pattern = none)
    {paths : List Text} (hpaths : Matched w pattern paths) :
    ∃ files, filesOf w pattern = .ok files
      ∧ files.eraseDups = (paths.map w.absolute).eraseDups := by
  cases hsearch : search w pattern with
  | error refusal =>
    rw [search_eq_error_iff, hstart] at hsearch
    simp at hsearch
  | ok found =>
    have hsorted : Text.sorted paths = paths := by
      refine List.mergeSort_of_pairwise (hpaths.ascending.imp fun hlt => ?_)
      exact decide_eq_true (List.le_of_lt hlt)
    -- the search may find a path several times; sorted lists with the same members agree up to that
    have hsame : ((Text.sorted found).filter w.isFile).eraseDups
        = ((Text.sorted paths).filter fun _ => true).eraseDups := by
      refine eraseDups_filter_sorted fun path => ?_
      rw [hpaths.mem_iff, and_iff_left rfl]
      exact and_congr_left fun hfile => mem_search_iff h hsearch hfile
    refine ⟨_, (map_eq_ok_iff _ _ _).mpr ⟨found, hsearch, rfl⟩, ?_⟩
    rw [← eraseDups_map_eraseDups, hsame, hsorted, List.filter_true, eraseDups_map_eraseDups]

/-- What a pattern matches can be listed. -/
theorem exists_matched (h : w.Sound) (pattern : Text) : ∃ paths, Matched w pattern paths := by
  obtain ⟨found, hfound⟩ : ∃ found, ∀ path, path ∈ found ↔ Matches w pattern path := by
    unfold Matches
    split
    · exact ⟨_, mem_findParts_iff h _ _⟩
    · exact ⟨[pattern], fun path => List.mem_singleton⟩
  have hmem : ∀ path, path ∈ Text.sorted found ↔ path ∈ found := fun path => List.mem_mergeSort
  refine ⟨((Text.sorted found).filter w.isFile).eraseDups, ?_, ?_⟩
  · -- ascending, and no path twice
    have hle := ((pairwise_sorted found).filter w.isFile).sublist (eraseDups_sublist _)
    refine (hle.and (nodup_eraseDups _)).imp ?_
    rintro first second ⟨hle, hne⟩
    by_contra hlt
    exact hne (List.le_antisymm hle (List.not_lt.mp hlt))
  · intro path
    rw [List.mem_eraseDups, List.mem_filter, hmem, hfound]

/-- A list for each pattern, if there is one for each. -/
theorem exists_forall₂ {R : Text → List Text → Prop} {patterns : List Text}
    (h : ∀ pattern ∈ patterns, ∃ paths, R pattern paths) :
    ∃ lists, List.Forall₂ R patterns lists := by
  induction patterns with
  | nil => exact ⟨[], .nil⟩
  | cons pattern patterns ih =>
    obtain ⟨⟨paths, hpaths⟩, hlater⟩ := List.forall_mem_cons.mp h
    obtain ⟨lists, hlists⟩ := ih hlater
    exact ⟨paths :: lists, .cons hpaths hlists⟩

theorem exists_forall₂_matched (h : w.Sound) (patterns : List Text) :
    ∃ lists, List.Forall₂ (Matched w) patterns lists :=
  exists_forall₂ fun pattern _ => exists_matched h pattern

theorem filesOf_eq_error {pattern : Text} {refusal : Refusal}
    (h : refusal? pattern = some refusal) :
    filesOf w pattern = .error refusal := by
  rw [filesOf, (search_eq_error_iff w pattern refusal).mpr h]
  rfl

/-- What patterns find, one after the other. By induction on the patterns: a search for the first
one cannot start, or a later one stops the whole, or what the first one adds stands before the
rest. -/
theorem map_mapM_filesOf (h : w.Sound) {patterns : List Text} {lists : List (List Text)}
    (hlists : List.Forall₂ (Matched w) patterns lists) :
    (patterns.mapM (filesOf w)).map (fun found => found.flatten.eraseDups)
      = match patterns.findSome? refusal? with
        | some refusal => .error refusal
        | none => .ok (lists.flatten.map w.absolute).eraseDups := by
  induction hlists with
  | nil => rfl
  | @cons pattern paths patterns lists hpaths _ ih =>
    rw [List.mapM_cons, List.findSome?_cons]
    cases hstart : refusal? pattern with
    | some refusal =>
      rw [filesOf_eq_error hstart]
      rfl
    | none =>
      obtain ⟨files, hfiles, hsame⟩ := exists_filesOf h hstart hpaths
      rw [hfiles]
      dsimp only
      cases hrest : patterns.findSome? refusal? with
      | some refusal =>
        rw [hrest] at ih
        cases hmapM : patterns.mapM (filesOf w) with
        | ok found =>
          rw [hmapM] at ih
          simp [Except.map] at ih
        | error cause =>
          rw [hmapM] at ih
          exact ih
      | none =>
        rw [hrest] at ih
        obtain ⟨found, hfound, heq⟩ := (map_eq_ok_iff _ _ _).mp ih
        rw [hfound]
        change Except.ok (files ++ found.flatten).eraseDups = _
        rw [List.flatten_cons, List.map_append]
        exact congrArg Except.ok (eraseDups_append_congr hsame heq)

/-- **What a search lists.** It fails at the first pattern from whose path no search can start; else
it lists the files that the patterns match, each file once. -/
theorem findFiles_eq_of_matched (h : w.Sound) {root : Text} {patterns : List Text}
    {lists : List (List Text)}
    (hlists : List.Forall₂ (Matched w) (rooted root (patterns.flatMap expandBraces)) lists) :
    findFiles w root patterns
      = match (rooted root (patterns.flatMap expandBraces)).findSome? refusal? with
        | some refusal => .error refusal
        | none => .ok (lists.flatten.map w.absolute).eraseDups :=
  map_mapM_filesOf h hlists

end FieldAudit.Glob
