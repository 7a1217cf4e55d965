import FieldAudit.Glob.Search
import FieldAudit.Proofs.FileTree.Alike
import Mathlib.Data.List.TakeWhile

/-!
What a search looks at. A pattern finds a path part by part, and every place that it looks at on the
way is one that the path itself passes. So if a path leads to a file in two workspaces, a pattern
that finds it in one finds it in the other, whatever else there is (`exists_search_of_isFile`). A
path that is found goes up only where the pattern says so (`up_of_mem_search`).
-/

set_option autoImplicit false

namespace FieldAudit

namespace Glob

open Workspace (Alike find_of_find_join alike_of_isFile holds_of_isFile)

variable {w w' : Workspace}

/-! ## 1. One part of a pattern -/

/-- Where the directory at a path is; the empty path is the working directory. -/
theorem directoryAt?_eq_some_iff (h : w.Sound) (path : Text) (location : Location) :
    directoryAt? w path = some location
      ↔ w.endOf path = location ∧ (path = [] ∨ w.find path = .ok .directory) := by
  have hat : ∀ place : Text, place ≠ [] → (directoryAt? w place = some location
      ↔ w.endOf place = location ∧ w.find place = .ok .directory) := by
    intro place hne
    have hne : ¬ place = Text.ofString "" := hne
    rw [Workspace.find_eq_ok_iff_locate]
    unfold directoryAt?
    rw [if_neg hne]
    cases hlocate : w.locate place with
    | error kind => simp
    | ok found =>
      obtain ⟨-, -, -, rfl⟩ := (Workspace.locate_eq_ok_iff w place found).mp hlocate
      dsimp only
      split
      · next hnode => simp [hnode]
      · next hnode => simpa using fun _ => hnode
  by_cases hpath : path = []
  · -- the working directory is reached by a point, and ends where the empty path does
    have hpoint : directoryAt? w [] = directoryAt? w "." := rfl
    have hfollow : Workspace.follow w.tree w.directory ["."] = .ok w.directory := by
      have hsize : ¬ Path.longestName < Path.size (Text.ofString ".") := by decide
      rw [Workspace.follow, h.directory]
      dsimp only
      rw [if_neg hsize]
      change Workspace.follow w.tree w.directory [] = _
      rw [Workspace.follow, h.directory]
      rfl
    have hfind : w.find "." = .ok .directory :=
      (Workspace.find_eq_ok_iff w _ _).mpr ⟨by decide, by decide, hfollow, h.directory⟩
    rw [hpath, hpoint, hat _ (by decide)]
    exact and_congr Iff.rfl (iff_of_true hfind (.inl rfl))
  · rw [hat path hpath, or_iff_right hpath]

/-- Names that a wildcard admits below a directory: one that it fits, or any number of them for the
part that stands for any number of directories, none of which is hidden. -/
def Admits (part : Text) (names : List Text) : Prop :=
  if part = anyDepth then names.any isHidden = false
  else ∃ name, names = [name] ∧ finds part name = true

/-- What one part of a pattern finds from a path. -/
inductive FindsPart (w : Workspace) (final : Bool) (part path : Text) : Text → Prop
  /-- An empty part asks for a directory. -/
  | ending (hpart : part = []) (hpath : w.isDirectory path = true) :
    FindsPart w final part path (Path.join path [])
  /-- A part that is no wildcard has to be there. -/
  | literal (hpart : part ≠ []) (hwild : isWild part = false)
      (hthere : w.holds (Path.join path part) = true) :
    FindsPart w final part path (Path.join path part)
  /-- The part for any number of directories stands for none. -/
  | self (hpart : part = anyDepth) : FindsPart w final part path (Path.join path [])
  /-- A wildcard finds names below a directory. -/
  | below {location : Location} {names : List Text} {node : Node} (hwild : isWild part = true)
      (hat : directoryAt? w path = some location) (hne : names ≠ [])
      (hnode : w.tree.node? (location ++ names) = some node)
      (hkind : final = true ∨ node = .directory) (hadmits : Admits part names) :
    FindsPart w final part path (Path.join path (Text.join "/" names))

theorem isWild_anyDepth : isWild anyDepth = true := by decide

section FindPart

variable (h : w.Sound) (final : Bool) (path found : Text)

include h

/-- The part for any number of directories finds the path itself, and what is below it under names
that are not hidden. -/
theorem mem_findPart_anyDepth_iff :
    found ∈ findPart w final anyDepth path ↔ FindsPart w final anyDepth path found := by
  have hadmits : ∀ names, Admits anyDepth names ↔ names.any isHidden = false := by
    intro names
    rw [Admits, if_pos rfl]
  have hkind_iff : ∀ node : Node, (!final && node != .directory) = false
      ↔ final = true ∨ node = .directory := by
    intro node
    cases final <;> simp
  unfold findPart
  rw [if_neg (by decide), isWild_anyDepth, if_neg (by decide), if_pos rfl, List.mem_cons]
  constructor
  · rintro (rfl | hbelow)
    · exact .self rfl
    · split at hbelow
      · exact absurd hbelow List.not_mem_nil
      · next location hat =>
        obtain ⟨⟨names, node⟩, hmem, hfound⟩ := List.mem_filterMap.mp hbelow
        obtain ⟨hne, hnode⟩ := (h.tree.mem_below_iff location names node).mp hmem
        dsimp only at hfound
        split at hfound
        · simp at hfound
        · next hkept =>
          rw [Bool.or_eq_true, not_or, Bool.not_eq_true, Bool.not_eq_true, hkind_iff] at hkept
          obtain rfl := Option.some.inj hfound
          exact .below isWild_anyDepth hat hne hnode hkept.2 ((hadmits names).mpr hkept.1)
  · intro hfound
    cases hfound with
    | ending hpart hpath => exact absurd hpart (by decide)
    | literal hpart hwild hthere =>
      rw [isWild_anyDepth] at hwild
      simp at hwild
    | self hpart => exact .inl rfl
    | below hwild hat hne hnode hkind hadmitted =>
      rw [hat]
      refine .inr (List.mem_filterMap.mpr ⟨_, (h.tree.mem_below_iff _ _ _).mpr ⟨hne, hnode⟩, ?_⟩)
      dsimp only
      rw [(hadmits _).mp hadmitted, (hkind_iff _).mpr hkind]
      rfl

/-- Another wildcard finds names in the directory that it fits. -/
theorem mem_findPart_wild_iff {part : Text} (hwild : isWild part = true) (hpart : part ≠ anyDepth) :
    found ∈ findPart w final part path ↔ FindsPart w final part path found := by
  have hne : ¬ part = Text.ofString "" := by
    rintro rfl
    exact absurd hwild (by decide)
  unfold findPart
  rw [if_neg hne, hwild, if_neg (by decide), if_neg hpart]
  constructor
  · intro hfound
    split at hfound
    · exact absurd hfound List.not_mem_nil
    · next location hat =>
      obtain ⟨name, hname, hfound⟩ := List.mem_filterMap.mp hfound
      obtain ⟨node, hnode⟩ :=
        Option.isSome_iff_exists.mp ((h.tree.mem_childNames_iff location name).mp hname)
      split at hfound
      · next hkept =>
        rw [Bool.and_eq_true, Bool.or_eq_true, hnode] at hkept
        obtain rfl := Option.some.inj hfound
        have hjoin : Text.join "/" [name] = name := List.intercalate_singleton
        rw [← hjoin]
        refine .below hwild hat (List.cons_ne_nil name []) hnode ?_ ?_
        · exact hkept.2.imp_right fun heq => Option.some.inj (beq_iff_eq.mp heq)
        · rw [Admits, if_neg hpart]
          exact ⟨name, rfl, hkept.1⟩
      · simp at hfound
  · intro hfound
    cases hfound with
    | ending hempty hpath => exact absurd hempty hne
    | literal hpart hliteral hthere =>
      rw [hwild] at hliteral
      simp at hliteral
    | self hself => exact absurd hself hpart
    | below hwild hat hnonempty hnode hkind hadmitted =>
      rw [Admits, if_neg hpart] at hadmitted
      obtain ⟨name, rfl, hfits⟩ := hadmitted
      have hjoin : Text.join "/" [name] = name := List.intercalate_singleton
      rw [hat, hjoin]
      refine List.mem_filterMap.mpr ⟨name, ?_, ?_⟩
      · rw [h.tree.mem_childNames_iff, hnode]
        rfl
      · rw [hnode, hfits, Bool.true_and, if_pos]
        rw [Bool.or_eq_true]
        exact hkind.imp_right fun heq => by rw [heq, beq_self_eq_true]

omit h in
/-- An empty part finds the path itself if that is a directory. -/
theorem mem_findPart_empty_iff :
    found ∈ findPart w final [] path ↔ FindsPart w final [] path found := by
  unfold findPart
  rw [if_pos (by rfl)]
  constructor
  · intro hfound
    split at hfound
    · next hpath =>
      rw [List.mem_singleton.mp hfound]
      exact .ending rfl hpath
    · exact absurd hfound List.not_mem_nil
  · intro hfound
    cases hfound with
    | ending hempty hpath =>
      rw [if_pos hpath]
      exact List.mem_singleton_self _
    | literal hne => exact absurd rfl hne
    | self hself => exact absurd hself (by decide)
    | below hwild => exact absurd hwild (by decide)

omit h in
/-- A part that is no wildcard finds the path with this part behind it, if something is there. -/
theorem mem_findPart_literal_iff {part : Text} (hpart : part ≠ []) (hwild : isWild part = false) :
    found ∈ findPart w final part path ↔ FindsPart w final part path found := by
  have hne : ¬ part = Text.ofString "" := hpart
  unfold findPart
  rw [if_neg hne, hwild, Bool.not_false, if_pos rfl]
  constructor
  · intro hfound
    split at hfound
    · next hthere =>
      rw [List.mem_singleton.mp hfound]
      exact .literal hpart hwild hthere
    · exact absurd hfound List.not_mem_nil
  · intro hfound
    cases hfound with
    | ending hempty => exact absurd hempty hpart
    | literal hne hliteral hthere =>
      rw [if_pos hthere]
      exact List.mem_singleton_self _
    | self hself =>
      rw [hself, isWild_anyDepth] at hwild
      simp at hwild
    | below hother =>
      rw [hother] at hwild
      simp at hwild

/-- **What one part of a pattern finds.** -/
theorem mem_findPart_iff (part : Text) :
    found ∈ findPart w final part path ↔ FindsPart w final part path found := by
  by_cases hempty : part = []
  · rw [hempty]
    exact mem_findPart_empty_iff final path found
  by_cases hdepth : part = anyDepth
  · rw [hdepth]
    exact mem_findPart_anyDepth_iff h final path found
  cases hwild : isWild part with
  | false => exact mem_findPart_literal_iff final path found hempty hwild
  | true => exact mem_findPart_wild_iff h final path found hwild hdepth

end FindPart

/-! ## 2. Along a path -/

/-- What a part of a pattern finds goes on from the path, and goes up only if the part says so. -/
theorem FindsPart.exists_eq_join (h : w.Sound) {final : Bool} {part path found : Text}
    (hpart : Point.char '/' ∉ part) (hfound : FindsPart w final part path found) :
    ∃ more, Path.isAbsolute more = false ∧ found = Path.join path more
      ∧ (Text.ofString ".." ∈ Path.parts more → part = "..") := by
  have hempty : Text.ofString ".." ∉ Path.parts [] := by decide
  cases hfound with
  | ending => exact ⟨[], rfl, rfl, fun hup => absurd hup hempty⟩
  | literal hne =>
    obtain ⟨p, rest, rfl⟩ := List.exists_cons_of_ne_nil hne
    refine ⟨p :: rest, ?_, rfl, ?_⟩
    · rw [Path.isAbsolute, List.head?_cons]
      exact beq_eq_false_iff_ne.mpr fun heq => hpart (Option.some.inj heq ▸ List.mem_cons_self)
    · intro hup
      rw [Path.parts, Text.pieces_of_not_mem hpart, List.mem_singleton] at hup
      exact hup.symm
  | self => exact ⟨[], rfl, rfl, fun hup => absurd hup hempty⟩
  | @below location names node hwild hat hne hnode =>
    have hnames := h.isName_of_mem hnode
    refine ⟨Text.join "/" names, Path.isAbsolute_join_names hne hnames, rfl, ?_⟩
    intro hup
    rw [Path.parts_join_names hne hnames] at hup
    exact absurd rfl (hnames _ hup).ne_points

/-- A path before which another one leads somewhere in two workspaces. -/
theorem alike_of_alike_join {base path : Text} (hne : base ≠ [])
    (hpath : Path.isAbsolute path = false) (h : Alike w w' (Path.join base path)) :
    Alike w w' base := by
  cases h with
  | directories h h' | files h h' =>
    exact .directories (find_of_find_join hne hpath h) (find_of_find_join hne hpath h')

section Alike

variable (h : w.Sound) (h' : w'.Sound) (hdirectory : w'.directory = w.directory)

include h

/-- On the way to a path that leads somewhere in two workspaces, every path does, but for the empty
one. -/
theorem alike_of_mem_findParts {parts : List Text} (hparts : ∀ part ∈ parts, Point.char '/' ∉ part)
    {path found : Text} (hfound : found ∈ findParts w parts path) (halike : Alike w w' found) :
    path = [] ∨ Alike w w' path := by
  induction parts generalizing path with
  | nil =>
    rw [findParts, List.mem_singleton] at hfound
    rw [← hfound]
    exact .inr halike
  | cons part parts ih =>
    rw [findParts] at hfound
    obtain ⟨next, hnext, hrest⟩ := List.mem_flatMap.mp hfound
    have hlater := ih (fun other hother => hparts other (List.mem_cons_of_mem part hother)) hrest
    have hfinds := (mem_findPart_iff h _ _ _ _).mp hnext
    obtain ⟨more, hmore, rfl, -⟩ := hfinds.exists_eq_join h (hparts part List.mem_cons_self)
    by_cases hne : path = []
    · exact .inl hne
    · exact .inr (alike_of_alike_join hne hmore (hlater.resolve_left (Path.join_ne_nil hne more)))

include h' hdirectory

/-- What a part finds in one workspace it finds in the other, if it leads somewhere in both. -/
theorem FindsPart.of_alike {final : Bool} {part path found : Text}
    (hfound : FindsPart w final part path found) (halike : found = [] ∨ Alike w w' found) :
    FindsPart w' final part path found := by
  cases hfound with
  | ending hpart hpath =>
    have hne : path ≠ [] := by
      rintro rfl
      exact absurd hpath Bool.false_ne_true
    have hthere := halike.resolve_left (Path.join_ne_nil hne [])
    obtain ⟨node, hfind⟩ := hthere.exists_find
    exact .ending hpart ((Workspace.isDirectory_iff w' path).mpr (find_of_find_join hne rfl hfind))
  | literal hne hwild hthere =>
    have hnonempty : Path.join path part ≠ [] := by
      intro hnil
      rw [hnil] at hthere
      exact absurd hthere Bool.false_ne_true
    obtain ⟨node, hfind⟩ := (halike.resolve_left hnonempty).exists_find
    refine .literal hne hwild ?_
    rw [Workspace.holds, hfind]
  | self hpart => exact .self hpart
  | @below location names node hwild hat hne hnode hkind hadmits =>
    have hnames := h.isName_of_mem hnode
    have hmore := Path.isAbsolute_join_names hne hnames
    have hnonempty := Path.join_join_names_ne_nil hne hnames path
    have hthere := halike.resolve_left hnonempty
    obtain ⟨hend, hpath⟩ := (directoryAt?_eq_some_iff h path location).mp hat
    have hend' : w'.endOf path = location :=
      (Workspace.endOf_eq_of_directory hdirectory path).1.trans hend
    have hat' : directoryAt? w' path = some location := by
      refine (directoryAt?_eq_some_iff h' path location).mpr ⟨hend', ?_⟩
      by_cases hempty : path = []
      · exact .inl hempty
      · obtain ⟨found, hfind⟩ := hthere.exists_find
        exact .inr (find_of_find_join hempty hmore hfind)
    rw [← hend] at hnode
    obtain ⟨other, hother, hsame⟩ := hthere.exists_node? hne hnames hnode
    rw [hend'] at hother
    exact .below hwild hat' hne hother (hkind.imp_right hsame) hadmits

/-- What the parts of a pattern find in one workspace they find in the other, if it leads somewhere
in both. -/
theorem mem_findParts_of_alike {parts : List Text} (hparts : ∀ part ∈ parts, Point.char '/' ∉ part)
    {path found : Text} (hfound : found ∈ findParts w parts path) (halike : Alike w w' found) :
    found ∈ findParts w' parts path := by
  induction parts generalizing path with
  | nil => exact hfound
  | cons part parts ih =>
    rw [findParts] at hfound ⊢
    obtain ⟨next, hnext, hrest⟩ := List.mem_flatMap.mp hfound
    have hlater : ∀ other ∈ parts, Point.char '/' ∉ other :=
      fun other hother => hparts other (List.mem_cons_of_mem part hother)
    have hpassed := alike_of_mem_findParts h hlater hrest halike
    have hfinds := ((mem_findPart_iff h _ _ _ _).mp hnext).of_alike h h' hdirectory hpassed
    exact List.mem_flatMap.mpr ⟨next, (mem_findPart_iff h' _ _ _ _).mpr hfinds, ih hlater hrest⟩

end Alike

/-! ## 3. Searches -/

/-- The parts of a pattern that are looked for are parts of it. -/
theorem mem_parts_of_mem_divide {pattern part : Text} (h : part ∈ (divide pattern).2) :
    part ∈ Path.parts pattern := by
  have hrest : ∀ other ∈ (Path.parts pattern).dropWhile fun part => !isWild part,
      other ∈ Path.parts pattern := fun other hother => (List.dropWhile_sublist _).subset hother
  unfold divide at h
  dsimp only at h
  rcases List.mem_append.mp h with hkept | hending
  · exact hrest part (List.mem_filter.mp hkept).1
  · split at hending
    · next hlast =>
      rw [List.mem_singleton.mp hending]
      exact hrest [] (List.mem_of_getLast? hlast)
    · exact absurd hending List.not_mem_nil

/-- A path that a slash ends leads to no file. -/
theorem isFile_of_split_eq_empty {path : Text} (h : (Path.split path).2 = []) :
    w.isFile path = false := by
  unfold Path.split at h
  dsimp only at h
  rw [List.reverse_eq_nil_iff] at h
  rcases List.eq_nil_or_concat' path with rfl | ⟨before, last, rfl⟩
  · rfl
  · rw [List.reverse_append, List.reverse_singleton, List.singleton_append] at h
    obtain rfl : last = .char '/' := by
      by_contra hne
      simp [hne] at h
    unfold Workspace.isFile
    cases hfind : w.find (before ++ [.char '/']) with
    | error kind => rfl
    | ok node => rw [Workspace.find_concat_slash hfind]

/-- Whether a pattern without wildcards finds itself. -/
def isThere (w : Workspace) (pattern : Text) : Bool :=
  if (Path.split pattern).2 = [] then w.isDirectory (Path.split pattern).1 else w.holds pattern

theorem isThere_of_isFile {pattern : Text} (h : w.isFile pattern = true) :
    isThere w pattern = true := by
  have hlast : (Path.split pattern).2 ≠ [] := by
    intro hlast
    rw [isFile_of_split_eq_empty hlast] at h
    simp at h
  rw [isThere, if_neg hlast]
  exact holds_of_isFile h

/-- A pattern with wildcards is looked for part by part, from a path that can be looked at; another
one finds at most itself. -/
theorem search_eq_ok_iff (w : Workspace) (pattern : Text) (paths : List Text) :
    search w pattern = .ok paths
      ↔ (isWild pattern = true ∧ startRefusal? (divide pattern).1 = none
          ∧ paths = findParts w (divide pattern).2 (divide pattern).1)
        ∨ (isWild pattern = false ∧ paths = if isThere w pattern then [pattern] else []) := by
  unfold search
  cases isWild pattern with
  | true =>
    rw [if_pos rfl]
    dsimp only
    cases startRefusal? (divide pattern).1 with
    | some refusal => simp
    | none =>
      rw [Except.ok.injEq, @eq_comm _ _ paths]
      simp
  | false =>
    rw [if_neg Bool.false_ne_true]
    dsimp only
    unfold isThere
    by_cases hlast : (Path.split pattern).2 = []
    · have hlast' : (Path.split pattern).2 = Text.ofString "" := hlast
      rw [if_pos hlast', if_pos hlast, Except.ok.injEq, @eq_comm _ _ paths]
      simp
    · have hlast' : ¬ (Path.split pattern).2 = Text.ofString "" := hlast
      rw [if_neg hlast', if_neg hlast, Except.ok.injEq, @eq_comm _ _ paths]
      simp

/-- The parts of a pattern that are looked for hold no slash. -/
theorem not_mem_of_mem_divide (pattern : Text) :
    ∀ part ∈ (divide pattern).2, Point.char '/' ∉ part :=
  fun _ hpart => Text.not_mem_of_mem_pieces (mem_parts_of_mem_divide hpart)

/-- **What a search looks at.** A search fails or not whatever the files are; and what leads to a
file in two workspaces is found in both, if it is found in one. -/
theorem exists_search_of_isFile (h : w.Sound) (h' : w'.Sound)
    (hdirectory : w'.directory = w.directory) {pattern : Text} {paths : List Text}
    (hpaths : search w pattern = .ok paths) :
    ∃ others, search w' pattern = .ok others
      ∧ ∀ path ∈ paths, w.isFile path = true → w'.isFile path = true → path ∈ others := by
  rcases (search_eq_ok_iff w pattern paths).mp hpaths with ⟨hwild, hstart, rfl⟩ | ⟨hwild, rfl⟩
  · refine ⟨_, (search_eq_ok_iff w' pattern _).mpr (.inl ⟨hwild, hstart, rfl⟩), ?_⟩
    intro path hpath hfile hfile'
    exact mem_findParts_of_alike h h' hdirectory (not_mem_of_mem_divide pattern) hpath
      (alike_of_isFile hfile hfile')
  · refine ⟨_, (search_eq_ok_iff w' pattern _).mpr (.inr ⟨hwild, rfl⟩), ?_⟩
    intro path hpath _ hfile'
    split at hpath
    · obtain rfl := List.mem_singleton.mp hpath
      rw [if_pos (isThere_of_isFile hfile')]
      exact List.mem_singleton_self _
    · exact absurd hpath List.not_mem_nil

/-! ## 4. Going up -/

/-- What the parts of a pattern find goes up only if the path does from which they start, or one of
them says so. -/
theorem up_of_mem_findParts (h : w.Sound) {parts : List Text}
    (hparts : ∀ part ∈ parts, Point.char '/' ∉ part) {path found : Text}
    (hfound : found ∈ findParts w parts path) (hup : Text.ofString ".." ∈ Path.parts found) :
    Text.ofString ".." ∈ Path.parts path ∨ Text.ofString ".." ∈ parts := by
  induction parts generalizing path with
  | nil =>
    rw [findParts, List.mem_singleton] at hfound
    rw [← hfound]
    exact .inl hup
  | cons part parts ih =>
    rw [findParts] at hfound
    obtain ⟨next, hnext, hrest⟩ := List.mem_flatMap.mp hfound
    obtain ⟨more, -, rfl, hmore⟩ := ((mem_findPart_iff h _ _ _ _).mp hnext).exists_eq_join h
      (hparts part List.mem_cons_self)
    rcases ih (fun other hother => hparts other (List.mem_cons_of_mem part hother)) hrest with
      hjoin | hlater
    · refine (Path.mem_parts_join hjoin).imp_right fun hpart => ?_
      rw [hmore hpart]
      exact List.mem_cons_self
    · exact .inr (List.mem_cons_of_mem part hlater)

/-- Slashes at the end add no part but empty ones. -/
theorem mem_parts_of_mem_parts_trimSlashes {path part : Text}
    (h : part ∈ Path.parts (Path.trimSlashes path)) :
    part ∈ Path.parts path := by
  obtain ⟨slashes, heq, hslashes, -⟩ := Path.exists_eq_trimSlashes_append path
  rw [heq]
  cases slashes with
  | nil => rwa [List.append_nil]
  | cons p slashes =>
    rw [hslashes p List.mem_cons_self, Path.parts_append_slash]
    exact List.mem_append_left _ h

/-- The path from which a search starts goes up only if the pattern does. -/
theorem up_of_mem_divide {pattern : Text} (h : Text.ofString ".." ∈ Path.parts (divide pattern).1) :
    Text.ofString ".." ∈ Path.parts pattern := by
  unfold divide at h
  dsimp only at h
  split at h
  · exact absurd h (by decide)
  · have hfixed : ∀ part ∈ (Path.parts pattern).takeWhile fun part => !isWild part,
        part ∈ Path.parts pattern := fun part hpart => (List.takeWhile_sublist _).subset hpart
    have hslash : ∀ part ∈ ((Path.parts pattern).takeWhile fun part => !isWild part) ++ [[]],
        Point.char '/' ∉ part := by
      refine List.forall_mem_append.mpr ⟨?_, List.forall_mem_singleton.mpr List.not_mem_nil⟩
      exact fun part hpart => Text.not_mem_of_mem_pieces (hfixed part hpart)
    have hjoined := mem_parts_of_mem_parts_trimSlashes h
    rw [Path.parts, Path.pieces_join (List.append_ne_nil_of_right_ne_nil _ (List.cons_ne_nil [] []))
      hslash] at hjoined
    rcases List.mem_append.mp hjoined with hup | hempty
    · exact hfixed _ hup
    · exact absurd hempty (by decide)

/-- **A search goes up only where its pattern does.** -/
theorem up_of_mem_search (h : w.Sound) {pattern path : Text} {paths : List Text}
    (hpaths : search w pattern = .ok paths) (hpath : path ∈ paths)
    (hup : Text.ofString ".." ∈ Path.parts path) : Text.ofString ".." ∈ Path.parts pattern := by
  rcases (search_eq_ok_iff w pattern paths).mp hpaths with ⟨-, -, rfl⟩ | ⟨-, rfl⟩
  · rcases up_of_mem_findParts h (not_mem_of_mem_divide pattern) hpath hup with hstart | hparts
    · exact up_of_mem_divide hstart
    · exact mem_parts_of_mem_divide hparts
  · -- a pattern without wildcards finds nothing but itself
    split at hpath
    · rwa [← List.mem_singleton.mp hpath]
    · exact absurd hpath List.not_mem_nil

end Glob

end FieldAudit
