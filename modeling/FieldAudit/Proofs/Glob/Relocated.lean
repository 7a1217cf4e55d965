import FieldAudit.Proofs.Glob.Place

/-!
The root of a search as a place. Patterns that do not leave the place below which they are looked
for find there what its files are, wherever the place is: from two places with the same files below
them, the parts of a pattern find paths that go on alike (`Twins.exists_findsParts`), and so the
same files are listed, in the same order (`findFiles_relocated`). The path of the place has to be
free of wildcards, though: it is read as the beginning of every pattern, and so a root with a
bracket in its name stands for other places than itself (`findFiles_not_relocated`).
-/

set_option autoImplicit false

namespace FieldAudit.Glob

open FieldAudit.Path (Descends)

variable {w w' : Workspace} {root root' : Text}

/-! ## 1. Two places -/

/-- Two places below which the same files are. -/
structure Twins (w w' : Workspace) (root root' : Text) : Prop where
  first : Place w root
  second : Place w' root'
  same : ∀ names, w'.tree.node? (Path.names root' ++ names)
    = w.tree.node? (Path.names root ++ names)

/-- Paths that go on alike from two places. -/
inductive Beside (root root' : Text) : Text → Text → Prop
  | here : Beside root root' root root'
  | below {path : Text} (hpath : Descends path) :
      Beside root root' (Path.join root path) (Path.join root' path)

theorem Twins.symm (h : Twins w w' root root') : Twins w' w root' root :=
  ⟨h.second, h.first, fun names => (h.same names).symm⟩

theorem Beside.join {path path' more : Text} (h : Beside root root' path path')
    (hmore : Descends more) :
    Beside root root' (Path.join path more) (Path.join path' more) := by
  cases h with
  | here => exact .below hmore
  | @below path hpath =>
    rw [Path.join_assoc root hpath.relative hmore.relative,
      Path.join_assoc root' hpath.relative hmore.relative]
    exact .below (hpath.join hmore)

/-- Searches for a pattern start from paths that go on alike. -/
theorem beside_start {lead rest : Text} (h : Descends (lead ++ rest)) (hslash : Slashed lead) :
    Beside root root' (if lead = [] then root else Path.join root (Path.trimSlashes lead))
      (if lead = [] then root' else Path.join root' (Path.trimSlashes lead)) := by
  by_cases hne : lead = []
  · rw [if_pos hne, if_pos hne]
    exact .here
  · rw [if_neg hne, if_neg hne]
    exact .below (descends_trimSlashes h hslash hne)

namespace Twins

variable (h : Twins w w' root root')

include h

/-- The parts of a path are followed alike. By induction on the parts: without a part that goes up,
the way stays below the two places. -/
theorem exists_follow {parts : List Text} (hup : Text.ofString ".." ∉ parts) (names : List Text) :
    ∃ result : Except RefusalKind (List Text),
      Workspace.follow w.tree (Path.names root ++ names) parts = result.map (Path.names root ++ ·)
      ∧ Workspace.follow w'.tree (Path.names root' ++ names) parts
        = result.map (Path.names root' ++ ·) := by
  induction parts generalizing names with
  | nil =>
    rw [Workspace.follow, Workspace.follow, h.same]
    split
    · exact ⟨.ok names, rfl, rfl⟩
    · exact ⟨.error .missing, rfl, rfl⟩
  | cons part parts ih =>
    rw [List.mem_cons, not_or] at hup
    obtain ⟨hpart, hlater⟩ := hup
    have hstep : ∀ before, Path.step (before ++ names) part = before ++ Path.step names part := by
      intro before
      exact Path.foldl_step_append (fun hmem => hpart (List.mem_singleton.mp hmem)) before names
    rw [Workspace.follow, Workspace.follow, h.same]
    cases w.tree.node? (Path.names root ++ names) with
    | none => exact ⟨.error .missing, rfl, rfl⟩
    | some node =>
      cases node with
      | file bytes => exact ⟨.error .notDirectory, rfl, rfl⟩
      | directory =>
        dsimp only
        split
        · exact ⟨.error .tooLong, rfl, rfl⟩
        · rw [hstep, hstep]
          exact ih hlater (Path.step names part)

/-- Paths that go on alike lead to the same, if the file system takes both. -/
theorem find_eq {path path' : Text} (hbeside : Beside root root' path path')
    (htaken : RefusalKind.ofPath? path = none) (htaken' : RefusalKind.ofPath? path' = none) :
    w'.find path' = w.find path := by
  cases hbeside with
  | here => rw [h.first.directory, h.second.directory]
  | @below path hpath =>
    obtain ⟨result, hfirst, hsecond⟩ := h.exists_follow hpath.no_up []
    rw [List.append_nil] at hfirst hsecond
    unfold Workspace.find
    rw [h.first.locate_join hpath.relative htaken, h.second.locate_join hpath.relative htaken',
      hfirst, hsecond]
    cases result with
    | error kind => rfl
    | ok names =>
      dsimp only [Except.map]
      rw [h.same]

/-- Paths that go on alike end at the same names below the two places. -/
theorem exists_endOf {path path' : Text} (hbeside : Beside root root' path path') :
    ∃ names, w.endOf path = Path.names root ++ names
      ∧ w'.endOf path' = Path.names root' ++ names := by
  cases hbeside with
  | here =>
    refine ⟨[], ?_, ?_⟩
    · rw [List.append_nil, Workspace.endOf_of_isAbsolute h.first.absolute]
    · rw [List.append_nil, Workspace.endOf_of_isAbsolute h.second.absolute]
  | @below path hpath =>
    exact ⟨Path.names path, h.first.endOf_join hpath, h.second.endOf_join hpath⟩

/-- Paths that go on alike lead to the same, if the file system takes what is joined to them. -/
theorem find_eq_of_join {path path' more : Text} (hbeside : Beside root root' path path')
    (hmore : Path.isAbsolute more = false)
    (htaken : RefusalKind.ofPath? (Path.join path more) = none)
    (htaken' : RefusalKind.ofPath? (Path.join path' more) = none) : w'.find path' = w.find path :=
  h.find_eq hbeside (Workspace.ofPath?_sublist (Path.sublist_join path hmore) htaken)
    (Workspace.ofPath?_sublist (Path.sublist_join path' hmore) htaken')

theorem kind_startRefusal? {path path' : Text} (hbeside : Beside root root' path path') :
    (startRefusal? path').map Refusal.kind = (startRefusal? path).map Refusal.kind := by
  cases hbeside with
  | here => rw [h.first.startRefusal?_eq_none, h.second.startRefusal?_eq_none]
  | below hpath =>
    rw [h.first.kind_startRefusal? hpath.relative, h.second.kind_startRefusal? hpath.relative]

/-! ## 2. Searches below two places -/

/-- What a part of a pattern finds from a path below one place it finds below the other one, if the
file system takes it. -/
theorem exists_findsPart {final : Bool} {part path path' found : Text}
    (hslash : Point.char '/' ∉ part) (hpart : part ≠ "..") (hbeside : Beside root root' path path')
    (hfound : FindsPart w final part path found) :
    ∃ found', Beside root root' found found'
      ∧ (RefusalKind.ofPath? found = none → RefusalKind.ofPath? found' = none →
        FindsPart w' final part path' found') := by
  cases hfound with
  | ending hnone hpath =>
    refine ⟨_, hbeside.join Path.descends_nil, fun htaken htaken' => .ending hnone ?_⟩
    rw [Workspace.isDirectory_iff] at hpath ⊢
    rw [h.find_eq_of_join hbeside rfl htaken htaken', hpath]
  | literal hne hwild hthere =>
    have hnext := hbeside.join (Path.descends_of_not_mem hslash hpart)
    refine ⟨_, hnext, fun htaken htaken' => .literal hne hwild ?_⟩
    rw [Workspace.holds, h.find_eq hnext htaken htaken']
    exact hthere
  | self hdepth => exact ⟨_, hbeside.join Path.descends_nil, fun _ _ => .self hdepth⟩
  | @below location names node hwild hat hne hnode hkind hadmits =>
    -- the directory that is listed is there below the other place, and the same node is below it
    have hnames := h.first.sound.isName_of_mem hnode
    have hmore := Path.descends_join_names hne hnames
    refine ⟨_, hbeside.join hmore, fun htaken htaken' => ?_⟩
    obtain ⟨rfl, hdirectory⟩ := (directoryAt?_eq_some_iff h.first.sound path location).mp hat
    obtain ⟨between, hend, hend'⟩ := h.exists_endOf hbeside
    have hsome : path ≠ [] := by
      cases hbeside with
      | here => exact h.first.ne_nil
      | below => exact Path.join_ne_nil h.first.ne_nil _
    have hat' : directoryAt? w' path' = some (w'.endOf path') := by
      refine (directoryAt?_eq_some_iff h.second.sound path' _).mpr ⟨rfl, .inr ?_⟩
      rw [h.find_eq_of_join hbeside hmore.relative htaken htaken']
      exact hdirectory.resolve_left hsome
    refine .below hwild hat' hne ?_ hkind hadmits
    rw [hend, List.append_assoc] at hnode
    rw [hend', List.append_assoc, h.same, hnode]

/-- What parts of a pattern find from a path below one place they find below the other one, if the
file system takes it. -/
theorem exists_findsParts {parts : List Text} (hslash : ∀ part ∈ parts, Point.char '/' ∉ part)
    (hup : Text.ofString ".." ∉ parts) {path path' found : Text}
    (hbeside : Beside root root' path path') (hfound : FindsParts w parts path found) :
    ∃ found', Beside root root' found found'
      ∧ (RefusalKind.ofPath? found = none → RefusalKind.ofPath? found' = none →
        FindsParts w' parts path' found') := by
  induction hfound generalizing path' with
  | done path => exact ⟨path', hbeside, fun _ _ => .done path'⟩
  | @step part parts path next found hnext hrest ih =>
    obtain ⟨hpart, hlater⟩ := List.forall_mem_cons.mp hslash
    rw [List.mem_cons, not_or] at hup
    obtain ⟨next', hbeside', hstep⟩ := h.exists_findsPart hpart (Ne.symm hup.1) hbeside hnext
    obtain ⟨found', hend, hparts⟩ := ih hlater hup.2 hbeside'
    refine ⟨found', hend, fun htaken htaken' => ?_⟩
    -- the file system takes what leads to a path that it takes
    have hfound' := hparts htaken htaken'
    refine .step (hstep ?_ ?_) hfound'
    · exact Workspace.ofPath?_sublist (hrest.sublist h.first.sound hlater) htaken
    · exact Workspace.ofPath?_sublist (hfound'.sublist h.second.sound hlater) htaken'

/-- What a pattern matches below one place it matches below the other one, if the file system takes
it. -/
theorem exists_matches {choice found : Text} (hchoice : Descends choice)
    (hmatches : Matches w (Path.join root choice) found) :
    ∃ found', Beside root root' found found'
      ∧ (RefusalKind.ofPath? found = none → RefusalKind.ofPath? found' = none →
        Matches w' (Path.join root' choice) found') := by
  unfold Matches at hmatches ⊢
  rw [h.first.isWild_join hchoice.relative] at hmatches
  rw [h.second.isWild_join hchoice.relative]
  by_cases hwild : isWild choice = true
  · rw [if_pos hwild] at hmatches
    have hslash := not_mem_of_mem_divide (Path.join root choice)
    obtain ⟨lead, rest, rfl, hslashed, hlead, hrest⟩ := exists_eq_append_of_isWild hwild
    rw [h.first.divide_join hchoice.relative hslashed hlead hrest] at hmatches hslash
    rw [h.second.divide_join hchoice.relative hslashed hlead hrest]
    have hparts : Text.ofString ".." ∉ partsToFind rest := by
      intro hmem
      refine hchoice.no_up (mem_parts_of_mem_divide ?_)
      rw [divide_append hslashed hlead hrest]
      exact hmem
    obtain ⟨found', hbeside, hfound'⟩ :=
      h.exists_findsParts hslash hparts (beside_start hchoice hslashed) hmatches
    refine ⟨found', hbeside, fun htaken htaken' => ?_⟩
    rw [if_pos hwild]
    exact hfound' htaken htaken'
  · rw [if_neg hwild] at hmatches
    rw [hmatches]
    refine ⟨_, .below hchoice, fun _ _ => ?_⟩
    rw [if_neg hwild]

/-- If no search for a pattern starts below one place, none starts below the other one, for the same
reason. -/
theorem kind_refusal? {choice : Text} (hchoice : Descends choice) :
    (refusal? (Path.join root' choice)).map Refusal.kind
      = (refusal? (Path.join root choice)).map Refusal.kind := by
  unfold refusal?
  rw [h.first.isWild_join hchoice.relative, h.second.isWild_join hchoice.relative]
  by_cases hwild : isWild choice = true
  · rw [if_pos hwild, if_pos hwild]
    obtain ⟨lead, rest, rfl, hslashed, hlead, hrest⟩ := exists_eq_append_of_isWild hwild
    rw [h.first.divide_join hchoice.relative hslashed hlead hrest,
      h.second.divide_join hchoice.relative hslashed hlead hrest]
    exact h.kind_startRefusal? (beside_start hchoice hslashed)
  · rw [if_neg hwild, if_neg hwild]

/-- A file that a pattern matches below one place is matched below the other one under the same
path, unless the path is too long there. -/
theorem exists_file {choice : Text} (hchoice : Descends choice) {found : Text}
    (hmatches : Matches w (Path.join root choice) found) (hfile : w.isFile found = true) :
    ∃ path, found = Path.join root path ∧ Descends path ∧ Path.names path ≠ []
      ∧ (RefusalKind.ofPath? (Path.join root' path) ≠ some .tooLong →
        Matches w' (Path.join root' choice) (Path.join root' path)
          ∧ w'.isFile (Path.join root' path) = true) := by
  obtain ⟨found', hbeside, hmatched⟩ := h.exists_matches hchoice hmatches
  obtain ⟨bytes, hfind⟩ := Workspace.isFile_iff.mp hfile
  cases hbeside with
  | here =>
    rw [h.first.directory] at hfind
    simp at hfind
  | @below path hpath =>
    have hleads := (Workspace.find_eq_ok_iff w _ _).mp hfind
    refine ⟨path, rfl, hpath, ?_, fun hshort => ?_⟩
    · -- a file is not the place itself
      intro hnil
      have hend := h.first.endOf_join hpath
      have hnode := hleads.node
      rw [hend, hnil, List.append_nil,
        (Workspace.find_eq_ok h.first.absolute h.first.directory).2.2] at hnode
      simp at hnode
    · have hstart : startRefusal? (Path.join root' path) = none := by
        have hsame := h.kind_startRefusal? (.below hpath)
        rw [(startRefusal?_eq_none_iff _).mpr (.inl hleads.taken)] at hsame
        exact Option.map_eq_none_iff.mp hsame
      have htaken' := ((startRefusal?_eq_none_iff _).mp hstart).resolve_right hshort
      refine ⟨hmatched hleads.taken htaken', Workspace.isFile_iff.mpr ⟨bytes, ?_⟩⟩
      rw [h.find_eq (.below hpath) hleads.taken htaken', hfind]

end Twins

/-! ## 3. What is listed -/

/-- Paths below a place come in the order of what is joined to it. -/
theorem join_lt_join_iff (root : Text) {first second : Text}
    (hfirst : Path.isAbsolute first = false) (hsecond : Path.isAbsolute second = false) :
    Path.join root first < Path.join root second ↔ first < second := by
  rw [Path.join_eq_append root hfirst, Path.join_eq_append root hsecond]
  induction Path.slashed root with
  | nil => exact Iff.rfl
  | cons p lead ih =>
    have hirrefl : ¬ p < p := Nat.lt_irrefl p.code
    rw [List.cons_append, List.cons_append, List.cons_lt_cons_iff, or_iff_right hirrefl,
      and_iff_right rfl, ih]

/-- The files that a pattern matches below a place would have paths below another place that are not
too long for the file system. -/
def Fits (w : Workspace) (root root' choice : Text) : Prop :=
  ∀ path, Path.isAbsolute path = false → Matches w (Path.join root choice) (Path.join root path) →
    w.isFile (Path.join root path) = true →
      RefusalKind.ofPath? (Path.join root' path) ≠ some .tooLong

/-- Paths below a place that takes no more bytes are not too long. -/
theorem Twins.fits (h : Twins w w' root root')
    (hsize : Path.size (Path.slashed root') ≤ Path.size (Path.slashed root)) (choice : Text) :
    Fits w root root' choice := by
  intro path hpath _ hfile
  obtain ⟨lead, hlead, -, hjoin⟩ := h.first.exists_bytes_join
  obtain ⟨lead', hlead', hnull', hjoin'⟩ := h.second.exists_bytes_join
  rw [Path.size, Path.size, hlead, hlead'] at hsize
  dsimp only at hsize
  obtain ⟨node, hfind⟩ := Workspace.isFile_iff.mp hfile
  have htaken := ((Workspace.find_eq_ok_iff w _ _).mp hfind).taken
  obtain ⟨bytes, hbytes, hnull, hshort⟩ := (Workspace.ofPath?_eq_none_iff _).mp htaken
  obtain ⟨own, hown, rfl⟩ := (hjoin path hpath bytes).mp hbytes
  -- the path below the other place has bytes that are no more
  have htaken' : RefusalKind.ofPath? (Path.join root' path) = none := by
    refine (Workspace.ofPath?_eq_none_iff _).mpr
      ⟨lead' ++ own, (hjoin' path hpath _).mpr ⟨own, hown, rfl⟩, ?_, ?_⟩
    · rw [List.contains_append, Bool.or_eq_false_iff] at hnull ⊢
      exact ⟨hnull', hnull.2⟩
    · rw [List.length_append] at hshort ⊢
      omega
  rw [htaken']
  simp

/-- A pattern matches the same paths below two places: each of them descends, to something. -/
structure MatchedBelow (w w' : Workspace) (root root' choice : Text) (paths : List Text) :
    Prop where
  descend : ∀ path ∈ paths, Descends path ∧ Path.names path ≠ []
  first : Matched w (Path.join root choice) (paths.map (Path.join root))
  second : Matched w' (Path.join root' choice) (paths.map (Path.join root'))

/-- Paths that are all joined to one root, as what is joined to it. -/
theorem exists_map_join {P : Text → Prop} {found : List Text}
    (h : ∀ full ∈ found, ∃ path, Path.join root path = full ∧ P path) :
    ∃ paths : List Text, found = paths.map (Path.join root) ∧ ∀ path ∈ paths, P path := by
  induction found with
  | nil => exact ⟨[], rfl, fun path hpath => absurd hpath List.not_mem_nil⟩
  | cons full found ih =>
    obtain ⟨⟨path, rfl, hpath⟩, hlater⟩ := List.forall_mem_cons.mp h
    obtain ⟨paths, rfl, hpaths⟩ := ih hlater
    exact ⟨path :: paths, rfl, List.forall_mem_cons.mpr ⟨hpath, hpaths⟩⟩

theorem Twins.exists_matchedBelow (h : Twins w w' root root') {choice : Text}
    (hchoice : Descends choice) (hfits : Fits w root root' choice)
    (hfits' : Fits w' root' root choice) :
    ∃ paths, MatchedBelow w w' root root' choice paths := by
  obtain ⟨found, hfound⟩ := exists_matched h.first.sound (Path.join root choice)
  have hjoined : ∀ full ∈ found, ∃ path, Path.join root path = full ∧ Descends path
      ∧ Path.names path ≠ [] := by
    intro full hfull
    obtain ⟨hmatches, hfile⟩ := (hfound.mem_iff full).mp hfull
    obtain ⟨path, heq, hpath, hne, -⟩ := h.exists_file hchoice hmatches hfile
    exact ⟨path, heq.symm, hpath, hne⟩
  obtain ⟨paths, rfl, hpaths⟩ := exists_map_join hjoined
  refine ⟨paths, hpaths, hfound, ?_, ?_⟩
  · have hascending := hfound.ascending
    rw [List.pairwise_map] at hascending ⊢
    refine hascending.imp_of_mem ?_
    intro first second hfirst hsecond hlt
    rw [join_lt_join_iff _ (hpaths _ hfirst).1.relative (hpaths _ hsecond).1.relative] at hlt ⊢
    exact hlt
  · intro full
    -- what is matched below one place is matched below the other one, both ways
    constructor
    · intro hfull
      obtain ⟨path, hpath, rfl⟩ := List.mem_map.mp hfull
      obtain ⟨hmatches, hfile⟩ := (hfound.mem_iff _).mp (List.mem_map_of_mem hpath)
      obtain ⟨other, heq, hother, -, hmatched⟩ := h.exists_file hchoice hmatches hfile
      obtain rfl := Path.join_injective (hpaths path hpath).1.relative hother.relative heq
      exact hmatched (hfits path (hpaths path hpath).1.relative hmatches hfile)
    · rintro ⟨hmatches, hfile⟩
      obtain ⟨path, rfl, hpath, -, hmatched⟩ := h.symm.exists_file hchoice hmatches hfile
      have hmem := (hfound.mem_iff _).mpr (hmatched (hfits' path hpath.relative hmatches hfile))
      obtain ⟨other, hother, heq⟩ := List.mem_map.mp hmem
      obtain rfl := Path.join_injective (hpaths other hother).1.relative hpath.relative heq
      exact List.mem_map_of_mem hother

theorem descend_of_forall₂ {choices : List Text} {lists : List (List Text)}
    (h : List.Forall₂ (MatchedBelow w w' root root') choices lists) :
    ∀ path ∈ lists.flatten, Descends path ∧ Path.names path ≠ [] := by
  induction h with
  | nil => exact fun path hpath => absurd hpath List.not_mem_nil
  | cons hpaths _ ih =>
    rw [List.flatten_cons]
    exact List.forall_mem_append.mpr ⟨hpaths.descend, ih⟩

/-- Paths below a place in normal form, each once. -/
theorem Place.eraseDups_absolute (h : Place w root) {paths : List Text}
    (hpaths : ∀ path ∈ paths, Descends path ∧ Path.names path ≠ []) :
    ((paths.map (Path.join root)).map w.absolute).eraseDups
      = (paths.map fun path => Text.join "/" (Path.names path)).eraseDups.map (Path.join root) := by
  have hmap : (paths.map (Path.join root)).map w.absolute
      = (paths.map fun path => Text.join "/" (Path.names path)).map (Path.join root) := by
    rw [List.map_map, List.map_map]
    refine List.map_congr_left fun path hpath => ?_
    exact h.absolute_join (hpaths path hpath).1 (hpaths path hpath).2
  have hrelative : ∀ path ∈ paths.map fun path =>
      Text.join "/" (Path.names path), Path.isAbsolute path = false := by
    intro path hpath
    obtain ⟨before, hbefore, rfl⟩ := List.mem_map.mp hpath
    exact Path.isAbsolute_join_names (hpaths before hbefore).2 (Path.isName_of_mem_names before)
  rw [hmap]
  refine eraseDups_map_of_injective ?_
  intro first hfirst second hsecond heq
  exact Path.join_injective (hrelative first hfirst) (hrelative second hsecond) heq

/-- If no search starts below one place, none starts below the other one, for the same reason. -/
theorem Twins.kind_findSome? (h : Twins w w' root root') {choices : List Text}
    (hchoices : ∀ choice ∈ choices, Descends choice) :
    ((rooted root' choices).findSome? refusal?).map Refusal.kind
      = ((rooted root choices).findSome? refusal?).map Refusal.kind := by
  induction choices with
  | nil => rfl
  | cons choice choices ih =>
    obtain ⟨hchoice, hlater⟩ := List.forall_mem_cons.mp hchoices
    have hkind := h.kind_refusal? hchoice
    have hrest := ih hlater
    rw [rooted, rooted, List.map_cons, List.map_cons, List.findSome?_cons, List.findSome?_cons]
    cases hfirst : refusal? (Path.join root choice) with
    | some refusal =>
      rw [hfirst] at hkind
      obtain ⟨refusal', hrefusal', hsame⟩ := Option.map_eq_some_iff.mp hkind
      rw [hrefusal']
      exact congrArg some hsame
    | none =>
      rw [hfirst] at hkind
      rw [Option.map_eq_none_iff.mp hkind]
      exact hrest

/-- **The root of a search is a place.** Below two places with the same files, patterns that do not
leave them list the same files in the same order, each by its names below the place; or no search
starts, for the same reason. -/
theorem findFiles_relocated (h : Twins w w' root root') {patterns : List Text}
    (hpatterns : ∀ choice ∈ patterns.flatMap expandBraces,
      Descends choice ∧ Fits w root root' choice ∧ Fits w' root' root choice) :
    (∃ refusal refusal', findFiles w root patterns = .error refusal
      ∧ findFiles w' root' patterns = .error refusal' ∧ refusal'.kind = refusal.kind)
    ∨ ∃ paths : List Text,
      (∀ path ∈ paths, ∃ names, names ≠ [] ∧ (∀ name ∈ names, Path.IsName name)
        ∧ path = Text.join "/" names)
      ∧ findFiles w root patterns = .ok (paths.map (Path.join root))
      ∧ findFiles w' root' patterns = .ok (paths.map (Path.join root')) := by
  obtain ⟨lists, hlists⟩ : ∃ lists,
      List.Forall₂ (MatchedBelow w w' root root') (patterns.flatMap expandBraces) lists := by
    refine exists_forall₂ fun choice hmem => ?_
    obtain ⟨hchoice, hfits, hfits'⟩ := hpatterns choice hmem
    exact h.exists_matchedBelow hchoice hfits hfits'
  have hfirst : List.Forall₂ (Matched w) (rooted root (patterns.flatMap expandBraces))
      (lists.map (List.map (Path.join root))) := by
    rw [rooted, List.forall₂_map_left_iff, List.forall₂_map_right_iff]
    exact hlists.imp fun _ _ hpaths => hpaths.first
  have hsecond : List.Forall₂ (Matched w') (rooted root' (patterns.flatMap expandBraces))
      (lists.map (List.map (Path.join root'))) := by
    rw [rooted, List.forall₂_map_left_iff, List.forall₂_map_right_iff]
    exact hlists.imp fun _ _ hpaths => hpaths.second
  have hall := descend_of_forall₂ hlists
  have hkinds := h.kind_findSome? fun choice hchoice => (hpatterns choice hchoice).1
  rw [findFiles_eq_of_matched h.first.sound hfirst, findFiles_eq_of_matched h.second.sound hsecond,
    ← List.map_flatten, ← List.map_flatten, h.first.eraseDups_absolute hall,
    h.second.eraseDups_absolute hall]
  -- the searches start below both places or below neither
  cases hstart : (rooted root (patterns.flatMap expandBraces)).findSome? refusal? with
  | some refusal =>
    rw [hstart] at hkinds
    obtain ⟨refusal', hrefusal', hsame⟩ := Option.map_eq_some_iff.mp hkinds
    rw [hrefusal']
    exact .inl ⟨refusal, refusal', rfl, rfl, hsame⟩
  | none =>
    rw [hstart] at hkinds
    rw [Option.map_eq_none_iff.mp hkinds]
    refine .inr ⟨_, ?_, rfl, rfl⟩
    intro path hpath
    obtain ⟨before, hbefore, rfl⟩ := List.mem_map.mp (List.mem_eraseDups.mp hpath)
    exact ⟨Path.names before, (hall before hbefore).2, Path.isName_of_mem_names before, rfl⟩

/-! ## 4. Four directories -/

/-- Three directories with the same file in each, one of them with a bracket in its name, and a
fourth directory, for which that name stands as a wildcard. -/
def quarters : Workspace where
  tree := ⟨[
    (["a[1]"], .directory), (["a[1]", "x.ts"], .file []),
    (["b"], .directory), (["b", "x.ts"], .file []),
    (["c"], .directory), (["c", "x.ts"], .file []),
    (["a1"], .directory), (["a1", "z.ts"], .file [])]⟩
  directory := []

theorem quarters_values :
    (findFiles quarters "/b" ["*.ts"]).toOption = some ([("/b/x.ts" : Text)])
    ∧ (findFiles quarters "/a[1]" ["*.ts"]).toOption = some ([("/a1/z.ts" : Text)]) := by
  decide +kernel

theorem sound_quarters : quarters.Sound := by decide

theorem place_quarters : ∀ root ∈ ([("/b" : Text), "/c"]), Place quarters root := by
  intro root hroot
  have hvalues : Path.isAbsolute root = true ∧ quarters.absolute root = root
      ∧ (quarters.find root).toOption = some .directory ∧ isWild root = false := by
    revert root
    decide
  obtain ⟨habsolute, hnormal, hdirectory, hliteral⟩ := hvalues
  exact ⟨sound_quarters, habsolute, hnormal, eq_ok_of_toOption_eq_some hdirectory, hliteral⟩

/-- The same files are below three of the directories. -/
theorem same_quarters (names : List Text) :
    quarters.tree.node? (Path.names "/c" ++ names) = quarters.tree.node? (Path.names "/b" ++ names)
      ∧ quarters.tree.node? (Path.names "/a[1]" ++ names)
        = quarters.tree.node? (Path.names "/b" ++ names) :=
  ⟨sound_quarters.tree.node?_eq_of_below sound_quarters.tree (by decide) (by decide) names,
    sound_quarters.tree.node?_eq_of_below sound_quarters.tree (by decide) (by decide) names⟩

theorem twins_quarters : Twins quarters quarters "/b" "/c" :=
  ⟨place_quarters _ (by decide), place_quarters _ (by decide), fun names => (same_quarters names).1⟩

/-- The file in one directory is found, and so is the one in the other directory. -/
theorem findFiles_relocated_quarters :
    Twins quarters quarters "/b" "/c"
      ∧ (∀ choice ∈ [("*.ts" : Text)].flatMap expandBraces,
        Descends choice ∧ Fits quarters "/b" "/c" choice ∧ Fits quarters "/c" "/b" choice)
      ∧ findFiles quarters "/b" ["*.ts"] = .ok ["/b/x.ts"]
      ∧ findFiles quarters "/c" ["*.ts"] = .ok ["/c/x.ts"] := by
  have hpatterns : ∀ choice ∈ [("*.ts" : Text)].flatMap expandBraces,
      Descends choice ∧ Fits quarters "/b" "/c" choice ∧ Fits quarters "/c" "/b" choice := by
    intro choice hchoice
    refine ⟨?_, twins_quarters.fits (by decide) choice, twins_quarters.symm.fits (by decide) choice⟩
    obtain rfl : choice = "*.ts" := List.mem_singleton.mp hchoice
    exact ⟨by decide, by decide⟩
  obtain ⟨hfiles, -⟩ := quarters_values
  have hfiles := eq_ok_of_toOption_eq_some hfiles
  refine ⟨twins_quarters, hpatterns, hfiles, ?_⟩
  rcases findFiles_relocated twins_quarters hpatterns with
    ⟨refusal, -, hrefused, -⟩ | ⟨paths, hpaths, hfirst, hsecond⟩
  · rw [hfiles] at hrefused
    simp at hrefused
  · rw [hfiles] at hfirst
    obtain ⟨path, rfl, hpath⟩ := List.map_eq_singleton_iff.mp (Except.ok.inj hfirst).symm
    obtain ⟨names, hne, hnames, heq⟩ := hpaths path List.mem_cons_self
    have hrelative : Path.isAbsolute path = false := heq ▸ Path.isAbsolute_join_names hne hnames
    have hjoin : Path.join "/b" "x.ts" = "/b/x.ts" := by decide
    obtain rfl := Path.join_injective hrelative (by decide) (hpath.trans hjoin.symm)
    exact hsecond

/-- Below the directory with the bracket in its name the file is not found, but one that is not
below it. -/
theorem findFiles_not_relocated :
    quarters.Sound ∧ quarters.isDirectory "/b" = true ∧ quarters.isDirectory "/a[1]" = true
      ∧ (∀ names, quarters.tree.node? (Path.names "/a[1]" ++ names)
        = quarters.tree.node? (Path.names "/b" ++ names))
      ∧ expandBraces "*.ts" = ["*.ts"] ∧ Descends "*.ts"
      ∧ findFiles quarters "/b" ["*.ts"] = .ok ["/b/x.ts"]
      ∧ findFiles quarters "/a[1]" ["*.ts"] = .ok ["/a1/z.ts"] := by
  obtain ⟨hfiles, hothers⟩ := quarters_values
  exact ⟨sound_quarters, by decide, by decide, fun names => (same_quarters names).2, by decide,
    ⟨by decide, by decide⟩, eq_ok_of_toOption_eq_some hfiles, eq_ok_of_toOption_eq_some hothers⟩

end FieldAudit.Glob
