import FieldAudit.Proofs.FileTree.Normal
import FieldAudit.Proofs.Glob.Matched

/-!
The search for files as a union. What patterns find is what the first of them find and, behind it,
what the others add (`findFiles_append`); every file is there under the normal form of its path; and
the order of the entries of a directory does not matter. A file has one normal form below a root, so
it is listed once, unless the alternatives of a pattern name another root, with two slashes
(`findFiles_union`).
-/

set_option autoImplicit false

namespace FieldAudit.Glob

open scoped List

open Workspace (find_absolute absolute_of_isAbsolute find_congr)

variable {w w' : Workspace}

/-! ## 1. Two lists of patterns -/

/-- **What more patterns add.** Behind what some patterns find stands what the others find
besides. -/
theorem findFiles_append (w : Workspace) (root : Text) (first second : List Text) :
    findFiles w root (first ++ second)
      = (do
        let files ← findFiles w root first
        let more ← findFiles w root second
        pure (files ++ more.filter fun file => !files.contains file)) := by
  unfold findFiles rooted
  rw [List.flatMap_append, List.map_append, List.mapM_append]
  cases (List.map (Path.join root) (first.flatMap expandBraces)).mapM (filesOf w) with
  | error refusal => rfl
  | ok found =>
    cases (List.map (Path.join root) (second.flatMap expandBraces)).mapM (filesOf w) with
    | error refusal => rfl
    | ok more =>
      refine congrArg Except.ok ?_
      change (found ++ more).flatten.eraseDups = found.flatten.eraseDups ++ _
      rw [List.flatten_append, List.eraseDups_append, List.removeAll, eraseDups_filter]
      refine congrArg _ (List.filter_congr fun file _ => ?_)
      simp [List.mem_eraseDups]

/-! ## 2. The order of the entries -/

/-- What leads to a file in two workspaces matches a pattern in both. -/
theorem Matches.of_isFile (h : w.Sound) (h' : w'.Sound) (hdirectory : w'.directory = w.directory)
    {pattern path : Text} (hfile : w.isFile path = true) (hfile' : w'.isFile path = true)
    (hmatches : Matches w pattern path) : Matches w' pattern path := by
  unfold Matches at hmatches ⊢
  split at hmatches
  · next hwild =>
    rw [if_pos hwild, ← mem_findParts_iff h']
    rw [← mem_findParts_iff h] at hmatches
    exact mem_findParts_of_alike h h' hdirectory (not_mem_of_mem_divide pattern) hmatches
      (Workspace.alike_of_isFile hfile hfile')
  · next hwild =>
    rw [if_neg hwild]
    exact hmatches

/-- A pattern matches the same files in a workspace that has the same nodes, in any order. -/
theorem Matched.of_perm (h : w.Sound) (h' : w'.Sound) (hdirectory : w'.directory = w.directory)
    (hperm : w'.tree.nodes ~ w.tree.nodes) {pattern : Text} {paths : List Text}
    (hpaths : Matched w pattern paths) :
    Matched w' pattern paths := by
  have hfind : w'.find = w.find := find_congr hdirectory (h.tree.node?_of_perm hperm)
  have hfile : w'.isFile = w.isFile := by
    funext path
    rw [Workspace.isFile, Workspace.isFile, hfind]
  refine ⟨hpaths.ascending, fun path => ?_⟩
  rw [hpaths.mem_iff, hfile]
  refine and_congr_left fun hthere => ⟨?_, ?_⟩
  · exact Matches.of_isFile h h' hdirectory hthere (hfile ▸ hthere)
  · exact Matches.of_isFile h' h hdirectory.symm (hfile ▸ hthere) hthere

/-- **The order of the entries of directories does not matter.** -/
theorem findFiles_of_perm (h : w.Sound) (hdirectory : w'.directory = w.directory)
    (hperm : w'.tree.nodes ~ w.tree.nodes) (root : Text) (patterns : List Text) :
    findFiles w' root patterns = findFiles w root patterns := by
  have h' : w'.Sound :=
    ⟨h.tree.of_perm hperm, by rw [hdirectory, h.tree.node?_of_perm hperm, h.directory]⟩
  obtain ⟨lists, hlists⟩ := exists_forall₂_matched h (rooted root (patterns.flatMap expandBraces))
  have hlists' := hlists.imp fun _ _ hpaths => hpaths.of_perm h h' hdirectory hperm
  rw [findFiles_eq_of_matched h hlists, findFiles_eq_of_matched h' hlists',
    (Workspace.absolute_eq_of_directory hdirectory).1]

/-! ## 3. The files -/

/-- What is listed below an absolute root: normal forms of paths to files that a pattern matches. -/
theorem exists_of_mem_findFiles (h : w.Sound) {root : Text} (hroot : Path.isAbsolute root = true)
    {patterns files : List Text} (hfiles : findFiles w root patterns = .ok files) {file : Text}
    (hfile : file ∈ files) :
    ∃ choice ∈ patterns.flatMap expandBraces, ∃ path, Matches w (Path.join root choice) path
      ∧ file = w.absolute path ∧ w.isFile path = true
      ∧ Path.isAbsolute path = true ∧ Path.rootOf path = Path.rootOf (Path.join root choice) := by
  obtain ⟨pattern, hpattern, choice, hchoice, found, hfound, path, hpath, hthere, rfl⟩ :=
    (mem_findFiles_iff hfiles file).mp hfile
  have habsolute : Path.isAbsolute (Path.join root choice) = true := by
    cases hrelative : Path.isAbsolute choice with
    | true => rwa [Path.join, if_pos hrelative]
    | false => rwa [Path.isAbsolute_join hrelative]
  have hmatches := (mem_search_iff h hfound hthere).mp hpath
  obtain ⟨hsame, hstart⟩ := hmatches.rootOf h habsolute
  exact ⟨choice, List.mem_flatMap.mpr ⟨pattern, hpattern, hchoice⟩, path, hmatches, rfl, hthere,
    hstart, hsame⟩

/-- What is listed are files under the normal forms of their paths. -/
theorem isFile_of_mem_findFiles (h : w.Sound) {root : Text} (hroot : Path.isAbsolute root = true)
    {patterns files : List Text} (hfiles : findFiles w root patterns = .ok files) {file : Text}
    (hfile : file ∈ files) :
    Path.isAbsolute file = true ∧ w.absolute file = file ∧ w.isFile file = true := by
  obtain ⟨-, -, path, -, rfl, hthere, habsolute, -⟩ := exists_of_mem_findFiles h hroot hfiles hfile
  refine ⟨Workspace.isAbsolute_absolute w path, Workspace.absolute_absolute w path, ?_⟩
  obtain ⟨bytes, hfind⟩ := Workspace.isFile_iff.mp hthere
  exact Workspace.isFile_iff.mpr ⟨bytes, find_absolute habsolute hfind⟩

/-- Two names of one file differ in their roots. -/
theorem eq_of_locate_eq {first second : Text} (hfirst : Path.isAbsolute first = true)
    (hthere : w.isFile first = true) (hnormal : w.absolute first = first)
    (hsecond : Path.isAbsolute second = true) (hthere' : w.isFile second = true)
    (hnormal' : w.absolute second = second) (hsame : w.locate first = w.locate second)
    (hroot : Path.rootOf first = Path.rootOf second) : first = second := by
  -- a file is where the names of its path say
  have hlocate : ∀ file, Path.isAbsolute file = true → w.isFile file = true →
      w.locate file = .ok (Path.names file) := by
    intro file habsolute hfile
    obtain ⟨bytes, hfind⟩ := Workspace.isFile_iff.mp hfile
    obtain ⟨location, hlocation, -⟩ := (Workspace.find_eq_ok_iff_locate w file _).mp hfind
    have hend := ((Workspace.locate_eq_ok_iff w file location).mp hlocation).2.2.2
    rw [Workspace.endOf_of_isAbsolute habsolute] at hend
    rw [hlocation, hend]
  rw [hlocate first hfirst hthere, hlocate second hsecond hthere', Except.ok.injEq] at hsame
  rw [← hnormal, ← hnormal', absolute_of_isAbsolute hfirst, absolute_of_isAbsolute hsecond, hroot,
    hsame]

/-- A file is listed twice only if an alternative finds it that starts with two slashes. -/
theorem exists_of_locate_eq (h : w.Sound) {root : Text} (hroot : Path.isAbsolute root = true)
    (hslash : Path.rootOf root = "/") {patterns files : List Text}
    (hfiles : findFiles w root patterns = .ok files) {first second : Text} (hfirst : first ∈ files)
    (hsecond : second ∈ files) (hsame : w.locate first = w.locate second) (hne : first ≠ second) :
    ∃ choice ∈ patterns.flatMap expandBraces, Path.rootOf choice = "//"
      ∧ ∃ path, Matches w choice path ∧ (w.absolute path = first ∨ w.absolute path = second) := by
  by_contra hnone
  -- then the root of both is the root below which the patterns are looked for
  have hone : ∀ file ∈ files, (file = first ∨ file = second) → Path.rootOf file = "/" := by
    intro file hfile heither
    obtain ⟨choice, hchoice, path, hmatches, rfl, -, habsolute, hpath⟩ :=
      exists_of_mem_findFiles h hroot hfiles hfile
    have hform : Path.rootOf (w.absolute path) = Path.rootOf path := by
      rw [absolute_of_isAbsolute habsolute,
        Path.rootOf_ofNames (Path.isRoot_rootOf path) (Path.isName_of_mem_names path)]
    rw [hform, hpath]
    -- an absolute choice takes the place of the root, and a relative one keeps it
    cases hrelative : Path.isAbsolute choice with
    | true =>
      have hself : Path.join root choice = choice := by rw [Path.join, if_pos hrelative]
      rw [hself] at hmatches ⊢
      rcases Path.isRoot_rootOf choice with hslash | hslashes
      · exact hslash
      · exact absurd ⟨choice, hchoice, hslashes, path, hmatches, heither⟩ hnone
    | false =>
      have hsome : root ≠ [] := by
        rintro rfl
        exact absurd hroot (by decide)
      rw [Path.rootOf_join hsome hrelative, hslash]
  obtain ⟨habsolute, hnormal, hthere⟩ := isFile_of_mem_findFiles h hroot hfiles hfirst
  obtain ⟨habsolute', hnormal', hthere'⟩ := isFile_of_mem_findFiles h hroot hfiles hsecond
  refine hne (eq_of_locate_eq habsolute hthere hnormal habsolute' hthere' hnormal' hsame ?_)
  rw [hone first hfirst (.inl rfl), hone second hsecond (.inr rfl)]

/-- **A search lists a union, in order and without repetitions.** It fails at the first pattern from
whose path no search can start. Else it lists the files that the patterns match, pattern by pattern,
those of a pattern in ascending order, each under the normal form of its path and at its first
place; and no two of them are one file, unless an alternative finds it that starts with two slashes.
What more patterns find comes behind, without what is there already. The order in which directories
list their entries does not matter. -/
theorem findFiles_union (h : w.Sound) {root : Text} (hroot : Path.isAbsolute root = true)
    (hslash : Path.rootOf root = "/") (patterns others : List Text) :
    (∃ lists, List.Forall₂ (Matched w) (rooted root (patterns.flatMap expandBraces)) lists
      ∧ findFiles w root patterns
        = match (rooted root (patterns.flatMap expandBraces)).findSome? refusal? with
          | some refusal => .error refusal
          | none => .ok (lists.flatten.map w.absolute).eraseDups)
    ∧ (∀ files, findFiles w root patterns = .ok files →
      (∀ file ∈ files, Path.isAbsolute file = true ∧ w.absolute file = file ∧ w.isFile file = true)
      ∧ ∀ first ∈ files, ∀ second ∈ files, w.locate first = w.locate second → first ≠ second →
        ∃ choice ∈ patterns.flatMap expandBraces, Path.rootOf choice = "//"
          ∧ ∃ path, Matches w choice path ∧ (w.absolute path = first ∨ w.absolute path = second))
    ∧ findFiles w root (patterns ++ others)
      = (do
        let files ← findFiles w root patterns
        let more ← findFiles w root others
        pure (files ++ more.filter fun file => !files.contains file))
    ∧ ∀ w' : Workspace, w'.directory = w.directory → w'.tree.nodes ~ w.tree.nodes →
      findFiles w' root patterns = findFiles w root patterns := by
  refine ⟨?_, ?_, findFiles_append w root patterns others, ?_⟩
  · obtain ⟨lists, hlists⟩ := exists_forall₂_matched h (rooted root (patterns.flatMap expandBraces))
    exact ⟨lists, hlists, findFiles_eq_of_matched h hlists⟩
  · intro files hfiles
    refine ⟨fun file hfile => isFile_of_mem_findFiles h hroot hfiles hfile, ?_⟩
    intro first hfirst second hsecond hsame hne
    exact exists_of_locate_eq h hroot hslash hfiles hfirst hsecond hsame hne
  · intro w' hdirectory hperm
    exact findFiles_of_perm h hdirectory hperm root patterns

/-! ## 4. A directory of two files -/

/-- A directory with two files in it. -/
def twoFiles : Workspace where
  tree := ⟨[(["p"], .directory), (["p", "a.ts"], .file []), (["p", "b.js"], .file [])]⟩
  directory := []

theorem twoFiles_values :
    (findFiles twoFiles "/p" ["b.js"]).toOption = some ([("/p/b.js" : Text)])
    ∧ (findFiles twoFiles "/p" ["./*.\x7bts,js\x7d"]).toOption
      = some ([("/p/a.ts" : Text), "/p/b.js"])
    ∧ (findFiles twoFiles "/p" ["\x7b//p/b.js,*.js\x7d"]).toOption
      = some ([("//p/b.js" : Text), "/p/b.js"])
    ∧ (rooted "/p" ([("\x00/*" : Text)].flatMap expandBraces)).findSome? refusal?
      = some ⟨.nullCharacter, "/p/\x00"⟩ := by
  decide +kernel

/-- The files of two patterns, of which the second one finds both, whichever of them the directory
lists first. -/
theorem findFiles_union_twoFiles :
    twoFiles.Sound ∧ Path.isAbsolute "/p" = true ∧ Path.rootOf "/p" = "/"
      ∧ findFiles twoFiles "/p" ["b.js", "./*.\x7bts,js\x7d"] = .ok ["/p/b.js", "/p/a.ts"]
      ∧ findFiles ⟨⟨twoFiles.tree.nodes.reverse⟩, []⟩ "/p" ["./*.\x7bts,js\x7d"]
        = .ok ["/p/a.ts", "/p/b.js"] := by
  obtain ⟨hfirst, hall, -⟩ := twoFiles_values
  have hfirst := eq_ok_of_toOption_eq_some hfirst
  have hall := eq_ok_of_toOption_eq_some hall
  have hsound : twoFiles.Sound := by decide
  obtain ⟨-, -, happend, -⟩ := @findFiles_union _ hsound "/p" rfl rfl ["b.js"] ["./*.\x7bts,js\x7d"]
  obtain ⟨-, -, -, hperm⟩ := @findFiles_union _ hsound "/p" rfl rfl ["./*.\x7bts,js\x7d"] []
  refine ⟨hsound, rfl, rfl, ?_, ?_⟩
  · rw [List.singleton_append, hfirst, hall] at happend
    rw [happend]
    exact congrArg Except.ok (by decide)
  · rw [hperm ⟨⟨twoFiles.tree.nodes.reverse⟩, []⟩ rfl (List.reverse_perm _), hall]

/-- An alternative with two slashes lists a file a second time, under another normal form; and a
pattern with a null character before its wildcard stops the search. -/
theorem findFiles_lists_twice :
    twoFiles.Sound ∧ twoFiles.isDirectory "/p" = true ∧ twoFiles.absolute "/p" = "/p"
      ∧ Path.rootOf "/p" = "/" ∧ isWild "/p" = false
      ∧ Path.isAbsolute "\x7b//p/b.js,*.js\x7d" = false
      ∧ findFiles twoFiles "/p" ["\x7b//p/b.js,*.js\x7d"] = .ok ["//p/b.js", "/p/b.js"]
      ∧ twoFiles.locate "//p/b.js" = twoFiles.locate "/p/b.js"
      ∧ findFiles twoFiles "/p" ["\x00/*"] = .error ⟨.nullCharacter, "/p/\x00"⟩ := by
  obtain ⟨-, -, htwice, hstart⟩ := twoFiles_values
  have hsound : twoFiles.Sound := by decide
  obtain ⟨lists, hlists⟩ :=
    exists_forall₂_matched hsound (rooted "/p" ([("\x00/*" : Text)].flatMap expandBraces))
  have hrefused := findFiles_eq_of_matched hsound hlists
  rw [hstart] at hrefused
  exact ⟨hsound, by decide, by decide, rfl, by decide, by decide,
    eq_ok_of_toOption_eq_some htwice, by rfl, hrefused⟩

end FieldAudit.Glob
