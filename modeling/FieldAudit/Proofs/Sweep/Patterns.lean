import FieldAudit.Proofs.Glob.Found
import FieldAudit.Proofs.Sweep.Used

/-!
The patterns of a sweep. What the report says depends on the set of files that the patterns find,
and on nothing else about the patterns: more patterns find more files and so more fields that are
used, and patterns in another order, or some of them twice, find the same files in another order
(`run_used_mono_patterns`).
-/

set_option autoImplicit false

namespace FieldAudit

namespace Scan

variable {schema : Schema} {verbose : Bool} {w : Workspace}

/-- A scan of more files stores a site for every field for which a scan of fewer files does. -/
theorem sites_ne_nil_of_subset {files others : List Text} {scan after : Scan}
    (hscan : (Scan.files schema verbose w files Scan.start).result = .ok scan)
    (hafter : (Scan.files schema verbose w others Scan.start).result = .ok after)
    (hsub : files ⊆ others) {type field : Text} (h : scan.usages.sites type field ≠ []) :
    after.usages.sites type field ≠ [] := by
  rw [sites_ne_nil_iff hscan] at h
  rw [sites_ne_nil_iff hafter]
  obtain ⟨file, hfile, hselects⟩ := h
  exact ⟨file, hsub hfile, hselects⟩

/-- The order of the files is the order of the sites, and has no other part in them. -/
theorem perm_sites {files others : List Text} {scan after : Scan}
    (hscan : (Scan.files schema verbose w files Scan.start).result = .ok scan)
    (hafter : (Scan.files schema verbose w others Scan.start).result = .ok after)
    (hperm : files.Perm others) (type field : Text) :
    (scan.usages.sites type field).Perm (after.usages.sites type field) := by
  rw [sites_of_files_eq_ok hscan, sites_of_files_eq_ok hafter]
  exact hperm.flatMap_right _

end Scan

namespace Sweep

/-! ## 1. The files of patterns -/

/-- Patterns that have texts are texts. -/
theorem eq_map_string_of_patternTexts {values : List Json.Value} {patterns : List Text}
    (h : patternTexts values = .ok patterns) : values = patterns.map .string := by
  induction values generalizing patterns with
  | nil =>
    rw [patternTexts] at h
    rw [← Except.ok.inj h]
    rfl
  | cons value values ih =>
    cases value with
    | string pattern =>
      rw [patternTexts] at h
      obtain ⟨rest, hrest, rfl⟩ := (map_eq_ok_iff _ _ _).mp h
      rw [List.map_cons, ih hrest]
    | _ => simp [patternTexts] at h

/-- More patterns find more files. -/
theorem discover_subset {settings : Settings} {w : Workspace} {fewer more : List Json.Value}
    (hsub : fewer ⊆ more) {files others : List Text}
    (hfiles : (discover { settings with patterns := fewer } w).result = .ok files)
    (hothers : (discover { settings with patterns := more } w).result = .ok others) :
    files ⊆ others := by
  obtain ⟨patterns, hpatterns, hfound⟩ := (discover_eq_ok_iff _).mp hfiles
  obtain ⟨morePatterns, hmorePatterns, hmoreFound⟩ := (discover_eq_ok_iff _).mp hothers
  have hfewer : fewer = patterns.map .string := eq_map_string_of_patternTexts hpatterns
  have hmore : more = morePatterns.map .string := eq_map_string_of_patternTexts hmorePatterns
  intro file hfile
  obtain ⟨pattern, hpattern, hfinds⟩ := (Glob.mem_findFiles_iff hfound file).mp hfile
  -- the pattern is one of the others too
  have hvalue : Json.Value.string pattern ∈ more := by
    apply hsub
    rw [hfewer]
    exact List.mem_map_of_mem hpattern
  rw [hmore, List.mem_map] at hvalue
  obtain ⟨other, hother, hsame⟩ := hvalue
  rw [Json.Value.string.inj hsame] at hother
  exact (Glob.mem_findFiles_iff hmoreFound file).mpr ⟨pattern, hother, hfinds⟩

/-- The same patterns find the same files, in whichever order the patterns come. -/
theorem discover_perm {settings : Settings} {w : Workspace} {first second : List Json.Value}
    (hsub : first ⊆ second) (hback : second ⊆ first) {files others : List Text}
    (hfiles : (discover { settings with patterns := first } w).result = .ok files)
    (hothers : (discover { settings with patterns := second } w).result = .ok others) :
    files.Perm others := by
  obtain ⟨_, -, hfound⟩ := (discover_eq_ok_iff _).mp hfiles
  obtain ⟨_, -, hfoundOthers⟩ := (discover_eq_ok_iff _).mp hothers
  have hnodup : files.Nodup := Glob.nodup_findFiles hfound
  have hnodupOthers : others.Nodup := Glob.nodup_findFiles hfoundOthers
  rw [List.perm_ext_iff_of_nodup hnodup hnodupOthers]
  intro file
  exact ⟨fun h => discover_subset hsub hfiles hothers h,
    fun h => discover_subset hback hothers hfiles h⟩

/-! ## 2. The reports on patterns -/

/-- **More patterns, more use; another order, the same use.** Let two sweeps of the same project,
with the same reply of the endpoint, both succeed, and let every pattern of the first be one of the
second. The stored reports list the same fields; what the first says is used, the second says is
used; and the second counts no more fields as unused. If every pattern of the second is one of the
first as well, the reports agree on what is used and on how many fields are unused, and the sites of
a field differ in their order only. -/
theorem run_used_mono_patterns (settings : Settings) (fewer more : List Json.Value)
    (hsub : fewer ⊆ more) (base? moreBase? : Option Text) (verbose : Bool) (w : Workspace)
    (moment moreMoment : Moment) (reply : Reply) (stored moreStored : StoredReport)
    (h : (run { settings with patterns := fewer } (Report.baseDirectory w base?) verbose w
      moment reply).result = .ok stored)
    (hmore : (run { settings with patterns := more } (Report.baseDirectory w moreBase?) verbose w
      moreMoment reply).result = .ok moreStored) :
    ∃ found moreFound,
      Stores { settings with patterns := fewer } (Report.baseDirectory w base?) verbose w
        moment reply found
      ∧ Stores { settings with patterns := more } (Report.baseDirectory w moreBase?) verbose w
        moreMoment reply moreFound
      ∧ stored.summary.unused = found.report.unusedCount
      ∧ moreStored.summary.unused = moreFound.report.unusedCount
      ∧ (∀ type field, found.report.usage? type field = none
        ↔ moreFound.report.usage? type field = none)
      ∧ (∀ type field usage other, found.report.usage? type field = some usage →
        moreFound.report.usage? type field = some other → usage.used = true → other.used = true)
      ∧ moreStored.summary.unused ≤ stored.summary.unused
      ∧ (more ⊆ fewer →
        (∀ type field usage other, found.report.usage? type field = some usage →
          moreFound.report.usage? type field = some other →
          usage.used = other.used ∧ usage.sites.Perm other.sites)
        ∧ moreStored.summary.unused = stored.summary.unused) := by
  obtain ⟨found, hstores, rfl⟩ := exists_stores_of_run (Report.isAbsolute_baseDirectory w base?) h
  obtain ⟨moreFound, hmoreStores, rfl⟩ :=
    exists_stores_of_run (Report.isAbsolute_baseDirectory w moreBase?) hmore
  have hunused : found.summary.unused = found.report.unusedCount :=
    unused_of_investigate hstores.found
  have hmoreUnused : moreFound.summary.unused = moreFound.report.unusedCount :=
    unused_of_investigate hmoreStores.found
  obtain ⟨schema, files, scan, hschema, hfiles, hscan, hreport, -⟩ :=
    (investigate_eq_ok_iff found).mp hstores.found
  obtain ⟨schema', others, after, hschema', hothers, hafter, hmoreReport, -⟩ :=
    (investigate_eq_ok_iff moreFound).mp hmoreStores.found
  -- the reply describes one schema
  obtain rfl : schema = schema' := Except.ok.inj (hschema.symm.trans hschema')
  have htypes : found.report.types = Report.typesOf schema.listing scan.usages :=
    Report.types_of_build?_eq_some hreport
  have hmoreTypes : moreFound.report.types = Report.typesOf schema.listing after.usages :=
    Report.types_of_build?_eq_some hmoreReport
  have hmono : ∀ type field, scan.usages.sites type field ≠ [] →
      after.usages.sites type field ≠ [] :=
    fun _ _ => Scan.sites_ne_nil_of_subset hscan hafter (discover_subset hsub hfiles hothers)
  have hle : moreFound.summary.unused ≤ found.summary.unused := by
    rw [hunused, hmoreUnused]
    exact Report.unusedCount_le htypes hmoreTypes hmono
  refine ⟨found, moreFound, hstores, hmoreStores, hunused, hmoreUnused, ?_, ?_, hle, ?_⟩
  · intro type field
    rw [Report.usage?_eq_none_iff htypes, Report.usage?_eq_none_iff hmoreTypes]
  · intro type field usage other hfirst hsecond
    obtain ⟨-, rfl⟩ := (Report.usage?_eq_some_iff htypes type field usage).mp hfirst
    obtain ⟨-, rfl⟩ := (Report.usage?_eq_some_iff hmoreTypes type field other).mp hsecond
    rw [Report.used_usageOf_iff, Report.used_usageOf_iff]
    exact hmono type field
  · intro hback
    have hperm : files.Perm others := discover_perm hsub hback hfiles hothers
    have hmonoBack : ∀ type field, after.usages.sites type field ≠ [] →
        scan.usages.sites type field ≠ [] :=
      fun _ _ => Scan.sites_ne_nil_of_subset hafter hscan (discover_subset hback hothers hfiles)
    refine ⟨?_, ?_⟩
    · intro type field usage other hfirst hsecond
      obtain ⟨-, rfl⟩ := (Report.usage?_eq_some_iff htypes type field usage).mp hfirst
      obtain ⟨-, rfl⟩ := (Report.usage?_eq_some_iff hmoreTypes type field other).mp hsecond
      have hsites := Scan.perm_sites hscan hafter hperm type field
      exact ⟨congrArg not hsites.isEmpty_eq, hsites⟩
    · refine Nat.le_antisymm hle ?_
      show found.summary.unused ≤ moreFound.summary.unused
      rw [hunused, hmoreUnused]
      exact Report.unusedCount_le hmoreTypes htypes hmonoBack

/-! ## 3. A project of two files -/

/-- A project with two source files, of which one selects a field that the other does not. -/
def pairProject : Workspace where
  tree := ⟨[
    (["a.ts"], .file ("\x60query A \x7b node \x7b id \x7d \x7d\x60".toList.map Char.toUInt8)),
    (["b.ts"], .file ("\x60query B \x7b __typename \x7d\x60".toList.map Char.toUInt8))]⟩
  directory := []

/-- A sweep by a pattern that finds one of the files, and one by two patterns that both find it. -/
theorem run_used_mono_patterns_pairProject :
    [Json.Value.string "b.ts"] ⊆ [.string "\x7ba,b\x7d.ts", .string "b.ts"]
      ∧ ∃ stored moreStored,
        (run { nodeSettings with patterns := [.string "b.ts"] }
          (Report.baseDirectory pairProject none) false pairProject default nodeAnswer).result
            = .ok stored
        ∧ (run { nodeSettings with patterns := [.string "\x7ba,b\x7d.ts", .string "b.ts"] }
          (Report.baseDirectory pairProject none) false pairProject default nodeAnswer).result
            = .ok moreStored
        ∧ moreStored.summary.unused ≤ stored.summary.unused := by
  have hsub : [Json.Value.string "b.ts"] ⊆ [.string "\x7ba,b\x7d.ts", .string "b.ts"] :=
    List.subset_cons_self _ _
  have hsome : ∀ patterns ∈
      ([[.string "b.ts"], [.string "\x7ba,b\x7d.ts", .string "b.ts"]] : List (List Json.Value)),
      (conclude (Report.baseDirectory pairProject none) pairProject
        (survey { nodeSettings with patterns := patterns } nodeSchema false pairProject
          default).result).1.toOption.isSome = true := by
    decide +kernel
  have hrun (patterns : List Json.Value) :
      (run { nodeSettings with patterns := patterns } (Report.baseDirectory pairProject none) false
        pairProject default nodeAnswer).result
      = (conclude (Report.baseDirectory pairProject none) pairProject
        (survey { nodeSettings with patterns := patterns } nodeSchema false pairProject
          default).result).1 := by
    rw [result_run, result_investigate]
    exact fetch_nodeAnswer
  simp only [← hrun] at hsome
  obtain ⟨stored, hstored⟩ := Option.isSome_iff_exists.mp (hsome _ List.mem_cons_self)
  obtain ⟨moreStored, hmoreStored⟩ := Option.isSome_iff_exists.mp
    (hsome _ (List.mem_cons_of_mem _ List.mem_cons_self))
  have h := eq_ok_of_toOption_eq_some hstored
  have hmore := eq_ok_of_toOption_eq_some hmoreStored
  obtain ⟨_, _, -, -, -, -, -, -, hle, -⟩ :=
    run_used_mono_patterns nodeSettings _ _ hsub none none false pairProject default default
      nodeAnswer stored moreStored h hmore
  exact ⟨hsub, stored, moreStored, h, hmore, hle⟩

end Sweep

end FieldAudit
