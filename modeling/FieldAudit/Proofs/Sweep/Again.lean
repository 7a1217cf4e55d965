import FieldAudit.Proofs.Glob.Along
import FieldAudit.Proofs.Glob.Order
import FieldAudit.Proofs.Report.Kept
import FieldAudit.Proofs.Report.Stamped
import FieldAudit.Proofs.Sweep.Used

/-!
Sweeping again. A sweep that stored its report has added the directory of reports, and patterns are
matched against the files with that directory in them. What they find is the same list of files, and
a second sweep comes to the same types, totals and endpoint, unless a pattern leads through the new
directory and up again (`run_again_unless_detours`): a path like `reports/../a.ts` leads nowhere
before the first sweep and to a file after it.
-/

set_option autoImplicit false

namespace FieldAudit

/-! ## 1. What a second search finds -/

namespace Sweep

/-- The patterns of settings below their root, one for each choice between alternatives. -/
def fullPatterns (settings : Settings) (patterns : List Text) : List Text :=
  Glob.rooted settings.projectRoot (patterns.flatMap Glob.expandBraces)

/-- A pattern of settings finds a file on a path that led to no file before. -/
def Detours (settings : Settings) (before after : Workspace) : Prop :=
  ∃ patterns, patternTexts settings.patterns = .ok patterns
    ∧ ∃ pattern ∈ fullPatterns settings patterns, ∃ paths, Glob.search after pattern = .ok paths
      ∧ ∃ path ∈ paths, after.isFile path = true ∧ before.isFile path = false

/-- The report is not among the source files. -/
def Spares (settings : Settings) (base : Text) (w : Workspace) : Prop :=
  ∀ files, (discover settings w).result = .ok files →
    ∀ file ∈ files, Path.names file ≠ Path.names (Report.fileIn base)

variable {settings : Settings} {base : Text} {w after : Workspace}

/-- Without detours, every pattern finds files on the same paths before and after. -/
theorem findsSame_of_not_detours (hleaves : Report.Leaves base w after) (hsound : w.Sound)
    {patterns : List Text} (hpatterns : patternTexts settings.patterns = .ok patterns)
    (hdetours : ¬ Detours settings w after) {pattern : Text}
    (hpattern : pattern ∈ fullPatterns settings patterns) : Glob.FindsSame w after pattern := by
  have hsound' := hleaves.sound_after hsound
  intro paths hpaths
  -- what is a file before and afterwards, both searches find or neither does
  obtain ⟨others, hothers, hforth⟩ :=
    Glob.exists_search_of_isFile hsound hsound' hleaves.directory hpaths
  obtain ⟨again, hagain, hback⟩ :=
    Glob.exists_search_of_isFile hsound' hsound hleaves.directory.symm hothers
  obtain rfl := Except.ok.inj (hpaths.symm.trans hagain)
  refine ⟨others, hothers, fun path => ⟨?_, ?_⟩⟩
  · -- every file from before is there
    rintro ⟨hpath, hfile⟩
    have hfile' := hleaves.isFile hfile
    exact ⟨hforth path hpath hfile hfile', hfile'⟩
  · -- a file that came would be found on a detour
    rintro ⟨hpath, hfile'⟩
    have hfile : w.isFile path = true := by
      by_contra hnot
      exact hdetours ⟨patterns, hpatterns, pattern, hpattern, others, hothers, path, hpath, hfile',
        Bool.eq_false_iff.mpr hnot⟩
    exact ⟨hback path hpath hfile' hfile, hfile⟩

/-- Without detours, the same files are discovered. -/
theorem discover_again (hleaves : Report.Leaves base w after) (hsound : w.Sound)
    (hdetours : ¬ Detours settings w after) {files : List Text}
    (hfiles : (discover settings w).result = .ok files) :
    (discover settings after).result = .ok files := by
  obtain ⟨patterns, hpatterns, hfound⟩ := (discover_eq_ok_iff files).mp hfiles
  refine (discover_eq_ok_iff files).mpr ⟨patterns, hpatterns, ?_⟩
  exact Glob.findFiles_eq_of_findsSame hleaves.directory
    (fun pattern hpattern => findsSame_of_not_detours hleaves hsound hpatterns hdetours hpattern)
    hfound

/-- A file that a pattern of settings finds is among the files that are discovered. -/
theorem mem_of_search (hsound : w.Sound) {files : List Text}
    (hfiles : (discover settings w).result = .ok files) {patterns : List Text}
    (hpatterns : patternTexts settings.patterns = .ok patterns) {pattern : Text}
    (hpattern : pattern ∈ fullPatterns settings patterns) {paths : List Text}
    (hpaths : Glob.search w pattern = .ok paths) {path : Text} (hpath : path ∈ paths)
    (hfile : w.isFile path = true) : ∃ file ∈ files, Path.names file = w.endOf path := by
  obtain ⟨others, hothers, hfound⟩ := (discover_eq_ok_iff files).mp hfiles
  obtain rfl := Except.ok.inj (hpatterns.symm.trans hothers)
  obtain ⟨choice, hchoice, rfl⟩ := List.mem_map.mp hpattern
  obtain ⟨query, hquery, hchoice⟩ := List.mem_flatMap.mp hchoice
  refine ⟨w.absolute path, ?_, Workspace.names_absolute hsound path⟩
  exact (Glob.mem_findFiles_iff hfound _).mpr
    ⟨query, hquery, choice, hchoice, paths, hpaths, path, hpath, hfile, rfl⟩

/-- If files are discovered before, files are discovered afterwards. -/
theorem exists_discover_again (hleaves : Report.Leaves base w after) (hsound : w.Sound)
    {files : List Text} (hfiles : (discover settings w).result = .ok files) :
    ∃ others, (discover settings after).result = .ok others := by
  obtain ⟨patterns, hpatterns, hfound⟩ := (discover_eq_ok_iff files).mp hfiles
  obtain ⟨lists, hlists, -⟩ := (map_eq_ok_iff _ _ _).mp hfound
  have hall : ∀ pattern ∈ fullPatterns settings patterns, ∃ found,
      Glob.filesOf after pattern = .ok found := by
    intro pattern hpattern
    obtain ⟨found, hfound⟩ := exists_mapM_eq_ok_iff.mp ⟨lists, hlists⟩ pattern hpattern
    obtain ⟨paths, hpaths, -⟩ := (map_eq_ok_iff _ _ _).mp hfound
    obtain ⟨others, hothers, -⟩ := Glob.exists_search_of_isFile hsound (hleaves.sound_after hsound)
      hleaves.directory hpaths
    exact ⟨_, (map_eq_ok_iff _ _ _).mpr ⟨others, hothers, rfl⟩⟩
  obtain ⟨others, hothers⟩ := exists_mapM_eq_ok_iff.mpr hall
  exact ⟨_,
    (discover_eq_ok_iff _).mpr ⟨patterns, hpatterns,
      (map_eq_ok_iff _ _ _).mpr ⟨others, hothers, rfl⟩⟩⟩

/-- A path that leads to another file than the report only afterwards belongs to a pattern that goes
up, and there is none if the directory of reports was there. -/
theorem up_of_detours (hleaves : Report.Leaves base w after) (hsound : w.Sound) {files : List Text}
    (hfiles : (discover settings w).result = .ok files) (hspares : Spares settings base after)
    (hdetours : Detours settings w after) :
    w.tree.node? (Path.names (Report.directoryIn base)) ≠ some .directory
      ∧ ∃ patterns, patternTexts settings.patterns = .ok patterns
        ∧ ∃ pattern ∈ fullPatterns settings patterns, Text.ofString ".." ∈ Path.parts pattern := by
  obtain ⟨patterns, hpatterns, pattern, hpattern, paths, hpaths, path, hpath, hfile, hnot⟩ :=
    hdetours
  have hsound' := hleaves.sound_after hsound
  -- the report itself is spared, so the path leads to another file
  have hother : after.endOf path ≠ Path.names (Report.fileIn base) := by
    obtain ⟨others, hothers⟩ := exists_discover_again hleaves hsound hfiles
    obtain ⟨file, hmem, hnames⟩ :=
      mem_of_search hsound' hothers hpatterns hpattern hpaths hpath hfile
    rw [← hnames]
    exact hspares others hothers file hmem
  refine ⟨?_, patterns, hpatterns, pattern, hpattern, ?_⟩
  · intro hthere
    have hbefore := hleaves.isFile_of_there hsound hthere hfile hother
    rw [hnot] at hbefore
    simp at hbefore
  · by_contra hup
    have hbefore := hleaves.isFile_of_no_up hsound hfile hother
      fun hpart => hup (Glob.up_of_mem_search hsound' hpaths hpath hpart)
    rw [hnot] at hbefore
    simp at hbefore

/-! ## 2. The second sweep -/

end Sweep

/-- A scan depends on nothing of the workspace but what the files hold. -/
theorem Scan.files_congr {schema : Schema} {verbose : Bool} {w after : Workspace}
    {files : List Text} (h : ∀ file ∈ files, after.read file = w.read file) (scan : Scan) :
    Scan.files schema verbose after files scan = Scan.files schema verbose w files scan := by
  induction files generalizing scan with
  | nil => rfl
  | cons file rest ih =>
    have hrest := ih fun other hother => h other (List.mem_cons_of_mem file hother)
    rw [Scan.files, Scan.files, h file List.mem_cons_self]
    cases w.read file with
    | error refusal => rfl
    | ok bytes =>
      dsimp only
      rw [hrest]

namespace Sweep

variable {settings : Settings} {base : Text} {w after : Workspace} {verbose : Bool}
  {first second : Moment} {reply : Reply}

/-- Without detours, a second investigation comes to the same report under another stamp, and to the
same totals. -/
theorem investigate_again (hleaves : Report.Leaves base w after) (hsound : w.Sound)
    (hspares : Spares settings base w) (hdetours : ¬ Detours settings w after) {stamp : String}
    (hstamp : second.stamp? = some stamp) {one : Findings}
    (hone : (investigate settings verbose w first reply).result = .ok one) :
    (investigate settings verbose after second reply).result
      = .ok ⟨{ one.report with stamp := stamp }, one.summary⟩ := by
  obtain ⟨schema, files, scan, hschema, hfiles, hscan, hreport, hsummary⟩ :=
    (investigate_eq_ok_iff one).mp hone
  -- the files that are scanned have kept their bytes, for the report is none of them
  have hread : ∀ file ∈ files, after.read file = w.read file := by
    intro file hfile
    obtain ⟨bytes, hbytes⟩ := Scan.exists_read_of_files_eq_ok hscan file hfile
    have habsolute : Path.isAbsolute file = true := by
      obtain ⟨patterns, -, hfound⟩ := (discover_eq_ok_iff files).mp hfiles
      obtain ⟨_, _, _, _, _, _, path, _, _, rfl⟩ := (Glob.mem_findFiles_iff hfound file).mp hfile
      exact Path.isAbsolute_ofNames (Path.isRoot_rootOf _) _
    rw [hbytes]
    refine hleaves.read_eq hbytes ?_
    rw [Workspace.endOf_of_isAbsolute habsolute]
    exact hspares files hfiles file hfile
  refine (investigate_eq_ok_iff _).mpr
    ⟨schema, files, scan, hschema, discover_again hleaves hsound hdetours hfiles, ?_, ?_, ?_⟩
  · rw [Scan.files_congr hread, hscan]
  · obtain ⟨stamp', -, hbuilt⟩ := Option.map_eq_some_iff.mp hreport
    rw [Report.build?, hstamp, ← hbuilt]
    rfl
  · rw [hsummary]
    rfl

/-- A sweep that has stored its report leaves the files as storing it does. -/
theorem leaves_of_stores (hbase : Path.isAbsolute base = true) {one : Findings}
    (h : Stores settings base verbose w first reply one) :
    Report.Leaves base w (run settings base verbose w first reply).workspace := by
  have hresult := h.result
  rcases Report.store_cases w one.report hbase with
    ⟨made, refusal, hstore, -⟩ | ⟨changed, -, hstore, -⟩
    | ⟨changed, unencodable, -, -, -, hstore, -⟩
  · rw [(run_of_ok h.found hstore).2] at hresult
    simp at hresult
  · rw [(run_of_ok h.found hstore).1]
    exact Report.leaves_of_store hbase hstore
  · rw [(run_of_ok h.found hstore).2] at hresult
    simp at hresult

/-- **A second sweep comes to the same, unless the first one has opened a detour.** Let a sweep
store its report, and let a second one follow with nothing else changed, at a moment that has a
stamp, such that neither finds the report among the source files. If no pattern leads to a file on a
path that led to no file before, the second sweep finds the same files in the same order, stores its
report, and that has the same types, totals and endpoint. If one does, the directory of reports was
not there before the first sweep, and the pattern goes up. -/
theorem run_again_unless_detours {base? : Option Text} {once : Sweep} {stored : StoredReport}
    (hsound : w.Sound) (hstamp : second.stamp?.isSome = true)
    (honce : run settings (Report.baseDirectory w base?) verbose w first reply = once)
    (hstored : once.result = .ok stored)
    (hspares : ∀ v ∈ [w, once.workspace], Spares settings (Report.baseDirectory w base?) v) :
    (¬ Detours settings w once.workspace →
      ∃ one two files,
        Stores settings (Report.baseDirectory w base?) verbose w first reply one
        ∧ Stores settings (Report.baseDirectory once.workspace base?) verbose once.workspace
          second reply two
        ∧ (discover settings w).result = .ok files
        ∧ (discover settings once.workspace).result = .ok files
        ∧ two.report.types = one.report.types ∧ two.report.endpoint = one.report.endpoint
        ∧ two.summary = one.summary)
    ∧ (Detours settings w once.workspace →
      w.tree.node? (Path.names (Report.directoryIn (Report.baseDirectory w base?)))
        ≠ some .directory
        ∧ ∃ patterns, patternTexts settings.patterns = .ok patterns
          ∧ ∃ pattern ∈ fullPatterns settings patterns,
            Text.ofString ".." ∈ Path.parts pattern) := by
  obtain ⟨stamp, hstamp⟩ := Option.isSome_iff_exists.mp hstamp
  have hbase : Path.isAbsolute (Report.baseDirectory w base?) = true :=
    Report.isAbsolute_baseDirectory w base?
  subst honce
  obtain ⟨one, hone, -⟩ := exists_stores_of_run hbase hstored
  have hleaves := leaves_of_stores hbase hone
  obtain ⟨schema, files, -, -, hfiles, -⟩ := (investigate_eq_ok_iff one).mp hone.found
  refine ⟨fun hdetours => ?_, up_of_detours hleaves hsound hfiles (hspares _ (by simp))⟩
  -- the second report differs in its stamp, so it has bytes, and its file can be written once more
  have htwo := investigate_again hleaves hsound (hspares w (by simp)) hdetours hstamp hone.found
  obtain ⟨bytes, hencode, hread⟩ := hone.written
  obtain ⟨others, hothers⟩ := Report.exists_encode_of_stamp hencode stamp
  obtain ⟨changed, hstore⟩ := Report.exists_store_of_read hbase hread hothers
  have hresult := (run_of_ok htwo hstore).2
  obtain ⟨two, hstores, -⟩ := exists_stores_of_run hbase hresult
  obtain rfl := Except.ok.inj (htwo.symm.trans hstores.found)
  rw [hleaves.baseDirectory_eq base?]
  exact ⟨one, _, files, hone, hstores, hfiles, discover_again hleaves hsound hdetours hfiles,
    rfl, rfl, rfl⟩

/-! ## 3. Two sweeps over one project -/

/-- The moment of the second sweep. -/
def later : Moment := .ofEpoch 1 0

/-- The files after the first sweep of the project with one source file. -/
def nodeProjectSwept (settings : Settings) : Workspace :=
  (run settings (Report.baseDirectory nodeProject none) false nodeProject default
    nodeAnswer).workspace

/-- The files that a sweep over the project leaves, given the schema of the answer. -/
def sweptBy (settings : Settings) : Workspace :=
  (conclude (Report.baseDirectory nodeProject none) nodeProject
    (survey settings nodeSchema false nodeProject default).result).2

theorem nodeProjectSwept_eq (settings : Settings)
    (h : (Exchange.fetch settings.endpoint settings.headers false nodeAnswer).result
      = .ok nodeSchema) :
    nodeProjectSwept settings = sweptBy settings := by
  rw [nodeProjectSwept, workspace_run, result_investigate h, sweptBy]

/-- Settings whose one pattern leads to the source file through the directory of reports. -/
def detourSettings : Settings := { nodeSettings with patterns := [.string "reports/../a.ts"] }

/-- How many unused fields a sweep over files counts, given the schema of the answer. -/
def unusedBy? (settings : Settings) (w : Workspace) (moment : Moment) : Option Nat :=
  (conclude (Report.baseDirectory w none) w
    (survey settings nodeSchema false w moment).result).1.toOption.map fun stored =>
      stored.summary.unused

/-- What sweeps find over the project, and over what sweeps leave of it. -/
theorem sweptBy_values :
    (discover nodeSettings (sweptBy nodeSettings)).result.toOption = some ([("/a.ts" : Text)])
    ∧ (discover detourSettings nodeProject).result.toOption = some []
    ∧ (discover detourSettings (sweptBy detourSettings)).result.toOption = some ([("/a.ts" : Text)])
    ∧ unusedBy? detourSettings nodeProject default = some 2
    ∧ unusedBy? detourSettings (sweptBy detourSettings) later = some 1 := by
  decide +kernel

theorem sound_nodeProject : nodeProject.Sound := by decide

/-- A sweep that comes to its totals has stored its report. -/
theorem exists_stores_of_unusedBy? (settings : Settings) {w : Workspace} {moment : Moment}
    {unused : Nat}
    (hfetch : (Exchange.fetch settings.endpoint settings.headers false nodeAnswer).result
      = .ok nodeSchema)
    (h : unusedBy? settings w moment = some unused) :
    ∃ findings, Stores settings (Report.baseDirectory w none) false w moment nodeAnswer findings
      ∧ findings.report.unusedCount = unused := by
  rw [unusedBy?, ← result_investigate hfetch, ← result_run] at h
  obtain ⟨stored, hstored, hunused⟩ := Option.map_eq_some_iff.mp h
  obtain ⟨findings, hstores, rfl⟩ := exists_stores_of_run (Report.isAbsolute_baseDirectory w none)
    (eq_ok_of_toOption_eq_some hstored)
  exact ⟨findings, hstores, (unused_of_investigate hstores.found).symm.trans hunused⟩

/-- If nothing but the source file is found, the report is not among the source files. -/
theorem spares_of_discover {settings : Settings} {w : Workspace} {files : List Text}
    (h : (discover settings w).result = .ok files) (hfiles : files ⊆ ["/a.ts"]) :
    Spares settings (Report.baseDirectory nodeProject none) w := by
  intro others hothers file hfile
  obtain rfl := Except.ok.inj (h.symm.trans hothers)
  obtain rfl := List.mem_singleton.mp (hfiles hfile)
  decide

/-- Two sweeps that come to the same. -/
theorem run_again_unless_detours_nodeProject :
    ∃ stored one two,
      nodeProject.Sound
      ∧ later.stamp?.isSome = true
      ∧ (run nodeSettings (Report.baseDirectory nodeProject none) false nodeProject default
        nodeAnswer).result = .ok stored
      ∧ (∀ v ∈ [nodeProject, nodeProjectSwept nodeSettings],
        Spares nodeSettings (Report.baseDirectory nodeProject none) v)
      ∧ Stores nodeSettings (Report.baseDirectory nodeProject none) false nodeProject default
        nodeAnswer one
      ∧ Stores nodeSettings (Report.baseDirectory (nodeProjectSwept nodeSettings) none) false
        (nodeProjectSwept nodeSettings) later nodeAnswer two
      ∧ two.report.types = one.report.types ∧ two.summary = one.summary := by
  obtain ⟨stored, hstored⟩ := exists_run_nodeProject
  have hstamp : later.stamp?.isSome = true := by decide
  have hswept : (discover nodeSettings (nodeProjectSwept nodeSettings)).result = .ok ["/a.ts"] := by
    obtain ⟨hfiles, -⟩ := sweptBy_values
    rw [nodeProjectSwept_eq nodeSettings fetch_nodeAnswer]
    exact eq_ok_of_toOption_eq_some hfiles
  have hspares : ∀ v ∈ [nodeProject, nodeProjectSwept nodeSettings],
      Spares nodeSettings (Report.baseDirectory nodeProject none) v := by
    intro v hv
    rcases List.mem_pair.mp hv with rfl | rfl
    · exact spares_of_discover discover_nodeProject (List.Subset.refl _)
    · exact spares_of_discover hswept (List.Subset.refl _)
  -- the files are kept under their name, or every check would run the sweep once more
  have hleft :
      (run nodeSettings (Report.baseDirectory nodeProject none) false nodeProject default
        nodeAnswer).workspace = nodeProjectSwept nodeSettings := by
    rw [nodeProjectSwept]
  obtain ⟨hagain, hup⟩ :=
    run_again_unless_detours sound_nodeProject hstamp rfl hstored (by rw [hleft]; exact hspares)
  rw [hleft] at hagain hup
  have hpatterns : patternTexts nodeSettings.patterns = .ok ["*.ts"] := rfl
  -- the pattern does not go up
  have hdetours : ¬ Detours nodeSettings nodeProject (nodeProjectSwept nodeSettings) := by
    intro hdetours
    obtain ⟨-, patterns, hothers, pattern, hpattern, hpart⟩ := hup hdetours
    obtain rfl := Except.ok.inj (hpatterns.symm.trans hothers)
    have hnone : ∀ pattern ∈ fullPatterns nodeSettings ["*.ts"],
        Text.ofString ".." ∉ Path.parts pattern := by
      decide
    exact hnone pattern hpattern hpart
  obtain ⟨one, two, files, hone, htwo, -, -, htypes, -, hsummary⟩ := hagain hdetours
  exact ⟨stored, one, two, sound_nodeProject, hstamp, hstored, hspares, hone, htwo, htypes,
    hsummary⟩

/-- Two sweeps that do not: the first one finds no source file and takes both fields for unused, the
second one finds the source file and a field that is used. -/
theorem run_again_finds_more :
    ∃ one two,
      nodeProject.Sound
      ∧ (∀ v ∈ [nodeProject, nodeProjectSwept detourSettings],
        Spares detourSettings (Report.baseDirectory nodeProject none) v)
      ∧ Stores detourSettings (Report.baseDirectory nodeProject none) false nodeProject default
        nodeAnswer one
      ∧ Stores detourSettings (Report.baseDirectory (nodeProjectSwept detourSettings) none) false
        (nodeProjectSwept detourSettings) later nodeAnswer two
      ∧ (discover detourSettings nodeProject).result = .ok []
      ∧ (discover detourSettings (nodeProjectSwept detourSettings)).result = .ok ["/a.ts"]
      ∧ one.summary.unused = 2 ∧ two.summary.unused = 1 ∧ two.report.types ≠ one.report.types := by
  obtain ⟨-, hnone, hfiles, hfirst, hsecond⟩ := sweptBy_values
  rw [← nodeProjectSwept_eq detourSettings fetch_nodeAnswer] at hfiles hsecond
  have hbefore : (discover detourSettings nodeProject).result = .ok [] :=
    eq_ok_of_toOption_eq_some hnone
  have hafter : (discover detourSettings (nodeProjectSwept detourSettings)).result
      = .ok ["/a.ts"] :=
    eq_ok_of_toOption_eq_some hfiles
  have hspares : ∀ v ∈ [nodeProject, nodeProjectSwept detourSettings],
      Spares detourSettings (Report.baseDirectory nodeProject none) v := by
    intro v hv
    rcases List.mem_pair.mp hv with rfl | rfl
    · exact spares_of_discover hbefore (List.nil_subset _)
    · exact spares_of_discover hafter (List.Subset.refl _)
  obtain ⟨one, hone, hcount⟩ := exists_stores_of_unusedBy? detourSettings fetch_nodeAnswer hfirst
  obtain ⟨two, htwo, hcount'⟩ := exists_stores_of_unusedBy? detourSettings fetch_nodeAnswer hsecond
  refine ⟨one, two, sound_nodeProject, hspares, hone, htwo, hbefore, hafter, ?_, ?_, ?_⟩
  · rw [unused_of_investigate hone.found, hcount]
  · rw [unused_of_investigate htwo.found, hcount']
  · intro hsame
    rw [Report.unusedCount, hsame, ← Report.unusedCount, hcount] at hcount'
    simp at hcount'

end Sweep

end FieldAudit
