import FieldAudit.Proofs.Report.Closed
import FieldAudit.Proofs.Scan.Accounts
import FieldAudit.Proofs.Sweep.Used

/-!
The totals of a sweep. They are counted in three places: the fields on the listing of the schema
before the scan, the unused ones on the report after it, and the snippets by the scan. They agree
with each other and with the report that is stored (`run_totals`): the entries of the report are the
fields of the listing, each with the sites that the scan has stored for it, so what is not unused is
what has a site; sites of other types and fields are counted nowhere.
-/

set_option autoImplicit false

namespace FieldAudit

/-! ## 1. The fields of a schema and the entries of a report -/

namespace Schema

/-- The fields of the object types of a schema, introspection aside, each with its type. -/
def coordinates (schema : Schema) : List Coordinate :=
  schema.listing.flatMap fun (type, fields) => fields.map fun field => ⟨type, field⟩

/-- Names in a schema are distinct: no two types share one, and no two fields of a type. -/
structure Distinct (schema : Schema) : Prop where
  types : (Entries.keys schema.types).Nodup
  fields : ∀ entry ∈ schema.types, (Entries.keys entry.2.fields).Nodup

variable {schema : Schema}

theorem Distinct.listed (h : schema.Distinct) {type : Text} {fields : List Text}
    (hlisted : (type, fields) ∈ schema.listing) : fields.Nodup := by
  obtain ⟨declared, hdeclared, -, rfl⟩ := (mem_listing_iff schema type fields).mp hlisted
  exact h.fields _ hdeclared

theorem mem_coordinates_iff (h : schema.Distinct) (type field : Text) :
    ⟨type, field⟩ ∈ schema.coordinates
      ↔ ∃ declared, Entries.get? type schema.types = some (.object declared)
        ∧ isReservedName type = false ∧ field ∈ Entries.keys declared := by
  have hlisted : ⟨type, field⟩ ∈ schema.coordinates
      ↔ ∃ fields, (type, fields) ∈ schema.listing ∧ field ∈ fields :=
    Report.mem_coordinatesOf_iff
  rw [hlisted]
  constructor
  · rintro ⟨fields, hfields, hfield⟩
    obtain ⟨declared, hdeclared, hreserved, rfl⟩ := (mem_listing_iff schema _ fields).mp hfields
    exact ⟨declared, (Entries.get?_eq_some_iff_mem h.types _ _).mpr hdeclared, hreserved, hfield⟩
  · rintro ⟨declared, hdeclared, hreserved, hfield⟩
    refine ⟨Entries.keys declared, ?_, hfield⟩
    exact (mem_listing_iff schema _ _).mpr
      ⟨declared, Entries.mem_of_get?_eq_some hdeclared, hreserved, rfl⟩

/-- Every field is counted once. -/
theorem nodup_coordinates (h : schema.Distinct) : schema.coordinates.Nodup := by
  have htypes : (Entries.keys schema.listing).Nodup := h.types.sublist (keys_listing_sublist schema)
  exact Report.nodup_coordinatesOf htypes fun _ hlisted => h.listed hlisted

theorem length_coordinates (schema : Schema) :
    schema.coordinates.length = Sweep.fieldCount schema.listing := by
  rw [coordinates, Sweep.fieldCount]
  induction schema.listing with
  | nil => rfl
  | cons entry rest ih =>
    rw [List.flatMap_cons, List.length_append, List.length_map, ih]
    rfl

end Schema

namespace Report

/-- The entries of a report: every field of every type, with what the report says about its use. -/
def entries (report : Report) : List (Coordinate × FieldUsage) :=
  report.types.flatMap fun (type, entry) =>
    entry.usages.map fun (field, usage) => (⟨type, field⟩, usage)

/-- The count of unused fields counts the entries that are not used. -/
theorem unusedCount_eq_countP (report : Report) :
    report.unusedCount = report.entries.countP fun entry => !entry.2.used := by
  rw [unusedCount, entries]
  induction report.types with
  | nil => rfl
  | cons entry rest ih =>
    obtain ⟨type, entry⟩ := entry
    have hfirst : TypeEntry.unusedCount entry = (entry.usages.map fun (field, usage) =>
        ((⟨type, field⟩ : Coordinate), usage)).countP fun entry => !entry.2.used := by
      rw [TypeEntry.unusedCount, List.countP_map, ← List.countP_eq_length_filter]
      rfl
    rw [List.map_cons, List.flatMap_cons, List.countP_append, ← ih, ← hfirst]
    rfl

/-- A report that joins the listing of a schema with usages has one entry for each field, with the
sites of the field. -/
theorem entries_eq {report : Report} {schema : Schema} {usages : UsageMap} (h : schema.Distinct)
    (htypes : report.types = typesOf schema.listing usages) :
    report.entries = schema.coordinates.map fun coordinate =>
      (coordinate, usageOf (usages.sites coordinate.type coordinate.field)) := by
  rw [entries, htypes, Schema.coordinates, typesOf, List.flatMap_map, List.map_flatMap]
  refine List.flatMap_congr ?_
  rintro ⟨type, fields⟩ hlisted
  have hfields : fields.eraseDups = fields := eraseDups_of_nodup (h.listed hlisted)
  dsimp only
  rw [entryOf_usages, hfields, List.map_map, List.map_map]
  rfl

end Report

/-! ## 2. The snippets of files -/

namespace Scan

/-- The snippets of files, file by file. -/
def snippetsOf (w : Workspace) (files : List Text) : List Snippet :=
  files.flatMap fun file => Snippet.pluck (textOf (contentsOf w file))

/-- A sequence of texts counts the snippets of the texts, and those among them that are
documents. -/
theorem snippets_sources (schema : Schema) (verbose : Bool) (calls : List (Text × Text))
    (scan : Scan) :
    (sources schema verbose calls scan).1.counts.found
        = scan.counts.found + (calls.flatMap fun call => Snippet.pluck call.2).length
      ∧ (sources schema verbose calls scan).1.counts.parsed
        = scan.counts.parsed
          + ((calls.flatMap fun call => Snippet.pluck call.2).filter fun snippet =>
            !isRejected snippet).length := by
  induction calls generalizing scan with
  | nil => exact ⟨rfl, rfl⟩
  | cons call calls ih =>
    obtain ⟨file, code⟩ := call
    obtain ⟨hfound, hparsed⟩ := ih (Scan.source schema verbose file code scan).scan
    rw [counts_source] at hfound hparsed
    unfold sources
    rw [List.flatMap_cons, List.filter_append, List.length_append, List.length_append]
    exact ⟨hfound.trans (Nat.add_assoc _ _ _), hparsed.trans (Nat.add_assoc _ _ _)⟩

/-- Files that can all be read are scanned as their texts are, one after the other. -/
theorem files_eq_sources (schema : Schema) (verbose : Bool) {w : Workspace} {files : List Text}
    (hread : ∀ file ∈ files, ∃ bytes, w.read file = .ok bytes) (scan : Scan) :
    (Scan.files schema verbose w files scan).result
      = .ok (sources schema verbose
        (files.map fun file => (file, textOf (contentsOf w file))) scan).1 := by
  induction files generalizing scan with
  | nil => rfl
  | cons file files ih =>
    obtain ⟨⟨bytes, hbytes⟩, hrest⟩ := List.forall_mem_cons.mp hread
    unfold Scan.files
    rw [List.map_cons, sources, hbytes, contentsOf_eq hbytes]
    exact ih hrest _

/-- What a scan of files that comes to its end has counted: every file, and every snippet of every
file, as a document or as a failure. -/
structure CountsFiles (w : Workspace) (files : List Text) (counts : ScanCounts) : Prop where
  read : counts.files = files.length
  found : counts.found = (snippetsOf w files).length
  parsed : counts.parsed = ((snippetsOf w files).filter fun snippet => !isRejected snippet).length
  balanced : counts.found = counts.parsed + counts.failures.length

theorem countsFiles_of_files_eq_ok {schema : Schema} {verbose : Bool} {w : Workspace}
    {files : List Text} {scan : Scan}
    (h : (Scan.files schema verbose w files Scan.start).result = .ok scan) :
    CountsFiles w files scan.counts := by
  let calls := files.map fun file => (file, textOf (contentsOf w file))
  have hscan : scan = (sources schema verbose calls Scan.start).1 := by
    rw [files_eq_sources schema verbose (exists_read_of_files_eq_ok h)] at h
    exact (Except.ok.inj h).symm
  have hsnippets : (calls.flatMap fun call => Snippet.pluck call.2) = snippetsOf w files := by
    rw [List.flatMap_map]
    rfl
  obtain ⟨hfound, hparsed⟩ := snippets_sources schema verbose calls Scan.start
  obtain ⟨-, hfiles, -⟩ := counts_sources schema verbose calls Scan.start
  rw [hsnippets] at hfound hparsed
  rw [hscan]
  constructor
  · rw [hfiles, List.length_map]
    exact Nat.zero_add _
  · exact hfound.trans (Nat.zero_add _)
  · exact hparsed.trans (Nat.zero_add _)
  · exact (balanced_sources schema verbose calls balanced_start).found_eq

end Scan

/-! ## 3. The totals -/

/-- The totals of a sweep agree with its report, with the fields and the sites of which the report
is made, and with the files and the snippets that were scanned. -/
structure SweepSummary.Agrees (summary : SweepSummary) (report : Report) (schema : Schema)
    (w : Workspace) (files : List Text) (scan : Scan) : Prop where
  types : summary.types = report.types.length
  fields : summary.fields = report.entries.length
  unused : summary.unused = report.entries.countP fun entry => !entry.2.used
  /-- What is not unused is what has a site. -/
  used : summary.fields - summary.unused
    = schema.coordinates.countP fun coordinate =>
      scan.usages.sites coordinate.type coordinate.field ≠ []
  unused_le : summary.unused ≤ summary.fields
  unused_eq_iff : summary.unused = summary.fields ↔ ∀ entry ∈ report.entries, entry.2.sites = []
  read : summary.files = scan.counts.files ∧ scan.counts.files = files.length
  snippets : summary.snippets = (Scan.snippetsOf w files).length
  /-- The snippets that did not fail are those that were parsed. -/
  parsed : summary.snippets - summary.failures = scan.counts.parsed
    ∧ scan.counts.parsed
      = ((Scan.snippetsOf w files).filter fun snippet => !Scan.isRejected snippet).length

namespace Sweep

theorem agrees_totalsOf {schema : Schema} {verbose : Bool} {w : Workspace} {files : List Text}
    {scan : Scan} {report : Report} (h : schema.Distinct)
    (hscan : (Scan.files schema verbose w files Scan.start).result = .ok scan)
    (htypes : report.types = Report.typesOf schema.listing scan.usages) :
    (totalsOf schema files scan report).Agrees report schema w files scan := by
  have hcounts := Scan.countsFiles_of_files_eq_ok hscan
  have hentries := Report.entries_eq h htypes
  have hfields : fieldCount schema.listing = report.entries.length := by
    rw [hentries, List.length_map, Schema.length_coordinates]
  have hunused : report.unusedCount = report.entries.countP fun entry => !entry.2.used :=
    Report.unusedCount_eq_countP report
  -- an entry is used or it is not
  have hsplit : report.entries.length = report.entries.countP (fun entry => entry.2.used)
      + report.entries.countP fun entry => !entry.2.used := by
    simpa using List.length_eq_countP_add_countP (l := report.entries) fun entry => entry.2.used
  have hused : report.entries.countP (fun entry => entry.2.used)
      = schema.coordinates.countP fun coordinate =>
        scan.usages.sites coordinate.type coordinate.field ≠ [] := by
    rw [hentries, List.countP_map]
    refine List.countP_congr ?_
    intro coordinate _
    simp [Report.used_usageOf_iff]
  have hnone : ∀ entry ∈ report.entries, (!entry.2.used) = true ↔ entry.2.sites = [] := by
    rw [hentries]
    intro entry hentry
    obtain ⟨coordinate, -, rfl⟩ := List.mem_map.mp hentry
    rw [Bool.not_eq_true', ← Bool.not_eq_true, Report.used_usageOf_iff, not_not]
    rfl
  constructor
  · rfl
  · exact hfields
  · exact hunused
  · show fieldCount schema.listing - report.unusedCount = _
    rw [hfields, hunused, ← hused]
    omega
  · show report.unusedCount ≤ fieldCount schema.listing
    rw [hfields, hunused]
    omega
  · show report.unusedCount = fieldCount schema.listing ↔ _
    rw [hfields, hunused, List.countP_eq_length]
    exact forall₂_congr hnone
  · exact ⟨hcounts.read.symm, hcounts.read⟩
  · exact hcounts.found
  · refine ⟨?_, hcounts.parsed⟩
    show scan.counts.found - scan.counts.failures.length = scan.counts.parsed
    rw [hcounts.balanced]
    omega

/-- **The totals agree with the report.** Whatever the settings, the files and the reply are: if a
sweep succeeds, its file holds a report that joins the fields of the object types of the schema,
introspection aside, with the usages of a scan, and each type and each field of a type is in it
once. The totals count its types, its entries and the entries that are not used. The entries that
are used are the fields with a site in the scan; so at most all entries are unused, and all of them
are exactly if the report has no site. Every file that was found has been read, once; and the
snippets that did not fail are those that were parsed. -/
theorem run_totals (settings : Settings) (base? : Option Text) (verbose : Bool) (w : Workspace)
    (moment : Moment) (reply : Reply) (stored : StoredReport)
    (h : (run settings (Report.baseDirectory w base?) verbose w moment reply).result = .ok stored) :
    ∃ schema files scan findings,
      Stores settings (Report.baseDirectory w base?) verbose w moment reply findings
      ∧ stored = ⟨Report.fileIn (Report.baseDirectory w base?), findings.summary⟩
      ∧ (Exchange.fetch settings.endpoint settings.headers verbose reply).result = .ok schema
      ∧ (discover settings w).result = .ok files
      ∧ (Scan.files schema verbose w files Scan.start).result = .ok scan
      ∧ findings.report.types = Report.typesOf schema.listing scan.usages
      ∧ (Entries.keys findings.report.types).Nodup
      ∧ findings.report.entries.map Prod.fst = schema.coordinates
      ∧ schema.coordinates.Nodup
      ∧ (∀ type field, ⟨type, field⟩ ∈ schema.coordinates
        ↔ ∃ declared, Entries.get? type schema.types = some (.object declared)
          ∧ Schema.isReservedName type = false ∧ field ∈ Entries.keys declared)
      ∧ files.Nodup ∧ (∀ file ∈ files, ∃ bytes, w.read file = .ok bytes)
      ∧ stored.summary.Agrees findings.report schema w files scan := by
  obtain ⟨findings, hstores, rfl⟩ :=
    exists_stores_of_run (Report.isAbsolute_baseDirectory w base?) h
  obtain ⟨schema, files, scan, hschema, hfiles, hscan, hreport, hsummary⟩ :=
    (investigate_eq_ok_iff findings).mp hstores.found
  have hdistinct : schema.Distinct := by
    obtain ⟨data, -, hbuild⟩ := Exchange.exists_build_eq_ok hschema
    exact ⟨Introspection.nodup_keys_of_build hbuild, Introspection.nodup_fields_of_build hbuild⟩
  have htypes := Report.types_of_build?_eq_some hreport
  have hkeys : Entries.keys findings.report.types = Entries.keys schema.listing := by
    rw [htypes, Report.typesOf, Entries.keys, List.map_map]
    rfl
  have hentries : findings.report.entries.map Prod.fst = schema.coordinates := by
    rw [Report.entries_eq hdistinct htypes, List.map_map]
    exact List.map_id _
  have hnodup : files.Nodup := by
    obtain ⟨patterns, -, hfound⟩ := (discover_eq_ok_iff files).mp hfiles
    exact Glob.nodup_findFiles hfound
  refine ⟨schema, files, scan, findings, hstores, rfl, hschema, hfiles, hscan, htypes, ?_, hentries,
    Schema.nodup_coordinates hdistinct, Schema.mem_coordinates_iff hdistinct, hnodup,
    Scan.exists_read_of_files_eq_ok hscan, ?_⟩
  · rw [hkeys]
    exact hdistinct.types.sublist (Schema.keys_listing_sublist schema)
  · rw [hsummary]
    exact agrees_totalsOf hdistinct hscan htypes

/-- A sweep of a project with two fields of object types, one of which is selected; a field of an
interface is selected too, and is in none of the totals. -/
theorem run_totals_nodeProject :
    ∃ stored findings,
      (run nodeSettings (Report.baseDirectory nodeProject none) false nodeProject default
        nodeAnswer).result = .ok stored
      ∧ (investigate nodeSettings false nodeProject default nodeAnswer).result = .ok findings
      ∧ findings.report.entries.map Prod.fst = [⟨"Query", "node"⟩, ⟨"User", "id"⟩]
      ∧ stored.summary.types = 2 ∧ stored.summary.fields = 2 ∧ stored.summary.unused = 1 := by
  obtain ⟨stored, hstored⟩ := exists_run_nodeProject
  obtain ⟨schema, files, scan, findings, hstores, -, hschema, hfiles, hscan, htypes, -, hentries,
      -, -, -, -, hagrees⟩ :=
    run_totals nodeSettings none false nodeProject default nodeAnswer stored hstored
  rw [fetch_nodeAnswer] at hschema
  rw [discover_nodeProject] at hfiles
  obtain rfl := Except.ok.inj hschema
  obtain rfl := Except.ok.inj hfiles
  have hfields : nodeSchema.coordinates = [⟨"Query", "node"⟩, ⟨"User", "id"⟩] := by decide
  have htotal : stored.summary.fields = 2 := by
    rw [hagrees.fields, ← List.length_map (f := Prod.fst), hentries, hfields]
    rfl
  have hsites : ∀ type field, scan.usages.sites type field ≠ []
      ↔ (⟨type, field⟩ : Coordinate) = ⟨"Query", "node"⟩
        ∨ (⟨type, field⟩ : Coordinate) = ⟨"Node", "id"⟩ := by
    intro type field
    rw [Scan.sites_ne_nil_iff hscan, selects_nodeProject_iff]
  have hused : stored.summary.fields - stored.summary.unused = 1 := by
    rw [hagrees.used, hfields]
    simp only [hsites]
    decide
  have hle := hagrees.unused_le
  refine ⟨stored, findings, hstored, hstores.found, hentries.trans hfields, ?_, htotal, ?_⟩
  · rw [hagrees.types, htypes, Report.typesOf, List.length_map]
    decide
  · omega

end Sweep

end FieldAudit
