import FieldAudit.Proofs.Exchange.Fetched
import FieldAudit.Proofs.Introspection.Built
import FieldAudit.Proofs.Introspection.Listing
import FieldAudit.Proofs.Report.Join
import FieldAudit.Proofs.Scan.Usages
import FieldAudit.Sweep

/-!
What a sweep has found when it comes to write its report. Each step gives what the part of the
program behind it gives: the schema is the one that was fetched, every file that was found has been
read, and the report joins the listing of the schema with the usages of the scan
(`investigate_eq_ok_iff`). So a field of an object type counts as used exactly when a document among
the snippets of the files selects the field on that very type (`investigate_used_iff`).
-/

set_option autoImplicit false

namespace FieldAudit

/-! ## 1. Scans that come to their end -/

namespace Scan

/-- A scan that comes to its end has read every file. -/
theorem exists_read_of_files_eq_ok {schema : Schema} {verbose : Bool} {w : Workspace}
    {files : List Text} {scan after : Scan}
    (h : (Scan.files schema verbose w files scan).result = .ok after) :
    ∀ file ∈ files, ∃ bytes, w.read file = .ok bytes := by
  induction files generalizing scan with
  | nil => exact fun file hfile => absurd hfile List.not_mem_nil
  | cons first rest ih =>
    unfold Scan.files at h
    cases hread : w.read first with
    | error refusal =>
      rw [hread] at h
      simp at h
    | ok bytes =>
      rw [hread] at h
      refine List.forall_mem_cons.mpr ⟨⟨bytes, hread⟩, ?_⟩
      exact ih h

/-- A document among the snippets of the files selects a field on a type: the type is that of the
selection set in which the field stands, and not another one that has the field too. -/
def Selects (schema : Schema) (w : Workspace) (files : List Text) (coordinate : Coordinate) :
    Prop :=
  ∃ file ∈ files, ∃ bytes, w.read file = .ok bytes
    ∧ ∃ snippet ∈ Snippet.pluck (textOf bytes), ∃ document,
      GraphQL.parse snippet.source = .ok document ∧ coordinate ∈ Usage.selected schema document

/-- The bytes of a file; none if it cannot be read. -/
def contentsOf (w : Workspace) (file : Text) : List UInt8 := (w.read file).toOption.getD []

theorem contentsOf_eq {w : Workspace} {file : Text} {bytes : List UInt8}
    (h : w.read file = .ok bytes) : contentsOf w file = bytes := by
  rw [contentsOf, h]
  rfl

/-- The fields among the usages of a text are those that the documents among its snippets select. -/
theorem mem_usagesOfSource_iff (schema : Schema) (file code : Text) (coordinate : Coordinate) :
    coordinate ∈ (usagesOfSource schema file code).map Prod.fst
      ↔ ∃ snippet ∈ Snippet.pluck code, ∃ document,
        GraphQL.parse snippet.source = .ok document
          ∧ coordinate ∈ Usage.selected schema document := by
  have hsnippet : ∀ snippet, coordinate ∈ (usagesOfSnippet schema file code snippet).map Prod.fst
      ↔ ∃ document, GraphQL.parse snippet.source = .ok document
        ∧ coordinate ∈ Usage.selected schema document := by
    intro snippet
    unfold usagesOfSnippet
    cases GraphQL.parse snippet.source with
    | error _ => simp
    | ok document => simp
  rw [usagesOfSource, List.map_flatMap, List.mem_flatMap]
  simp only [hsnippet]

/-- If the files can be read, what they select is found among their usages. -/
theorem selects_iff {w : Workspace} {files : List Text}
    (hread : ∀ file ∈ files, ∃ bytes, w.read file = .ok bytes) (schema : Schema)
    (coordinate : Coordinate) :
    Selects schema w files coordinate
      ↔ ∃ file ∈ files,
        coordinate ∈ (usagesOfSource schema file (textOf (contentsOf w file))).map Prod.fst := by
  constructor
  · rintro ⟨file, hfile, bytes, hbytes, hselected⟩
    refine ⟨file, hfile, ?_⟩
    rw [contentsOf_eq hbytes]
    exact (mem_usagesOfSource_iff schema file _ coordinate).mpr hselected
  · rintro ⟨file, hfile, hmem⟩
    obtain ⟨bytes, hbytes⟩ := hread file hfile
    rw [contentsOf_eq hbytes] at hmem
    exact ⟨file, hfile, bytes, hbytes, (mem_usagesOfSource_iff schema file _ coordinate).mp hmem⟩

theorem sitesAmong_ne_nil_iff (found : List (Coordinate × Site)) (coordinate : Coordinate) :
    UsageMap.sitesAmong found coordinate ≠ [] ↔ coordinate ∈ found.map Prod.fst := by
  rw [UsageMap.sitesAmong, ne_eq, List.map_eq_nil_iff, List.filter_eq_nil_iff, List.mem_map]
  simp

/-- A scan that comes to its end has stored for a field the sites among the usages of the files,
file by file. -/
theorem sites_of_files_eq_ok {schema : Schema} {verbose : Bool} {w : Workspace} {files : List Text}
    {scan : Scan} (h : (Scan.files schema verbose w files Scan.start).result = .ok scan)
    (type field : Text) :
    scan.usages.sites type field
      = files.flatMap fun file =>
        UsageMap.sitesAmong (usagesOfSource schema file (textOf (contentsOf w file)))
          ⟨type, field⟩ := by
  have hcontents : ∀ file ∈ files, w.read file = .ok (contentsOf w file) := by
    intro file hfile
    obtain ⟨bytes, hbytes⟩ := exists_read_of_files_eq_ok h file hfile
    rw [contentsOf_eq hbytes, hbytes]
  -- the scan that is known to come to its end is this one
  obtain ⟨after, hafter, husages⟩ :=
    exists_files_eq_ok schema verbose w (contentsOf w) hcontents Scan.start
  have hsame : after = scan := Except.ok.inj (hafter.symm.trans h)
  have hbefore : UsageMap.sites Scan.start.usages type field = [] := rfl
  rw [← hsame, husages, UsageMap.sites_recordEach, hbefore, List.nil_append,
    UsageMap.sitesAmong_flatMap]

/-- A scan that comes to its end has recorded a field exactly if a document among the snippets of
the files selects it. -/
theorem sites_ne_nil_iff {schema : Schema} {verbose : Bool} {w : Workspace} {files : List Text}
    {scan : Scan} (h : (Scan.files schema verbose w files Scan.start).result = .ok scan)
    (type field : Text) :
    scan.usages.sites type field ≠ [] ↔ Selects schema w files ⟨type, field⟩ := by
  have hread := exists_read_of_files_eq_ok h
  rw [sites_of_files_eq_ok h, ← UsageMap.sitesAmong_flatMap, sitesAmong_ne_nil_iff,
    selects_iff hread, List.map_flatMap, List.mem_flatMap]

end Scan

/-! ## 2. The steps -/

namespace Sweep

section Steps

variable {settings : Settings} {verbose : Bool} {w : Workspace} {moment : Moment} {reply : Reply}

/-- Printed lines have no part in what comes of a step. -/
@[simp] theorem result_printAll_bind {α : Type} (lines : List Text) (next : Unit → Step α) :
    (printAll lines >>= next).result = (next ()).result :=
  Attempt.result_emitAll_bind _ next

@[simp] theorem result_printAll (lines : List Text) : (printAll lines).result = .ok () := rfl

theorem fetchSchema_eq_ok_iff (schema : Schema) :
    (fetchSchema settings verbose reply).result = .ok schema
      ↔ (Exchange.fetch settings.endpoint settings.headers verbose reply).result = .ok schema := by
  unfold fetchSchema
  rw [result_printAll_bind, result_printAll_bind, Attempt.result_bind, bind_eq_ok_iff]
  constructor
  · rintro ⟨found, hfound, hrest⟩
    have hsame : found = schema := by simpa using hrest
    rw [← hsame]
    exact (mapError_eq_ok_iff _ _ _).mp hfound
  · intro hschema
    exact ⟨schema, (mapError_eq_ok_iff _ _ _).mpr hschema, by simp⟩

/-- Files are discovered if the patterns are texts, and are those that the search for them finds. -/
theorem discover_eq_ok_iff (files : List Text) :
    (discover settings w).result = .ok files
      ↔ ∃ patterns, patternTexts settings.patterns = .ok patterns
        ∧ Glob.findFiles w settings.projectRoot patterns = .ok files := by
  unfold discover
  rw [result_printAll_bind, result_printAll_bind, Attempt.result_bind, bind_eq_ok_iff]
  constructor
  · rintro ⟨patterns, hpatterns, hrest⟩
    rw [result_printAll_bind, Attempt.result_bind, bind_eq_ok_iff] at hrest
    obtain ⟨found, hfound, hend⟩ := hrest
    have hsame : found = files := by simpa using hend
    rw [← hsame]
    exact ⟨patterns, hpatterns, (mapError_eq_ok_iff _ _ _).mp hfound⟩
  · rintro ⟨patterns, hpatterns, hfiles⟩
    refine ⟨patterns, hpatterns, ?_⟩
    rw [result_printAll_bind, Attempt.result_bind, bind_eq_ok_iff]
    exact ⟨files, (mapError_eq_ok_iff _ _ _).mpr hfiles, by simp⟩

theorem scanUsages_eq_ok_iff (schema : Schema) (files : List Text) (scan : Scan) :
    (scanUsages schema verbose w files).result = .ok scan
      ↔ (Scan.files schema verbose w files Scan.start).result = .ok scan := by
  unfold scanUsages
  rw [result_printAll_bind]
  dsimp only
  rw [result_printAll_bind, Attempt.result_bind, bind_eq_ok_iff]
  constructor
  · rintro ⟨found, hfound, hrest⟩
    have hsame : found = scan := by simpa using hrest
    rw [← hsame]
    exact (mapError_eq_ok_iff _ _ _).mp hfound
  · intro hscan
    exact ⟨scan, (mapError_eq_ok_iff _ _ _).mpr hscan, by simp⟩

/-- The totals of a report on the files of a scan. -/
def totalsOf (schema : Schema) (files : List Text) (scan : Scan) (report : Report) :
    SweepSummary where
  types := report.types.length
  fields := fieldCount schema.listing
  unused := report.unusedCount
  files := files.length
  snippets := scan.counts.found
  failures := scan.counts.failures.length

theorem buildReport_eq_ok_iff (schema : Schema) (files : List Text) (scan : Scan)
    (findings : Findings) :
    (buildReport settings schema moment files scan).result = .ok findings
      ↔ Report.build? settings.endpoint schema.listing scan.usages moment = some findings.report
        ∧ findings.summary = totalsOf schema files scan findings.report := by
  obtain ⟨report, summary⟩ := findings
  unfold buildReport
  rw [result_printAll_bind]
  dsimp only
  cases hbuild : Report.build? settings.endpoint schema.listing scan.usages moment with
  | none => simp
  | some built =>
    dsimp only
    rw [result_printAll_bind, Attempt.result_pure, Except.ok.injEq, Findings.mk.injEq,
      Option.some.injEq]
    constructor
    · rintro ⟨rfl, hsummary⟩
      exact ⟨rfl, hsummary.symm⟩
    · rintro ⟨rfl, hsummary⟩
      exact ⟨rfl, hsummary.symm⟩

/-- **What an investigation has found when it comes to its end.** It comes to its end exactly if the
schema is fetched, the files are found and read, and the moment has a stamp. -/
theorem investigate_eq_ok_iff (findings : Findings) :
    (investigate settings verbose w moment reply).result = .ok findings
      ↔ ∃ schema files scan,
        (Exchange.fetch settings.endpoint settings.headers verbose reply).result = .ok schema
        ∧ (discover settings w).result = .ok files
        ∧ (Scan.files schema verbose w files Scan.start).result = .ok scan
        ∧ Report.build? settings.endpoint schema.listing scan.usages moment = some findings.report
        ∧ findings.summary = totalsOf schema files scan findings.report := by
  unfold investigate
  -- every step is made with the result of the one before it, and the last one prints only
  simp only [Attempt.result_bind, bind_eq_ok_iff, fetchSchema_eq_ok_iff, scanUsages_eq_ok_iff,
    buildReport_eq_ok_iff]
  constructor
  · rintro ⟨schema, hschema, files, hfiles, scan, hscan, found, ⟨hreport, hsummary⟩, hend⟩
    have hsame : found = findings := by simpa using hend
    rw [← hsame]
    exact ⟨schema, files, scan, hschema, hfiles, hscan, hreport, hsummary⟩
  · rintro ⟨schema, files, scan, hschema, hfiles, hscan, hreport, hsummary⟩
    exact ⟨schema, hschema, files, hfiles, scan, hscan, findings, ⟨hreport, hsummary⟩, by simp⟩

/-- What an investigation goes on with once it has the schema. -/
def survey (settings : Settings) (schema : Schema) (verbose : Bool) (w : Workspace)
    (moment : Moment) : Step Findings := do
  let files ← discover settings w
  let scan ← scanUsages schema verbose w files
  let findings ← buildReport settings schema moment files scan
  printAll (banner "STEP 5: WRITE REPORT")
  return findings

theorem result_investigate {schema : Schema}
    (h : (Exchange.fetch settings.endpoint settings.headers verbose reply).result = .ok schema) :
    (investigate settings verbose w moment reply).result
      = (survey settings schema verbose w moment).result := by
  unfold investigate
  rw [Attempt.result_bind, (fetchSchema_eq_ok_iff schema).mpr h]
  rfl

/-- The totals count the unused fields of the report. -/
theorem unused_of_investigate {findings : Findings}
    (h : (investigate settings verbose w moment reply).result = .ok findings) :
    findings.summary.unused = findings.report.unusedCount := by
  obtain ⟨schema, files, scan, -, -, -, -, hsummary⟩ := (investigate_eq_ok_iff findings).mp h
  rw [hsummary, totalsOf]

/-- **Used fields are those that are selected on their very type.** In the report of an
investigation, every field of an object type of the schema, those of introspection aside, has a
usage, and is used exactly if a document among the snippets of the files selects it on that type. -/
theorem investigate_used_iff {findings : Findings}
    (h : (investigate settings verbose w moment reply).result = .ok findings) :
    ∃ schema files,
      (Exchange.fetch settings.endpoint settings.headers verbose reply).result = .ok schema
      ∧ (discover settings w).result = .ok files
      ∧ (∀ type declared, Entries.get? type schema.types = some (.object declared) →
        Schema.isReservedName type = false → ∀ field ∈ Entries.keys declared, ∃ entry usage,
          Entries.get? type findings.report.types = some entry
          ∧ Entries.get? field entry.usages = some usage
          ∧ (usage.used = true ↔ Scan.Selects schema w files ⟨type, field⟩))
      ∧ ∀ type declared, Entries.get? type schema.types = some (.interface declared) →
        Entries.get? type findings.report.types = none := by
  obtain ⟨schema, files, scan, hschema, hfiles, hscan, hreport, -⟩ :=
    (investigate_eq_ok_iff findings).mp h
  have hnodup : (Entries.keys schema.types).Nodup := by
    obtain ⟨data, -, hbuild⟩ := Exchange.exists_build_eq_ok hschema
    exact Introspection.nodup_keys_of_build hbuild
  have hlisting := Schema.get?_listing_eq_some_iff hnodup
  have htypes := Report.types_of_build?_eq_some hreport
  refine ⟨schema, files, hschema, hfiles, ?_, ?_⟩
  · intro type declared hdeclared hreserved field hfield
    have hlisted : Entries.get? type schema.listing = some (Entries.keys declared) :=
      (hlisting type _).mpr ⟨declared, hdeclared, hreserved, rfl⟩
    refine ⟨Report.entryOf scan.usages type (Entries.keys declared),
      Report.usageOf (scan.usages.sites type field), ?_, ?_, ?_⟩
    · rw [htypes, Report.get?_typesOf, hlisted]
      rfl
    · rw [Report.entryOf_usages]
      exact Entries.get?_map_pair_of_mem _ (List.mem_eraseDups.mpr hfield)
    · rw [Report.used_usageOf_iff]
      exact Scan.sites_ne_nil_iff hscan type field
  · intro type declared hdeclared
    rw [htypes, Report.get?_typesOf]
    cases hlisted : Entries.get? type schema.listing with
    | none => rfl
    | some fields =>
      -- what is listed is an object type, and a name has one type
      obtain ⟨other, hother, -⟩ := (hlisting type fields).mp hlisted
      rw [hdeclared] at hother
      simp at hother

end Steps

end Sweep

end FieldAudit
