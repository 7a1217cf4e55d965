import FieldAudit.Proofs.Report.Join
import FieldAudit.Proofs.Scan.Usages

/-!
The report on a scan of files, from end to end. What it says about a field is put together from the
snippets of the files alone: each snippet that is a document gives its file and line as often as the
field is recorded when that document is recorded by itself. Neither the documents recorded before,
nor the snippets that are skipped, nor the usages of types outside the schema have any part in it.
-/

set_option autoImplicit false

namespace FieldAudit

namespace Scan

/-! ## 1. The sites of a field, snippet by snippet -/

/-- The sites that a snippet gives a field: its file and line, as often as the field is recorded
when the document of the snippet is recorded by itself. A snippet that is no document gives none. -/
def sitesOfSnippet (schema : Schema) (file code : Text) (type field : Text) (snippet : Snippet) :
    List Site :=
  match GraphQL.parse snippet.source with
  | .error _ => []
  | .ok document =>
    let site : Site := ⟨file, 1 + Text.newlines (code.take snippet.index)⟩
    let alone := (Usage.recordAll schema document site []).1
    List.replicate (alone.sites type field).length site

/-- The sites that the text of a file gives a field. -/
def sitesOfSource (schema : Schema) (type field : Text) (file code : Text) : List Site :=
  (Snippet.pluck code).flatMap (sitesOfSnippet schema file code type field)

theorem sitesAmong_usagesOfSnippet (schema : Schema) (file code : Text) (type field : Text)
    (snippet : Snippet) :
    UsageMap.sitesAmong (usagesOfSnippet schema file code snippet) ⟨type, field⟩
      = sitesOfSnippet schema file code type field snippet := by
  have hline : siteOf file code snippet
      = ⟨file, 1 + Text.newlines (code.take snippet.index)⟩ := by
    rw [siteOf, lineOf_natCast, Nat.add_comm, Int.natCast_add]
    rfl
  unfold usagesOfSnippet sitesOfSnippet
  cases GraphQL.parse snippet.source with
  | error _ => rfl
  | ok document =>
    -- both sides count how often the document selects the field
    simp only
    rw [UsageMap.sitesAmong_map_site, Usage.sites_recordAll, UsageMap.sites_nil, List.nil_append,
      List.length_replicate, hline]

theorem sitesAmong_usagesOfSource (schema : Schema) (file code : Text) (type field : Text) :
    UsageMap.sitesAmong (usagesOfSource schema file code) ⟨type, field⟩
      = sitesOfSource schema type field file code := by
  rw [usagesOfSource, UsageMap.sitesAmong_flatMap, sitesOfSource]
  exact congrArg (fun sites => (Snippet.pluck code).flatMap sites)
    (funext (sitesAmong_usagesOfSnippet schema file code type field))

end Scan

namespace Report

open Scan (sitesOfSource textOf)

/-! ## 2. The report -/

/-- **The report is exact.** A scan of files that can all be read comes to its end, and the report
on it, at any moment that has a stamp, lists the object types of the schema in order, each with its
fields in order. Every field has one usage; its sites are those that the snippets of the files give
it, file by file and snippet by snippet, and it is used exactly when there is one. -/
theorem build?_scan_exact (schema : Schema) (verbose : Bool) (w : Workspace) (files : List Text)
    (contents : Text → List UInt8)
    (hread : ∀ file ∈ files, w.read file = .ok (contents file)) :
    ∃ scan, (Scan.files schema verbose w files Scan.start).result = .ok scan
      ∧ ∀ endpoint moment stamp, moment.stamp? = some stamp →
        ∃ report, build? endpoint schema.listing scan.usages moment = some report
          ∧ report.types.map (fun entry => (entry.1, entry.2.fields)) = schema.listing
          ∧ ∀ type entry, (type, entry) ∈ report.types →
            Entries.keys entry.usages = entry.fields.eraseDups
            ∧ ∀ field usage, (field, usage) ∈ entry.usages →
              usage.sites = files.flatMap (fun file =>
                sitesOfSource schema type field file (textOf (contents file)))
              ∧ (usage.used = true ↔ usage.sites ≠ []) := by
  obtain ⟨scan, hresult, husages⟩ :=
    Scan.exists_files_eq_ok schema verbose w contents hread Scan.start
  -- what the scan recorded, read field by field
  have hsites : ∀ type field, scan.usages.sites type field
      = files.flatMap fun file => sitesOfSource schema type field file
        (textOf (contents file)) := by
    intro type field
    rw [husages, UsageMap.sites_recordEach, UsageMap.sitesAmong_flatMap]
    simp only [Scan.sitesAmong_usagesOfSource]
    exact List.nil_append _
  refine ⟨scan, hresult, ?_⟩
  intro endpoint moment stamp hstamp
  refine ⟨⟨stamp, endpoint, typesOf schema.listing scan.usages⟩, ?_, ?_, ?_⟩
  · rw [build?, hstamp, Option.map_some]
  · exact map_fields_typesOf schema.listing scan.usages
  · intro type entry hentry
    obtain ⟨fields, -, rfl⟩ := (mem_typesOf_iff schema.listing scan.usages type entry).mp hentry
    refine ⟨keys_entryOf_usages scan.usages type fields, ?_⟩
    intro field usage husage
    rw [entryOf_usages, List.mem_map] at husage
    obtain ⟨name, -, hname⟩ := husage
    obtain ⟨rfl, rfl⟩ := Prod.mk.inj hname
    exact ⟨hsites type name, used_usageOf_iff _⟩

/-! ## 3. A scan of two files -/

/-- Two texts of source files: in the first, a snippet that is no document stands between two that
are; in the second, a snippet stands on the second line. -/
def sourceBytes (file : Text) : List UInt8 :=
  let code :=
    if file = "/a.ts" then
      "\x60query A \x7b a \x7b a \x7d \x7d\x60 \x60query \x7b\x60 \x60query B \x7b b \x7d\x60"
    else "\n\x60query C \x7b a b \x7d\x60"
  code.toList.map Char.toUInt8

/-- The two files in the root directory. -/
def twoFiles : Workspace where
  tree := ⟨[(["a.ts"], .file (sourceBytes "/a.ts")), (["b.ts"], .file (sourceBytes "/b.ts"))]⟩
  directory := []

theorem build?_scan_exact_twoFiles :
    (∀ file ∈ (["/a.ts", "/b.ts"] : List Text), twoFiles.read file = .ok (sourceBytes file))
      ∧ ∃ scan, (Scan.files Scan.loopSchema false twoFiles ["/a.ts", "/b.ts"] Scan.start).result
        = .ok scan
        ∧ ∀ endpoint moment stamp, moment.stamp? = some stamp →
          ∃ report, build? endpoint Scan.loopSchema.listing scan.usages moment = some report
            ∧ ∀ (entry : TypeEntry) (usage : FieldUsage),
              (Text.ofString "Query", entry) ∈ report.types →
              (Text.ofString "a", usage) ∈ entry.usages →
              usage.sites = [⟨"/a.ts", 1⟩, ⟨"/a.ts", 1⟩, ⟨"/b.ts", 2⟩] := by
  have hread : ∀ file ∈ (["/a.ts", "/b.ts"] : List Text),
      twoFiles.read file = .ok (sourceBytes file) := by decide
  obtain ⟨scan, hresult, hreport⟩ :=
    build?_scan_exact Scan.loopSchema false twoFiles ["/a.ts", "/b.ts"] sourceBytes hread
  refine ⟨hread, scan, hresult, ?_⟩
  intro endpoint moment stamp hstamp
  obtain ⟨report, hbuild, -, hentries⟩ := hreport endpoint moment stamp hstamp
  refine ⟨report, hbuild, ?_⟩
  intro entry usage hentry husage
  rw [((hentries "Query" entry hentry).2 "a" usage husage).1]
  decide +kernel

end Report

end FieldAudit
