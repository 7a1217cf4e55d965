import FieldAudit.Proofs.Usage.Selected
import FieldAudit.Scan

/-!
What a scan records. The usages of a snippet, of a source text and of a list of files are lists that
hold the selected fields of every document with the site of its snippet. A scan of one of the three
records that list, whatever was recorded before and whatever else the scan counts (`usages_snippet`,
`usages_source`, `exists_files_eq_ok`); a snippet that is no document adds nothing to it.
-/

set_option autoImplicit false

namespace FieldAudit.Scan

open Usage

/-! ## 1. The usages of texts -/

/-- The site of a snippet of a file. -/
def siteOf (file code : Text) (snippet : Snippet) : Site :=
  ⟨file, Snippet.lineOf code snippet.index⟩

/-- The usages of a snippet: none if it is no document. -/
def usagesOfSnippet (schema : Schema) (file code : Text) (snippet : Snippet) :
    List (Coordinate × Site) :=
  match GraphQL.parse snippet.source with
  | .ok document => (selected schema document).map fun found => (found, siteOf file code snippet)
  | .error _ => []

/-- The usages of the text of a file. -/
def usagesOfSource (schema : Schema) (file code : Text) : List (Coordinate × Site) :=
  (Snippet.pluck code).flatMap (usagesOfSnippet schema file code)

/-- The line of an offset of a text is one more than the line feeds before it. -/
theorem lineOf_natCast (code : Text) (offset : Nat) :
    Snippet.lineOf code (offset : Int) = Text.newlines (code.take offset) + 1 := by
  have hnonneg : ¬ ((offset : Int) < 0) := by omega
  unfold Snippet.lineOf
  rw [if_neg hnonneg, Int.toNat_natCast]

/-! ## 2. One snippet -/

/-- Scanning a snippet that is a document. -/
theorem snippet_of_parse_eq_ok {schema : Schema} {snippet : Snippet} {document : GraphQL.Document}
    (hparse : GraphQL.parse snippet.source = .ok document) (verbose : Bool) (file code : Text)
    (progress : Progress) :
    Scan.snippet schema verbose file code progress snippet
      = { scan := {
            counts := { progress.scan.counts with
              found := progress.scan.counts.found + 1
              parsed := progress.scan.counts.parsed + 1 }
            usages := progress.scan.usages.recordEach (usagesOfSnippet schema file code snippet) }
          recorded := progress.recorded + (usagesOfSnippet schema file code snippet).length
          printed := progress.printed ++
            if verbose then
              ["  " ++ file ++ ":" ++ .ofNat (Snippet.lineOf code snippet.index) ++ " -> "
                ++ .ofNat (usagesOfSnippet schema file code snippet).length ++ " field(s)"]
            else [] } := by
  have husages : usagesOfSnippet schema file code snippet
      = (selected schema document).map fun found => (found, siteOf file code snippet) := by
    rw [usagesOfSnippet, hparse]
  unfold Scan.snippet
  rw [hparse, husages, List.length_map]
  simp only [recordAll_eq]
  rfl

/-- Scanning a snippet that is no document. -/
theorem snippet_of_parse_eq_error {schema : Schema} {snippet : Snippet}
    {error : GraphQL.SyntaxError} (hparse : GraphQL.parse snippet.source = .error error)
    (verbose : Bool) (file code : Text) (progress : Progress) :
    Scan.snippet schema verbose file code progress snippet
      = { scan := { progress.scan with
            counts := { progress.scan.counts with
              found := progress.scan.counts.found + 1
              failures := progress.scan.counts.failures ++ [file] } }
          recorded := progress.recorded
          printed := progress.printed ++
            ["  Warning: Failed to parse GraphQL in " ++ file ++ ": " ++ error.message] } := by
  unfold Scan.snippet
  rw [hparse]

/-- A snippet records its usages and adds their number, whether it is a document or not. -/
theorem usages_snippet (schema : Schema) (verbose : Bool) (file code : Text) (progress : Progress)
    (snippet : Snippet) :
    (Scan.snippet schema verbose file code progress snippet).scan.usages
        = progress.scan.usages.recordEach (usagesOfSnippet schema file code snippet)
      ∧ (Scan.snippet schema verbose file code progress snippet).recorded
        = progress.recorded + (usagesOfSnippet schema file code snippet).length := by
  cases hparse : GraphQL.parse snippet.source with
  | ok document =>
    rw [snippet_of_parse_eq_ok hparse]
    exact ⟨rfl, rfl⟩
  | error error =>
    -- a snippet that is skipped has no usages, so recording them changes nothing
    have hnone : usagesOfSnippet schema file code snippet = [] := by rw [usagesOfSnippet, hparse]
    rw [snippet_of_parse_eq_error hparse, hnone]
    exact ⟨rfl, rfl⟩

/-! ## 3. Texts and files -/

/-- Snippets that are scanned one after the other record their usages in that order. -/
theorem usages_foldl_snippet (schema : Schema) (verbose : Bool) (file code : Text)
    (snippets : List Snippet) (progress : Progress) :
    (snippets.foldl (Scan.snippet schema verbose file code) progress).scan.usages
        = progress.scan.usages.recordEach (snippets.flatMap (usagesOfSnippet schema file code))
      ∧ (snippets.foldl (Scan.snippet schema verbose file code) progress).recorded
        = progress.recorded + (snippets.flatMap (usagesOfSnippet schema file code)).length := by
  induction snippets generalizing progress with
  | nil => exact ⟨rfl, rfl⟩
  | cons snippet rest ih =>
    obtain ⟨husages, hrecorded⟩ := usages_snippet schema verbose file code progress snippet
    obtain ⟨ihusages, ihrecorded⟩ := ih (Scan.snippet schema verbose file code progress snippet)
    rw [List.foldl_cons, List.flatMap_cons, ihusages, ihrecorded, husages, hrecorded,
      UsageMap.recordEach_append, List.length_append, Nat.add_assoc]
    exact ⟨rfl, rfl⟩

/-- Scanning a text records its usages and says how many there are. -/
theorem usages_source (schema : Schema) (verbose : Bool) (file code : Text) (scan : Scan) :
    (Scan.source schema verbose file code scan).scan.usages
        = scan.usages.recordEach (usagesOfSource schema file code)
      ∧ (Scan.source schema verbose file code scan).recorded
        = (usagesOfSource schema file code).length := by
  obtain ⟨husages, hrecorded⟩ := usages_foldl_snippet schema verbose file code
    (Snippet.pluck code)
    ⟨{ scan with counts := { scan.counts with files := scan.counts.files + 1 } }, 0, []⟩
  exact ⟨husages, hrecorded.trans (Nat.zero_add _)⟩

/-- A scan of files that can all be read comes to its end, and has recorded the usages of their
texts, file by file. -/
theorem exists_files_eq_ok (schema : Schema) (verbose : Bool) (w : Workspace)
    (contents : Text → List UInt8) {files : List Text}
    (hread : ∀ file ∈ files, w.read file = .ok (contents file)) (scan : Scan) :
    ∃ after, (Scan.files schema verbose w files scan).result = .ok after
      ∧ after.usages = scan.usages.recordEach
          (files.flatMap fun file => usagesOfSource schema file (textOf (contents file))) := by
  induction files generalizing scan with
  | nil => exact ⟨scan, rfl, rfl⟩
  | cons file rest ih =>
    have hfile : w.read file = .ok (contents file) := hread file List.mem_cons_self
    have hrest : ∀ other ∈ rest, w.read other = .ok (contents other) :=
      fun other hother => hread other (List.mem_cons_of_mem file hother)
    obtain ⟨after, hresult, husages⟩ :=
      ih hrest (Scan.source schema verbose file (textOf (contents file)) scan).scan
    refine ⟨after, ?_, ?_⟩
    · unfold Scan.files
      rw [hfile]
      exact hresult
    · rw [husages, (usages_source schema verbose file _ scan).1, List.flatMap_cons,
        UsageMap.recordEach_append]

/-- A schema whose query root has a field that leads back to it and a text: the smallest in which
documents of any depth select something. -/
def loopSchema : Schema where
  types := [("Query", .object [("a", .named "Query"), ("b", .named "String")])]
  query? := some "Query"
  mutation? := none
  subscription? := none

end FieldAudit.Scan
