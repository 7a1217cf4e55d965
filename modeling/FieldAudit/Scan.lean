import FieldAudit.FileTree
import FieldAudit.GraphQL.Parse
import FieldAudit.Snippet
import FieldAudit.Text.Utf8
import FieldAudit.Usage.Attribution

/-!
Scanning source texts. The snippets of a text are parsed one after the other; the fields of those
that are documents are attributed to their types at the line of the snippet, the others are reported
and skipped. A file is read as UTF-8, whatever it holds, with every line break as a line feed.

`source` and `files` are `UsageScanner.scan_source` and `UsageScanner.scan_files`, `snippet` is what
the former does with one literal, and `ScanCounts` is `ScanStats`.
-/

set_option autoImplicit false

namespace FieldAudit

/-- What was counted during a scan. -/
structure ScanCounts where
  files : Nat
  filesWithSnippets : Nat
  found : Nat
  parsed : Nat
  failures : List Text
  occurrences : Nat
  deriving DecidableEq, Repr, Inhabited

/-- The state of a scan: what was counted, and the usages. -/
structure Scan where
  counts : ScanCounts
  usages : UsageMap
  deriving DecidableEq, Repr, Inhabited

namespace Scan

/-- The state before a scan. -/
def start : Scan := ⟨⟨0, 0, 0, 0, [], 0⟩, []⟩

/-- What scanning a part of a file gives: the state after it, how many usages were recorded, and the
lines that were printed. -/
structure Progress where
  scan : Scan
  recorded : Nat
  printed : List Text
  deriving DecidableEq, Repr

/-- Scans one snippet of a file. -/
def snippet (schema : Schema) (verbose : Bool) (file : Text) (code : Text)
    (progress : Progress) (snippet : Snippet) : Progress :=
  let counts := { progress.scan.counts with found := progress.scan.counts.found + 1 }
  match GraphQL.parse snippet.source with
  | .error error =>
    { scan := { progress.scan with counts := { counts with failures := counts.failures ++ [file] } }
      recorded := progress.recorded
      printed := progress.printed ++
        ["  Warning: Failed to parse GraphQL in " ++ file ++ ": " ++ error.message] }
  | .ok document =>
    let line := Snippet.lineOf code snippet.index
    let (usages, count) := Usage.recordAll schema document ⟨file, line⟩ progress.scan.usages
    { scan := ⟨{ counts with parsed := counts.parsed + 1 }, usages⟩
      recorded := progress.recorded + count
      printed := progress.printed ++
        if verbose then
          ["  " ++ file ++ ":" ++ .ofNat line ++ " -> " ++ .ofNat count ++ " field(s)"]
        else [] }

/-- Scans the text of a file. -/
def source (schema : Schema) (verbose : Bool) (file : Text) (code : Text) (scan : Scan) :
    Progress :=
  let snippets := Snippet.pluck code
  let opened := { scan with counts := { scan.counts with files := scan.counts.files + 1 } }
  let progress := snippets.foldl (snippet schema verbose file code) ⟨opened, 0, []⟩
  let counts := progress.scan.counts
  { progress with
    scan := { progress.scan with
      counts := { counts with
        filesWithSnippets := counts.filesWithSnippets + if snippets.isEmpty then 0 else 1
        occurrences := counts.occurrences + progress.recorded } } }

/-- The text of a file with the given bytes. -/
def textOf (bytes : List UInt8) : Text :=
  Text.unifyNewlines (Text.Utf8.decodeLossy bytes)

/-- What scanning files gives: the lines that were printed, and the state after it or the refusal of
the file that could not be read. -/
structure Outcome where
  printed : List Text
  result : Except Refusal Scan

/-- Scans files one after the other. -/
def files (schema : Schema) (verbose : Bool) (w : Workspace) : List Text → Scan → Outcome
  | [], scan => ⟨[], .ok scan⟩
  | file :: rest, scan =>
    match w.read file with
    | .error refusal => ⟨[], .error refusal⟩
    | .ok bytes =>
      let progress := source schema verbose file (textOf bytes) scan
      let outcome := files schema verbose w rest progress.scan
      ⟨progress.printed ++ outcome.printed, outcome.result⟩

end Scan

end FieldAudit
