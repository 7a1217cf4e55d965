import FieldAudit.Exchange
import FieldAudit.Glob.Search
import FieldAudit.Report.Storage
import FieldAudit.Scan
import FieldAudit.Settings

/-!
A sweep: the schema of the endpoint is fetched, the source files are found and scanned, and the
report on the fields is built and stored. The first step that fails ends the sweep; the report is
the only thing that a sweep writes, and it is written last.

`run` is `SweepOrchestrator.run`, whose steps are `fetchSchema`, `discover`, `scanUsages`,
`buildReport` and `Report.store`; `summaryLines` is `SweepOrchestrator.print_summary`, and `banner`
is its `_banner`.
-/

set_option autoImplicit false

namespace FieldAudit

/-- Why a sweep ends without a report. -/
inductive SweepFailure
  /-- No schema came of the exchange with the endpoint. -/
  | exchange (failure : ExchangeFailure)
  /-- A pattern is no text. -/
  | badPattern (value : Json.Value)
  /-- The file system refused to look for source files or to read one. -/
  | refused (refusal : Refusal)
  /-- The report could not be stored. -/
  | notStored (problem : Report.StoringProblem)
  /-- The moment of the report has no stamp. -/
  | noStamp

/-- What is reported of a moment without a stamp. -/
def noStampMessage : String := "date value out of range"

/-- What is reported of a failure. -/
def SweepFailure.message : SweepFailure → Text
  | .exchange failure => failure.message
  | .badPattern value =>
    "join() argument must be str, bytes, or os.PathLike object, not '" ++ value.kindName ++ "'"
  | .refused refusal => refusal.message
  | .notStored problem => problem.message
  | .noStamp => noStampMessage

/-- The totals of a sweep that has come to its end. -/
structure SweepSummary where
  types : Nat
  fields : Nat
  unused : Nat
  files : Nat
  snippets : Nat
  failures : Nat
  deriving DecidableEq, Repr

/-- A report that was stored: its path and its totals. -/
structure StoredReport where
  path : Text
  summary : SweepSummary
  deriving DecidableEq, Repr

namespace Sweep

/-- A report that is ready to be stored, and its totals. -/
structure Findings where
  report : Report
  summary : SweepSummary

/-- A step of a sweep. -/
abbrev Step (α : Type) := Attempt Effect SweepFailure α

/-- The line above and below a title. -/
def rule : Text := List.replicate 60 (.char '=')

/-- The lines that announce a part of the output. -/
def banner (title : Text) : List Text := ["\n" ++ rule, title, rule]

/-- Prints lines. -/
def printAll (lines : List Text) : Step Unit := Attempt.emitAll (lines.map .print)

/-- How many fields a listing of types names. -/
def fieldCount (listing : Entries (List Text)) : Nat :=
  sumOf (listing.map fun (_, fields) => fields.length)

/-! ## 1. The steps -/

/-- Fetches the schema. -/
def fetchSchema (settings : Settings) (verbose : Bool) (reply : Reply) : Step Schema := do
  printAll (banner "STEP 1: SCHEMA INTROSPECTION")
  printAll ["  Fetching GraphQL schema from " ++ settings.endpoint.bare]
  let schema ←
    (Exchange.fetch settings.endpoint settings.headers verbose reply).mapFailure .exchange
  let listing := schema.listing
  printAll ["  Object types: " ++ .ofNat listing.length ++ " (" ++ .ofNat (fieldCount listing) ++
    " fields)"]
  return schema

/-- The texts of patterns; fails at the first one that is no text. -/
def patternTexts : List Json.Value → Except SweepFailure (List Text)
  | [] => .ok []
  | .string pattern :: rest => (patternTexts rest).map (pattern :: ·)
  | value :: _ => .error (.badPattern value)

/-- Finds the source files. -/
def discover (settings : Settings) (w : Workspace) : Step (List Text) := do
  printAll (banner "STEP 2: FILE DISCOVERY")
  printAll ["  Scanning files:"]
  let patterns ← Attempt.ofExcept (patternTexts settings.patterns)
  printAll ((Glob.rooted settings.projectRoot patterns).map fun pattern => "    - " ++ pattern)
  let files ← Attempt.ofExcept ((Glob.findFiles w settings.projectRoot patterns).mapError .refused)
  printAll ["  Found " ++ .ofNat files.length ++ " files to inspect"]
  return files

/-- What is printed of a finished scan. -/
def scanLines (counts : ScanCounts) : List Text :=
  let literals : Text :=
    "  GraphQL literals: " ++ .ofNat counts.found ++ " (" ++ .ofNat counts.parsed ++ " parsed)"
  let skipped : Text := "  Literals skipped (parse errors): " ++ .ofNat counts.failures.length
  let occurrences : Text := "  Field occurrences: " ++ .ofNat counts.occurrences
  if counts.failures.isEmpty then [literals, occurrences] else [literals, skipped, occurrences]

/-- Scans the source files. -/
def scanUsages (schema : Schema) (verbose : Bool) (w : Workspace) (files : List Text) :
    Step Scan := do
  printAll (banner "STEP 3: USAGE SCAN")
  let outcome := Scan.files schema verbose w files Scan.start
  printAll outcome.printed
  let scan ← Attempt.ofExcept (outcome.result.mapError .refused)
  printAll (scanLines scan.counts)
  return scan

/-- Builds the report and counts it up. -/
def buildReport (settings : Settings) (schema : Schema) (moment : Moment) (files : List Text)
    (scan : Scan) : Step Findings := do
  printAll (banner "STEP 4: BUILD REPORT")
  let listing := schema.listing
  match Report.build? settings.endpoint listing scan.usages moment with
  | none => Attempt.fail .noStamp
  | some report =>
    let unused := report.unusedCount
    printAll ["  Unused fields: " ++ .ofNat unused ++ " of " ++ .ofNat (fieldCount listing)]
    return {
      report := report
      summary := {
        types := report.types.length
        fields := fieldCount listing
        unused := unused
        files := files.length
        snippets := scan.counts.found
        failures := scan.counts.failures.length } }

/-- Everything up to the report, which leaves the files as they are. -/
def investigate (settings : Settings) (verbose : Bool) (w : Workspace) (moment : Moment)
    (reply : Reply) : Step Findings := do
  let schema ← fetchSchema settings verbose reply
  let files ← discover settings w
  let scan ← scanUsages schema verbose w files
  let findings ← buildReport settings schema moment files scan
  printAll (banner "STEP 5: WRITE REPORT")
  return findings

end Sweep

/-! ## 2. The whole sweep -/

/-- What a sweep leaves: what it has shown, the files as they are afterwards, and the report that it
stored or why there is none. -/
structure Sweep where
  effects : List Effect
  workspace : Workspace
  result : Except SweepFailure StoredReport

namespace Sweep

/-- A sweep that failed. -/
def failed (effects : List Effect) (w : Workspace) (failure : SweepFailure) : Sweep where
  effects := effects ++ [.print ("\n  ERROR: " ++ failure.message)]
  workspace := w
  result := .error failure

/-- Sweeps a project and stores the report below a base directory. -/
def run (settings : Settings) (base : Text) (verbose : Bool) (w : Workspace) (moment : Moment)
    (reply : Reply) : Sweep :=
  let found := investigate settings verbose w moment reply
  match found.result with
  | .error failure => failed found.effects w failure
  | .ok findings =>
    let stored := Report.store w base findings.report
    match stored.result with
    | .error problem => failed found.effects stored.workspace (.notStored problem)
    | .ok path =>
      { effects := found.effects ++ [.print ("  Report written to " ++ path)]
        workspace := stored.workspace
        result := .ok ⟨path, findings.summary⟩ }

/-- What is printed about the end of a sweep. -/
def summaryLines (result : Except SweepFailure StoredReport) : List Text :=
  banner "SWEEP COMPLETE" ++
    match result with
    | .ok stored => [
        "Status: SUCCESS",
        "Report: " ++ stored.path,
        "Total types: " ++ .ofNat stored.summary.types,
        "Unused fields (all types): " ++ .ofNat stored.summary.unused]
    | .error failure =>
      "Status: FAILED" ::
        if failure.message.isEmpty then [] else ["Error: " ++ failure.message]

end Sweep

end FieldAudit
