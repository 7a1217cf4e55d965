import FieldAudit.FileTree
import FieldAudit.Report

/-!
Where reports are stored: in the file `schemasweep-report.json` of the directory `reports` below a
base directory. Storing makes the directories that are missing and replaces the report that is
there. A report is written stroke by stroke, and a stroke that has no UTF-8 form ends it.

`baseDirectory` is the `base_dir` of an `OutputManager`, and `store` is its `write_report`.
-/

set_option autoImplicit false

namespace FieldAudit.Report

/-- The normal form of a base directory; the working directory if none is given. -/
def baseDirectory (w : Workspace) (base? : Option Text) : Text :=
  match base? with
  | some base => if base.isEmpty then w.directoryPath else w.absolute base
  | none => w.directoryPath

/-- The directory of reports. -/
def directoryIn (base : Text) : Text := Path.join base "reports"

/-- The file of the report. -/
def fileIn (base : Text) : Text := Path.join (directoryIn base) "schemasweep-report.json"

/-- Why a report is not stored. -/
inductive StoringProblem
  /-- The file system refuses to make a directory or to write the file. -/
  | refused (refusal : Refusal)
  /-- The report holds a text that has no UTF-8 form. -/
  | unwritable (unencodable : Text.Utf8.Unencodable)
  deriving DecidableEq, Repr

/-- What is reported of a problem. -/
def StoringProblem.message : StoringProblem → Text
  | .refused refusal => refusal.message
  | .unwritable unencodable => unencodable.message

/-- What storing leaves: the files as they are afterwards, and the path of the report or the problem
that stopped it. -/
structure Stored where
  workspace : Workspace
  result : Except StoringProblem Text
  deriving Repr

/-- The bytes of strokes up to the first one that has none, and why it has none. -/
def written : List Text → List UInt8 × Option Text.Utf8.Unencodable
  | [] => ([], none)
  | stroke :: strokes =>
    match Text.Utf8.encode stroke with
    | .error unencodable => ([], some unencodable)
    | .ok bytes =>
      let rest := written strokes
      (bytes ++ rest.1, rest.2)

/-- Stores a report. -/
def store (w : Workspace) (base : Text) (report : Report) : Stored :=
  match w.makeDirectories (directoryIn base) with
  | (made, some refusal) => ⟨made, .error (.refused refusal)⟩
  | (made, none) =>
    let output := written (Json.strokes 0 report.value)
    match made.write (fileIn base) output.1 with
    | .error refusal => ⟨made, .error (.refused refusal)⟩
    | .ok changed =>
      match output.2 with
      | some unencodable => ⟨changed, .error (.unwritable unencodable)⟩
      | none => ⟨changed, .ok (fileIn base)⟩

end FieldAudit.Report
