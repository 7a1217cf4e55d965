import FieldAudit.Proofs.Report.Stored
import FieldAudit.Proofs.Sweep.Requests

/-!
A sweep is all or nothing, with one exception. Either it stores the whole report and says where, or
it fails and leaves every file as it was, the last report among them; it sends one request in any
case. The exception is a report that holds a text without UTF-8 form: such a sweep fails like any
other, but the last report is gone, and a part of the new one stands in its place
(`run_atomic_unless_breaksOff`).
-/

set_option autoImplicit false

namespace FieldAudit.Sweep

/-- A sweep that comes as far as writing its report, which breaks off. -/
def BreaksOff (settings : Settings) (base : Text) (verbose : Bool) (w : Workspace) (moment : Moment)
    (reply : Reply) : Prop :=
  ∃ findings, (investigate settings verbose w moment reply).result = .ok findings
    ∧ Report.BreaksOff w base findings.report

/-! ## 1. What a sweep can come to -/

section Run

variable {settings : Settings} {base : Text} {verbose : Bool} {w : Workspace} {moment : Moment}
  {reply : Reply}

/-- What a sweep comes to with what its investigation has come to: its result, and the files that it
leaves. -/
def conclude (base : Text) (w : Workspace) :
    Except SweepFailure Findings → Except SweepFailure StoredReport × Workspace
  | .error failure => (.error failure, w)
  | .ok findings =>
    let stored := Report.store w base findings.report
    match stored.result with
    | .error problem => (.error (.notStored problem), stored.workspace)
    | .ok path => (.ok ⟨path, findings.summary⟩, stored.workspace)

/-- Nothing but the investigation decides what a sweep comes to. -/
theorem run_eq_conclude (base : Text) :
    ((run settings base verbose w moment reply).result,
      (run settings base verbose w moment reply).workspace)
      = conclude base w (investigate settings verbose w moment reply).result := by
  unfold run conclude
  dsimp only
  cases (investigate settings verbose w moment reply).result with
  | error failure => rfl
  | ok findings =>
    dsimp only
    cases (Report.store w base findings.report).result with
    | error problem => rfl
    | ok path => rfl

theorem result_run (base : Text) :
    (run settings base verbose w moment reply).result
      = (conclude base w (investigate settings verbose w moment reply).result).1 :=
  congrArg Prod.fst (run_eq_conclude base)

theorem workspace_run (base : Text) :
    (run settings base verbose w moment reply).workspace
      = (conclude base w (investigate settings verbose w moment reply).result).2 :=
  congrArg Prod.snd (run_eq_conclude base)

/-- A sweep that finds no report to store fails and touches no file. -/
theorem run_of_error (base : Text) {failure : SweepFailure}
    (h : (investigate settings verbose w moment reply).result = .error failure) :
    (run settings base verbose w moment reply).result = .error failure
      ∧ (run settings base verbose w moment reply).workspace = w := by
  rw [result_run, workspace_run, h]
  exact ⟨rfl, rfl⟩

/-- A sweep with a report leaves what storing the report leaves. -/
theorem run_of_ok {findings : Findings} {stored : Report.Stored}
    (h : (investigate settings verbose w moment reply).result = .ok findings)
    (hstored : Report.store w base findings.report = stored) :
    (run settings base verbose w moment reply).workspace = stored.workspace
      ∧ (run settings base verbose w moment reply).result
        = match stored.result with
          | .ok path => .ok ⟨path, findings.summary⟩
          | .error problem => .error (.notStored problem) := by
  rw [result_run, workspace_run, h, conclude, hstored]
  cases stored.result with
  | ok path => exact ⟨rfl, rfl⟩
  | error problem => exact ⟨rfl, rfl⟩

/-- A sweep fails and has added nothing but directories, or it stores the whole report, or its
report breaks off. -/
theorem run_cases (settings : Settings) (verbose : Bool) (w : Workspace) (moment : Moment)
    (reply : Reply) (hbase : Path.isAbsolute base = true) :
    (¬ BreaksOff settings base verbose w moment reply
      ∧ (∃ failure, (run settings base verbose w moment reply).result = .error failure)
      ∧ FileTree.Extends (Path.names (Report.directoryIn base)) w.tree
          (run settings base verbose w moment reply).workspace.tree)
    ∨ (∃ findings bytes, (investigate settings verbose w moment reply).result = .ok findings
      ∧ (run settings base verbose w moment reply).result
          = .ok ⟨Report.fileIn base, findings.summary⟩
      ∧ Text.Utf8.encode findings.report.text = .ok bytes
      ∧ (run settings base verbose w moment reply).workspace.read (Report.fileIn base) = .ok bytes
      ∧ Report.OthersKept base w (run settings base verbose w moment reply).workspace)
    ∨ (∃ findings unencodable start rest bytes,
      (investigate settings verbose w moment reply).result = .ok findings
      ∧ (run settings base verbose w moment reply).result
          = .error (.notStored (.unwritable unencodable))
      ∧ findings.report.text = start ++ rest ∧ rest ≠ []
      ∧ Text.Utf8.encode start = .ok bytes
      ∧ (run settings base verbose w moment reply).workspace.read (Report.fileIn base) = .ok bytes
      ∧ Report.OthersKept base w (run settings base verbose w moment reply).workspace
      ∧ BreaksOff settings base verbose w moment reply) := by
  cases hfound : (investigate settings verbose w moment reply).result with
  | error failure =>
    obtain ⟨hresult, hkept⟩ := run_of_error base hfound
    refine .inl ⟨?_, ⟨failure, hresult⟩, ?_⟩
    · -- a report that was not found does not break off
      rintro ⟨findings, hok, -⟩
      rw [hfound] at hok
      simp at hok
    · rw [hkept]
      exact .refl _ _
  | ok findings =>
    rcases Report.store_cases w findings.report hbase with
      ⟨made, refusal, hstore, hwhole, hextends⟩ | ⟨changed, bytes, hstore, hencode, hread, hothers⟩
      | ⟨changed, unencodable, start, rest, bytes,
          hstore, hbreaks, htext, hne, hstart, hread, hothers⟩
    · obtain ⟨hworkspace, hresult⟩ := run_of_ok hfound hstore
      refine .inl ⟨?_, ⟨_, hresult⟩, ?_⟩
      · rintro ⟨other, hok, hbreaks⟩
        rw [hfound] at hok
        obtain rfl := Except.ok.inj hok
        exact hwhole hbreaks
      · rw [hworkspace]
        exact hextends
    · obtain ⟨hworkspace, hresult⟩ := run_of_ok hfound hstore
      rw [hworkspace]
      exact .inr (.inl ⟨findings, bytes, rfl, hresult, hencode, hread, hothers⟩)
    · obtain ⟨hworkspace, hresult⟩ := run_of_ok hfound hstore
      rw [hworkspace]
      exact .inr (.inr ⟨findings, unencodable, start, rest, bytes, rfl, hresult, htext, hne, hstart,
        hread, hothers, findings, hfound, hbreaks⟩)

/-- A sweep that succeeds with findings: it has found them, and the file of the report holds the
bytes of the report. -/
structure Stores (settings : Settings) (base : Text) (verbose : Bool) (w : Workspace)
    (moment : Moment) (reply : Reply) (findings : Findings) : Prop where
  found : (investigate settings verbose w moment reply).result = .ok findings
  result : (run settings base verbose w moment reply).result
    = .ok ⟨Report.fileIn base, findings.summary⟩
  written : ∃ bytes, Text.Utf8.encode findings.report.text = .ok bytes
    ∧ (run settings base verbose w moment reply).workspace.read (Report.fileIn base) = .ok bytes

/-- A sweep that succeeds has stored the report of its investigation. -/
theorem exists_stores_of_run {stored : StoredReport} (hbase : Path.isAbsolute base = true)
    (h : (run settings base verbose w moment reply).result = .ok stored) :
    ∃ findings, Stores settings base verbose w moment reply findings
      ∧ stored = ⟨Report.fileIn base, findings.summary⟩ := by
  rcases run_cases settings verbose w moment reply hbase with
    ⟨-, ⟨failure, hresult⟩, -⟩ | ⟨findings, bytes, hfound, hresult, hencode, hread, -⟩
    | ⟨findings, unencodable, start, rest, bytes, -, hresult, -⟩
  · rw [hresult] at h
    simp at h
  · exact ⟨findings, ⟨hfound, hresult, bytes, hencode, hread⟩, Except.ok.inj (h.symm.trans hresult)⟩
  · rw [hresult] at h
    simp at h

end Run

/-! ## 2. All or nothing -/

/-- **A sweep is all or nothing, unless its report breaks off.** Whatever the settings, the files
and the reply are, a sweep sends one request. If it succeeds, the file of the report holds the bytes
of the whole report, and no other file has changed. If it fails and its report does not break off,
the place of the report and every file are as they were. If its report does break off, it fails, and
the file of the report holds a part of the report that stops short of its end. -/
theorem run_atomic_unless_breaksOff (settings : Settings) (base? : Option Text) (verbose : Bool)
    (w : Workspace) (moment : Moment) (reply : Reply) :
    let base := Report.baseDirectory w base?
    let sweep := run settings base verbose w moment reply
    requests sweep.effects = [Exchange.request settings.endpoint settings.headers]
    ∧ (∀ stored, sweep.result = .ok stored →
      stored.path = Report.fileIn base
      ∧ (∃ findings bytes, (investigate settings verbose w moment reply).result = .ok findings
        ∧ stored.summary = findings.summary
        ∧ Text.Utf8.encode findings.report.text = .ok bytes
        ∧ sweep.workspace.read (Report.fileIn base) = .ok bytes)
      ∧ Report.OthersKept base w sweep.workspace)
    ∧ (∀ failure, sweep.result = .error failure →
      ¬ BreaksOff settings base verbose w moment reply →
      sweep.workspace.tree.node? (Path.names (Report.fileIn base))
          = w.tree.node? (Path.names (Report.fileIn base))
        ∧ ∀ location, sweep.workspace.tree.file? location = w.tree.file? location)
    ∧ (BreaksOff settings base verbose w moment reply →
      ∃ findings unencodable start rest bytes,
        (investigate settings verbose w moment reply).result = .ok findings
        ∧ sweep.result = .error (.notStored (.unwritable unencodable))
        ∧ findings.report.text = start ++ rest ∧ rest ≠ []
        ∧ Text.Utf8.encode start = .ok bytes
        ∧ sweep.workspace.read (Report.fileIn base) = .ok bytes
        ∧ Report.OthersKept base w sweep.workspace) := by
  intro base sweep
  refine ⟨requests_run settings base verbose w moment reply, ?_⟩
  have hbase : Path.isAbsolute base = true := Report.isAbsolute_baseDirectory w base?
  rcases run_cases settings verbose w moment reply hbase with
    ⟨hwhole, ⟨failure, hresult⟩, hextends⟩
    | ⟨findings, bytes, hfound, hresult, hencode, hread, hothers⟩
    | ⟨findings, unencodable, start, rest, bytes,
        hfound, hresult, htext, hne, hstart, hread, hothers, hbreaks⟩
  · -- the sweep failed, and there are more directories at most
    refine ⟨?_, ?_, fun hbreaks => absurd hbreaks hwhole⟩
    · intro stored hok
      rw [hresult] at hok
      simp at hok
    · intro _ _ _
      exact ⟨hextends.node?_eq (Report.length_names_directoryIn_lt base), hextends.file?_eq⟩
  · -- the sweep succeeded, so its report has bytes and has not broken off
    refine ⟨?_, ?_, ?_⟩
    · intro stored hok
      obtain rfl := Except.ok.inj (hresult.symm.trans hok)
      exact ⟨rfl, ⟨findings, bytes, hfound, rfl, hencode, hread⟩, hothers⟩
    · intro failure herror
      rw [hresult] at herror
      simp at herror
    · rintro ⟨other, hok, _, _, -, -, hnone⟩
      obtain rfl := Except.ok.inj (hfound.symm.trans hok)
      exact absurd hencode (hnone bytes)
  · -- the report broke off
    refine ⟨?_, ?_, ?_⟩
    · intro stored hok
      rw [hresult] at hok
      simp at hok
    · intro _ _ hwhole
      exact absurd hbreaks hwhole
    · intro _
      exact ⟨findings, unencodable, start, rest, bytes, hfound, hresult, htext, hne, hstart, hread,
        hothers⟩

/-! ## 3. Two sweeps over an earlier report -/

/-- Settings without patterns. -/
def settingsFor (endpoint : Text) : Settings where
  projectRoot := "/"
  endpoint := .string endpoint
  patterns := []
  headers := []
  path? := none

/-- The report of an earlier sweep in its place below the root. -/
def earlierReport : Workspace where
  tree :=
    ⟨[(["reports"], .directory),
      (["reports", "schemasweep-report.json"], .file [0x6f, 0x6c, 0x64])]⟩
  directory := []

/-- The answer of an endpoint that has no types. -/
def noTypes : Reply :=
  .answer 200 (some "OK")
    ("\x7b\"data\": \x7b\"__schema\": \x7b\"types\": []\x7d\x7d\x7d".toList.map Char.toUInt8)

/-- What two sweeps over the earlier report come to: one whose report has bytes, and one whose
report has none. -/
theorem earlierReport_values :
    Report.fileIn (Report.baseDirectory earlierReport none) = "/reports/schemasweep-report.json"
    ∧ earlierReport.read "/reports/schemasweep-report.json" = .ok [0x6f, 0x6c, 0x64]
    ∧ (run (settingsFor "http://localhost") (Report.baseDirectory earlierReport none) false
      earlierReport default noTypes).result.toOption.isSome = true
    ∧ (run (settingsFor [.half 0]) (Report.baseDirectory earlierReport none) false
      earlierReport default noTypes).result.toOption = none
    ∧ ((run (settingsFor [.half 0]) (Report.baseDirectory earlierReport none) false
      earlierReport default noTypes).workspace.read "/reports/schemasweep-report.json").toOption
        ≠ some [0x6f, 0x6c, 0x64] := by
  decide +kernel

/-- A sweep that replaces the earlier report by a whole one. -/
theorem run_atomic_unless_breaksOff_earlierReport :
    ∃ stored findings bytes,
      (run (settingsFor "http://localhost") (Report.baseDirectory earlierReport none) false
        earlierReport default noTypes).result = .ok stored
      ∧ stored.path = "/reports/schemasweep-report.json"
      ∧ (investigate (settingsFor "http://localhost") false earlierReport default noTypes).result
          = .ok findings
      ∧ Text.Utf8.encode findings.report.text = .ok bytes
      ∧ (run (settingsFor "http://localhost") (Report.baseDirectory earlierReport none) false
        earlierReport default noTypes).workspace.read "/reports/schemasweep-report.json"
          = .ok bytes := by
  obtain ⟨hpath, -, hsome, -⟩ := earlierReport_values
  cases hresult :
      (run (settingsFor "http://localhost") (Report.baseDirectory earlierReport none) false
        earlierReport default noTypes).result with
  | error failure =>
    rw [hresult] at hsome
    exact absurd hsome Bool.false_ne_true
  | ok stored =>
    obtain ⟨-, hstored, -, -⟩ :=
      run_atomic_unless_breaksOff (settingsFor "http://localhost") none false earlierReport
        default noTypes
    obtain ⟨hfile, ⟨findings, bytes, hfound, -, hencode, hread⟩, -⟩ := hstored stored hresult
    rw [hpath] at hfile hread
    exact ⟨stored, findings, bytes, rfl, hfile, hfound, hencode, hread⟩

/-- A sweep that fails, for half of a surrogate pair in the endpoint, and has done away with the
earlier report. -/
theorem run_destroys_earlierReport :
    earlierReport.read "/reports/schemasweep-report.json" = .ok [0x6f, 0x6c, 0x64]
      ∧ (run (settingsFor [.half 0]) (Report.baseDirectory earlierReport none) false
        earlierReport default noTypes).result.toOption = none
      ∧ ((run (settingsFor [.half 0]) (Report.baseDirectory earlierReport none) false
        earlierReport default noTypes).workspace.read "/reports/schemasweep-report.json").toOption
          ≠ some [0x6f, 0x6c, 0x64] := by
  obtain ⟨-, hearlier, -, hnone, hread⟩ := earlierReport_values
  exact ⟨hearlier, hnone, hread⟩

end FieldAudit.Sweep
