import FieldAudit.Proofs.Report.Stamped
import FieldAudit.Proofs.Sweep.Used
import Mathlib.Data.List.Flatten

/-!
Sweeps that print more. A verbose sweep prints the request before it is sent and a line for every
document, and is the same sweep otherwise. Two sweeps over the same files with the same reply, one
of them verbose and each at its own moment, go side by side from step to step: what the one comes
to, the other comes to, and the one that is not verbose prints some of the lines of the other. So
they send the same request, come to the same result and leave the same files, but for the stamp in
the report (`run_same_but_verbose`).
-/

set_option autoImplicit false

namespace FieldAudit

open scoped List

/-- The lines that an effect adds to the output. A text that is printed may hold line breaks of its
own. -/
def Effect.lines : Effect → List Text
  | .print text => Text.pieces '\n' text
  | .send _ => []

/-- The lines of the output, in order. -/
def outputLines (effects : List Effect) : List Text := effects.flatMap Effect.lines

namespace Attempt

variable {φ ψ α β γ δ : Type}

/-! ## 1. Attempts that print less -/

/-- Two attempts do the same, and the first one prints only some of what the second one prints: both
come to values that are related, or both fail alike, and they send the same requests. -/
structure Quieter (related : α → β → Prop) (quiet : Attempt Effect φ α)
    (loud : Attempt Effect φ β) : Prop where
  effects : quiet.effects <+ loud.effects
  requests : FieldAudit.requests quiet.effects = FieldAudit.requests loud.effects
  result : (∃ value other, quiet.result = .ok value ∧ loud.result = .ok other ∧ related value other)
    ∨ ∃ failure, quiet.result = .error failure ∧ loud.result = .error failure

theorem quieter_refl (attempt : Attempt Effect φ α) : Quieter Eq attempt attempt where
  effects := .refl _
  requests := rfl
  result := by
    cases h : attempt.result with
    | ok value => exact .inl ⟨value, value, rfl, rfl, rfl⟩
    | error failure => exact .inr ⟨failure, rfl, rfl⟩

/-- Attempts that are followed by attempts of which the same holds. -/
theorem Quieter.bind {related : α → β → Prop} {later : γ → δ → Prop} {quiet : Attempt Effect φ α}
    {loud : Attempt Effect φ β} {next : α → Attempt Effect φ γ} {other : β → Attempt Effect φ δ}
    (h : Quieter related quiet loud)
    (hnext : ∀ value reached, related value reached → Quieter later (next value) (other reached)) :
    Quieter later (quiet >>= next) (loud >>= other) := by
  change Quieter later (quiet.andThen next) (loud.andThen other)
  unfold andThen
  rcases h.result with ⟨value, reached, hquiet, hloud, hrelated⟩ | ⟨failure, hquiet, hloud⟩
  · rw [hquiet, hloud]
    have hlater := hnext value reached hrelated
    refine ⟨h.effects.append hlater.effects, ?_, hlater.result⟩
    rw [requests_append, requests_append, h.requests, hlater.requests]
  · rw [hquiet, hloud]
    exact ⟨h.effects, h.requests, .inr ⟨failure, rfl, rfl⟩⟩

/-- Lines that only the second attempt prints before. -/
theorem Quieter.printing {related : α → β → Prop} {quiet : Attempt Effect φ α}
    {loud : Attempt Effect φ β} (h : Quieter related quiet loud) (lines : List Text) :
    Quieter related quiet (emitAll (lines.map .print) >>= fun _ => loud) where
  effects := h.effects.trans (List.sublist_append_right _ _)
  requests := by rw [requests_emitAll_bind, h.requests]
  result := h.result

theorem Quieter.mapFailure {related : α → β → Prop} {quiet : Attempt Effect φ α}
    {loud : Attempt Effect φ β} (h : Quieter related quiet loud) (f : φ → ψ) :
    Quieter related (quiet.mapFailure f) (loud.mapFailure f) where
  effects := h.effects
  requests := h.requests
  result := by
    rcases h.result with ⟨value, other, hquiet, hloud, hrelated⟩ | ⟨failure, hquiet, hloud⟩
    · exact .inl ⟨value, other, (mapError_eq_ok_iff _ _ _).mpr hquiet,
        (mapError_eq_ok_iff _ _ _).mpr hloud, hrelated⟩
    · exact .inr ⟨f failure, (mapError_eq_error_iff _ _ _).mpr ⟨failure, hquiet, rfl⟩,
        (mapError_eq_error_iff _ _ _).mpr ⟨failure, hloud, rfl⟩⟩

end Attempt

namespace Exchange

open Attempt

/-- Asking for the data prints the request on demand, and does the same otherwise. -/
theorem quieter_introspect (endpoint : Json.Value) (headers : Entries Text) (reply : Reply) :
    Quieter Eq (introspect endpoint headers false reply) (introspect endpoint headers true reply) :=
  (quieter_refl (introspect endpoint headers false reply)).printing (requestLines endpoint headers)

theorem quieter_fetch (endpoint : Json.Value) (headers : Entries Text) (reply : Reply) :
    Quieter Eq (fetch endpoint headers false reply) (fetch endpoint headers true reply) := by
  unfold fetch
  refine (quieter_introspect endpoint headers reply).bind ?_
  rintro data _ rfl
  exact quieter_refl _

end Exchange

/-! ## 2. Scans -/

namespace Scan

/-- Two states of the scan of a text that differ in what was printed: the first one lacks some
lines. -/
structure Progress.Quieter (quiet loud : Progress) : Prop where
  scan : quiet.scan = loud.scan
  recorded : quiet.recorded = loud.recorded
  printed : quiet.printed <+ loud.printed

variable (schema : Schema) (file code : Text)

/-- A snippet is scanned alike, and a line about its fields is printed on demand. -/
theorem quieter_snippet {quiet loud : Progress} (h : quiet.Quieter loud) (snippet : Snippet) :
    (Scan.snippet schema false file code quiet snippet).Quieter
      (Scan.snippet schema true file code loud snippet) := by
  cases hparse : GraphQL.parse snippet.source with
  | error error =>
    rw [snippet_of_parse_eq_error hparse, snippet_of_parse_eq_error hparse, h.scan]
    exact ⟨rfl, h.recorded, h.printed.append (.refl _)⟩
  | ok document =>
    rw [snippet_of_parse_eq_ok hparse, snippet_of_parse_eq_ok hparse, h.scan, h.recorded]
    exact ⟨rfl, rfl, h.printed.append (List.nil_sublist _)⟩

/-- What one snippet keeps, snippets one after the other keep. -/
theorem quieter_foldl_snippet (snippets : List Snippet) {quiet loud : Progress}
    (h : quiet.Quieter loud) :
    (snippets.foldl (Scan.snippet schema false file code) quiet).Quieter
      (snippets.foldl (Scan.snippet schema true file code) loud) := by
  induction snippets generalizing quiet loud with
  | nil => exact h
  | cons snippet snippets ih => exact ih (quieter_snippet schema file code h snippet)

theorem quieter_source (scan : Scan) :
    (Scan.source schema false file code scan).Quieter (Scan.source schema true file code scan) := by
  have hstart : ∀ progress : Progress, progress.Quieter progress := fun _ => ⟨rfl, rfl, .refl _⟩
  have h := quieter_foldl_snippet schema file code (Snippet.pluck code)
    (hstart ⟨{ scan with counts := { scan.counts with files := scan.counts.files + 1 } }, 0, []⟩)
  unfold Scan.source
  dsimp only
  rw [h.scan, h.recorded]
  exact ⟨rfl, rfl, h.printed⟩

/-- Files are scanned alike, up to lines that are printed on demand. -/
theorem quieter_files (w : Workspace) (files : List Text) (scan : Scan) :
    (Scan.files schema false w files scan).result = (Scan.files schema true w files scan).result
      ∧ (Scan.files schema false w files scan).printed
        <+ (Scan.files schema true w files scan).printed := by
  induction files generalizing scan with
  | nil => exact ⟨rfl, .refl _⟩
  | cons file files ih =>
    unfold Scan.files
    cases w.read file with
    | error refusal => exact ⟨rfl, .refl _⟩
    | ok bytes =>
      have hsource := quieter_source schema file (textOf bytes) scan
      dsimp only
      rw [hsource.scan]
      obtain ⟨hresult, hprinted⟩ := ih (Scan.source schema true file (textOf bytes) scan).scan
      exact ⟨hresult, hsource.printed.append hprinted⟩

end Scan

/-! ## 3. Sweeps -/

namespace Sweep

open Attempt

/-- Findings that differ in nothing but the stamps of their reports. -/
def SameButStamp (first second : String) (findings others : Findings) : Prop :=
  findings.report.stamp = first
    ∧ others = ⟨{ findings.report with stamp := second }, findings.summary⟩

variable (settings : Settings) (w : Workspace) (reply : Reply)

theorem quieter_fetchSchema :
    Quieter Eq (fetchSchema settings false reply) (fetchSchema settings true reply) := by
  unfold fetchSchema
  refine (quieter_refl _).bind fun _ _ _ => (quieter_refl _).bind fun _ _ _ => ?_
  have hfetch := Exchange.quieter_fetch settings.endpoint settings.headers reply
  refine (hfetch.mapFailure SweepFailure.exchange).bind ?_
  rintro schema _ rfl
  exact quieter_refl _

theorem quieter_scanUsages (schema : Schema) (files : List Text) :
    Quieter Eq (scanUsages schema false w files) (scanUsages schema true w files) := by
  obtain ⟨hresult, hprinted⟩ := Scan.quieter_files schema w files Scan.start
  unfold scanUsages
  refine (quieter_refl _).bind fun _ _ _ => ?_
  -- the lines of the scan are printed whether it comes to its end or not
  have hlines : Quieter Eq (printAll (Scan.files schema false w files Scan.start).printed)
      (printAll (Scan.files schema true w files Scan.start).printed) :=
    ⟨hprinted.map _, (requests_print _).trans (requests_print _).symm, .inl ⟨(), (), rfl, rfl, rfl⟩⟩
  refine hlines.bind fun _ _ _ => ?_
  rw [hresult]
  exact quieter_refl _

/-- Two moments with stamps give reports that differ in nothing else. -/
theorem quieter_buildReport (schema : Schema) (files : List Text) (scan : Scan)
    {first second : Moment} {stamp other : String} (hfirst : first.stamp? = some stamp)
    (hsecond : second.stamp? = some other) :
    Quieter (SameButStamp stamp other) (buildReport settings schema first files scan)
      (buildReport settings schema second files scan) := by
  unfold buildReport Report.build?
  rw [hfirst, hsecond]
  refine (quieter_refl _).bind fun _ _ _ => (quieter_refl _).bind fun _ _ _ => ?_
  exact ⟨.refl _, rfl, .inl ⟨_, _, rfl, rfl, rfl, rfl⟩⟩

/-- Two investigations, one of them verbose, go side by side. -/
theorem quieter_investigate {first second : Moment} {stamp other : String}
    (hfirst : first.stamp? = some stamp) (hsecond : second.stamp? = some other) :
    Quieter (SameButStamp stamp other) (investigate settings false w first reply)
      (investigate settings true w second reply) := by
  unfold investigate
  refine (quieter_fetchSchema settings reply).bind ?_
  rintro schema _ rfl
  refine (quieter_refl (discover settings w)).bind ?_
  rintro files _ rfl
  refine (quieter_scanUsages w schema files).bind ?_
  rintro scan _ rfl
  refine (quieter_buildReport settings schema files scan hfirst hsecond).bind ?_
  intro findings others hsame
  refine (quieter_refl _).bind fun _ _ _ => ?_
  exact ⟨.refl _, rfl, .inl ⟨findings, others, rfl, rfl, hsame⟩⟩

/-- The last line of a sweep says how it has ended. -/
def closingLine : Except SweepFailure StoredReport → Text
  | .ok stored => "  Report written to " ++ stored.path
  | .error failure => "\n  ERROR: " ++ failure.message

/-- A sweep shows what its investigation shows, and then how it has ended. -/
theorem effects_run (base : Text) (verbose : Bool) (moment : Moment) :
    (run settings base verbose w moment reply).effects
      = (investigate settings verbose w moment reply).effects
        ++ [.print (closingLine (run settings base verbose w moment reply).result)] := by
  unfold run
  dsimp only
  split
  · rfl
  · split
    · rfl
    · rfl

/-- **Verbosity changes nothing but what is printed.** Whatever the settings, the files and the
reply are, let two sweeps start from the same files, one of them verbose, each at a moment that has
a stamp. They send the same request and come to the same result, be it the stored report with its
totals or the failure; every scan comes to the same counts and usages; the files that they leave are
the same, but that the stamps in the two reports, whole or broken off, may differ; and the output of
the sweep that is not verbose is that of the other with lines left out. -/
theorem run_same_but_verbose (base : Text) {first second : Moment} {stamp other : String}
    (hfirst : first.stamp? = some stamp) (hsecond : second.stamp? = some other) :
    let quiet := run settings base false w first reply
    let verbose := run settings base true w second reply
    requests quiet.effects = requests verbose.effects
    ∧ quiet.result = verbose.result
    ∧ (∀ schema files, (Scan.files schema false w files Scan.start).result
        = (Scan.files schema true w files Scan.start).result)
    ∧ Report.AlikeButStamp base stamp other quiet.workspace verbose.workspace
    ∧ outputLines quiet.effects <+ outputLines verbose.effects := by
  intro quiet verbose
  have hfound := quieter_investigate settings w reply hfirst hsecond
  have hstored : quiet.result = verbose.result
      ∧ Report.AlikeButStamp base stamp other quiet.workspace verbose.workspace := by
    rcases hfound.result with ⟨findings, _, hquiet, hloud, rfl, rfl⟩ | ⟨failure, hquiet, hloud⟩
    · -- both come to findings, and storing the two reports comes to the same
      obtain ⟨hresult, halike⟩ := Report.store_of_stamp w base findings.report other
      obtain ⟨hworkspace, hquiet⟩ :=
        run_of_ok hquiet (Eq.refl (Report.store w base findings.report))
      obtain ⟨hother, hloud⟩ := run_of_ok hloud
        (Eq.refl (Report.store w base { findings.report with stamp := other }))
      rw [hquiet, hloud, hworkspace, hother, hresult]
      exact ⟨rfl, halike⟩
    · -- both fail before there is a report, and touch no file
      obtain ⟨hquiet, hworkspace⟩ := run_of_error base hquiet
      obtain ⟨hloud, hother⟩ := run_of_error base hloud
      rw [hquiet, hloud, hworkspace, hother]
      exact ⟨rfl, Report.alikeButStamp_refl base stamp other w⟩
  refine ⟨?_, hstored.1, ?_, hstored.2, ?_⟩
  · rw [requests_run, requests_run]
  · intro schema files
    exact (Scan.quieter_files schema w files Scan.start).1
  · -- each prints one line more than its investigation, and the two lines say the same
    rw [effects_run, effects_run, hstored.1]
    exact (hfound.effects.append (.refl _)).flatMap _

/-- Two sweeps of a project that come to the same result, each at its own moment. -/
theorem run_same_but_verbose_nodeProject :
    (default : Moment).stamp? = some "0001-01-01T00:00:00.000Z"
      ∧ (Moment.ofEpoch 0 0).stamp? = some "1970-01-01T00:00:00.000Z"
      ∧ ∃ stored,
        (run nodeSettings (Report.baseDirectory nodeProject none) false nodeProject default
          nodeAnswer).result = .ok stored
        ∧ (run nodeSettings (Report.baseDirectory nodeProject none) true nodeProject
          (Moment.ofEpoch 0 0) nodeAnswer).result = .ok stored
        ∧ Report.AlikeButStamp (Report.baseDirectory nodeProject none)
          "0001-01-01T00:00:00.000Z" "1970-01-01T00:00:00.000Z"
          (run nodeSettings (Report.baseDirectory nodeProject none) false nodeProject default
            nodeAnswer).workspace
          (run nodeSettings (Report.baseDirectory nodeProject none) true nodeProject
            (Moment.ofEpoch 0 0) nodeAnswer).workspace := by
  have hfirst : (default : Moment).stamp? = some "0001-01-01T00:00:00.000Z" := by decide
  have hsecond : (Moment.ofEpoch 0 0).stamp? = some "1970-01-01T00:00:00.000Z" := by decide
  obtain ⟨stored, hstored⟩ := exists_run_nodeProject
  obtain ⟨-, hresult, -, halike, -⟩ := run_same_but_verbose nodeSettings nodeProject nodeAnswer
    (Report.baseDirectory nodeProject none) hfirst hsecond
  exact ⟨hfirst, hsecond, stored, hstored, hresult.symm.trans hstored, halike⟩

end Sweep

end FieldAudit
