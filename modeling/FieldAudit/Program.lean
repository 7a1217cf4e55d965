import FieldAudit.CommandLine
import FieldAudit.Sweep

/-!
The whole program. The command line is read, the environment file is loaded, the settings are read
and checked, and the project is swept. Only a sweep that stored its report ends with status 0, apart
from the answers to a request for help or for the version.

`run` is `main`, and `loadEnvironment` is `load_environment`.
-/

set_option autoImplicit false

namespace FieldAudit

/-- What the program finds around it: the files, the environment, the clock, and the reply that the
endpoint gives. -/
structure Surroundings where
  workspace : Workspace
  environment : Environment
  moment : Moment
  reply : Reply

/-- Why the program ends before it sweeps. -/
inductive Breakdown
  /-- An option that names a file has no value. -/
  | noPath
  /-- The file system refuses to look for the environment file. -/
  | refusedEnvironment (refusal : Refusal)
  /-- The environment file is no UTF-8. -/
  | malformedEnvironment (malformed : Text.Utf8.Malformed)
  /-- The environment file binds what an environment does not take. -/
  | badBinding (problem : Environment.BindingProblem)
  /-- The settings cannot be read. -/
  | settings (problem : SettingsProblem)

/-- What is reported of a breakdown. -/
def Breakdown.message : Breakdown → Text
  | .noPath => notPathMessage (.array [])
  | .refusedEnvironment refusal => refusal.message
  | .malformedEnvironment malformed => malformed.message
  | .badBinding problem => problem.message
  | .settings problem => problem.message

/-- Whether the program announces a breakdown by itself. -/
def Breakdown.isAnnounced : Breakdown → Bool
  | .settings problem => problem.isAnnounced
  | _ => false

/-- How the program ends. -/
inductive Ending
  /-- With a status. -/
  | status (status : Nat)
  /-- With a refused command line. -/
  | refused (problem : UsageProblem)
  /-- With an error. -/
  | breakdown (breakdown : Breakdown)

/-- What the program leaves: what it has shown, the files as they are afterwards, and how it
ended. -/
structure Program where
  effects : List Effect
  workspace : Workspace
  ending : Ending

namespace Program

/-- The name and the version of the program. -/
def name : String := "schemasweep"

/-- The version of the program. -/
def version : String := "0.1.0"

/-- Prints lines. -/
def prints (lines : List Text) : List Effect := lines.map .print

/-! ## 1. The environment -/

/-- The environment file that is loaded when none is given. -/
def defaultEnvironmentFile : String := "./.env"

/-- A path without empty names and points, and without a slash at its end; double points stay. -/
def condensed (path : Text) : Text :=
  let names := (Path.parts path).filter fun (part : Text) => part != "" && part != "."
  let root := if Path.isAbsolute path then Path.rootOf path else []
  let whole := Path.ofNames root names
  if whole.isEmpty then "." else whole

/-- The environment after loading a file; one that is not there, or is no file, adds nothing. -/
def loadEnvironment (w : Workspace) (environment : Environment) (path : Text) :
    Attempt Effect Breakdown Environment :=
  let file := condensed path
  match w.find file with
  | .error .tooLong => .fail (.refusedEnvironment ⟨.tooLong, file⟩)
  | .error _ => pure environment
  | .ok node => do
    let bytes := match node with
      | .file bytes => bytes
      | .directory => []
    let text ← Attempt.ofExcept ((Text.Utf8.decode bytes).mapError .malformedEnvironment)
    let loaded ← Attempt.ofExcept
      ((environment.load (Text.unifyNewlines text)).mapError .badBinding)
    Attempt.emit (.print ("Loaded environment from: " ++ path))
    return loaded

/-- Loads the environment file that an invocation names. -/
def prepare (invocation : Invocation) (around : Surroundings) :
    Attempt Effect Breakdown Environment :=
  let load := loadEnvironment around.workspace around.environment
  match invocation.env with
  | .absent => load defaultEnvironmentFile
  | .empty => .fail .noPath
  | .text path => load path

/-- Whether an environment asks for more output. -/
def isVerbose (environment : Environment) : Bool :=
  let asked := ((Entries.get? "DEBUG" environment).bind Text.word?).getD "false"
  asked.toList.map Char.toLower == ['t', 'r', 'u', 'e']

/-! ## 2. The run -/

/-- Reads the settings that an invocation names. -/
def readSettings (invocation : Invocation) (w : Workspace) (environment : Environment) :
    Except Breakdown Settings :=
  match invocation.config with
  | .empty => .error .noPath
  | setting => (Settings.load w environment setting.text?).mapError .settings

/-- What is printed of settings before they are checked. -/
def settingsLines (settings : Settings) : List Text := [
  "Config: " ++ settings.path?.getD Json.Value.null.bare,
  "Project root: " ++ settings.projectRoot]

/-- Sweeps the project of settings that have been read. -/
def sweep (invocation : Invocation) (around : Surroundings) (verbose : Bool)
    (settings : Settings) : Program :=
  let w := around.workspace
  let opening := settingsLines settings
  match settings.problemLines with
  | [] =>
    let base := Report.baseDirectory w invocation.outputDir.text?
    let sweep := Sweep.run settings base verbose w around.moment around.reply
    { effects := prints opening ++ sweep.effects ++ prints (Sweep.summaryLines sweep.result)
      workspace := sweep.workspace
      ending := .status (if sweep.result.isOk then 0 else 1) }
  | lines => ⟨prints (opening ++ lines), w, .status 1⟩

/-- Runs an invocation that does not ask for the version. -/
def runInvocation (invocation : Invocation) (around : Surroundings) : Program :=
  let w := around.workspace
  let opening := prints (Sweep.banner ("SCHEMASWEEP v" ++ version))
  let prepared := prepare invocation around
  match prepared.result with
  | .error breakdown => ⟨opening ++ prepared.effects, w, .breakdown breakdown⟩
  | .ok environment =>
    let shown := opening ++ prepared.effects
    match readSettings invocation w environment with
    | .error breakdown =>
      if breakdown.isAnnounced then
        ⟨shown ++ prints ["\n  ERROR: " ++ breakdown.message], w, .status 1⟩
      else ⟨shown, w, .breakdown breakdown⟩
    | .ok settings =>
      let rest := sweep invocation around (invocation.debug || isVerbose environment) settings
      { rest with effects := shown ++ rest.effects }

/-- The paths that a command line names. -/
def namedPaths (words : List Text) : List Text :=
  match CommandLine.read words with
  | .invocation invocation =>
    [invocation.config, invocation.env, invocation.outputDir].filterMap Setting.text?
  | _ => []

/-- The directory that the program will sweep, if it comes to that. -/
def projectRoot? (words : List Text) (around : Surroundings) : Option Text :=
  match CommandLine.read words with
  | .invocation invocation =>
    match (prepare invocation around).result with
    | .ok environment =>
      match readSettings invocation around.workspace environment with
      | .ok settings => some settings.projectRoot
      | .error _ => none
    | .error _ => none
  | _ => none

/-- Whether the program sends a request. -/
def sends (program : Program) : Bool :=
  program.effects.any fun
    | .send _ => true
    | .print _ => false

/-- Runs the program on the words of a command line. -/
def run (words : List Text) (around : Surroundings) : Program :=
  match CommandLine.read words with
  | .help => ⟨prints (CommandLine.helpLines.map .ofString), around.workspace, .status 0⟩
  | .refused problem => ⟨[], around.workspace, .refused problem⟩
  | .invocation invocation =>
    if invocation.version then
      ⟨prints [.ofString name ++ " " ++ version], around.workspace, .status 0⟩
    else runInvocation invocation around

end Program

end FieldAudit
