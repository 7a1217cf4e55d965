import FieldAudit.Environment
import FieldAudit.FileTree
import FieldAudit.Json.Mismatch
import FieldAudit.Json.Reader
import FieldAudit.Json.Spelling
import FieldAudit.Text.Utf8

/-!
Settings of a sweep and the file they are read from. The file is a JSON object; what it leaves out
comes from the environment or from a default. An endpoint and patterns are taken over whatever kind
of value they are.

`load` is `load_config`, `Settings` is the `SweepConfig` that it makes, `resolveRoot` is
`resolve_project_root`, `problems` is `SweepConfig.validate`, and `problemLines` is what
`SweepOrchestrator.validate_config` prints of them.
-/

set_option autoImplicit false

namespace FieldAudit

/-- The settings of a sweep. -/
structure Settings where
  projectRoot : Text
  endpoint : Json.Value
  patterns : List Json.Value
  headers : Entries Text
  path? : Option Text
  deriving Repr, Inhabited

/-- Why settings cannot be read. -/
inductive SettingsProblem
  /-- There is no file at the path. -/
  | missing (path : Text)
  /-- The file cannot be read. -/
  | refused (refusal : Refusal)
  /-- The file is no UTF-8. -/
  | malformed (malformed : Text.Utf8.Malformed)
  /-- The file is no JSON. -/
  | notJson (path : Text) (error : Json.ReadError)
  /-- The file holds a number that is too long, or is nested too deeply. -/
  | oversized (error : Json.ReadError)
  /-- The file holds something else than an object. -/
  | notObject (path : Text)
  /-- The headers are no object. -/
  | badHeaders
  /-- The project root is no text. -/
  | badRoot (value : Json.Value)
  /-- The patterns are neither a text nor a list. -/
  | badPatterns (mismatch : Json.Mismatch)
  deriving Repr

/-- What is reported of a value that stands where a path belongs. -/
def notPathMessage (value : Json.Value) : Text :=
  "expected str, bytes or os.PathLike object, not " ++ value.kindName

/-- What is reported of a problem. -/
def SettingsProblem.message : SettingsProblem → Text
  | .missing path => "Could not find config file: " ++ path
  | .refused r => r.message
  | .malformed m => m.message
  | .notJson path error => "Invalid JSON in " ++ path ++ ": " ++ error.message
  | .oversized error => error.message
  | .notObject path => path ++ " must contain a JSON object"
  | .badHeaders => "graphqlHeaders must be an object of header name to value"
  | .badRoot value => notPathMessage value
  | .badPatterns mismatch => mismatch.message

/-- Whether the problem is one that the program announces by itself. -/
def SettingsProblem.isAnnounced : SettingsProblem → Bool
  | .missing _ | .notJson _ _ | .notObject _ | .badHeaders => true
  | _ => false

namespace Settings

/-- The name of the settings file in the working directory. -/
def defaultFile : String := "schemasweep.config.json"

/-- The endpoint that is asked when none is given. -/
def defaultEndpoint : String := "http://localhost:3000/graphql"

/-- The name of the endpoint in the environment. -/
def endpointVariable : String := "GRAPHQL_ENDPOINT"

/-- What makes settings unusable. -/
def problems (settings : Settings) : List String :=
  (if settings.endpoint.isGiven then [] else ["graphqlEndpoint is required"]) ++
  (if settings.patterns.isEmpty then ["queryGlobs must contain at least one pattern"] else []) ++
  (if settings.projectRoot.isEmpty then ["projectRoot is required"] else [])

/-- What is printed of unusable settings. -/
def problemLines (settings : Settings) : List Text :=
  match settings.problems with
  | [] => []
  | problems =>
    "\nConfiguration Errors:" :: problems.map fun problem => "  - " ++ Text.ofString problem

/-- The directory that a project root means, seen from the directory of the settings file. An
absolute root that is not there is tried below that directory: a single name always lies there, more
names only if they are found. -/
def resolveRoot (w : Workspace) (directory root : Text) : Text :=
  if !Path.isAbsolute root then w.absolute (Path.join directory root)
  else if w.holds root then root
  else
    let relative := root.dropWhile fun (p : Point) => p == '/'
    let below := w.absolute (Path.join directory relative)
    if ((Path.parts root).filter fun part => !part.isEmpty).length = 1 then below
    else if w.holds below then below
    else root

/-- The first of two values that is given, the second one otherwise. -/
def given (value default : Json.Value) : Json.Value := if value.isGiven then value else default

/-- The endpoint: that of the file, that of the environment or the default one. -/
def endpointOf (environment : Environment) (members : Entries Json.Value) : Json.Value :=
  let fallback := given (.string ((Entries.get? endpointVariable environment).getD []))
    (.string defaultEndpoint)
  given (Json.Value.member "graphqlEndpoint" members) fallback

/-- The patterns: a single text counts as a list of one. -/
def patternsOf (members : Entries Json.Value) : Except Json.Mismatch (List Json.Value) :=
  match given (Json.Value.member "queryGlobs" members) (.array []) with
  | .string pattern => .ok [.string pattern]
  | value => value.itemsOf

/-- The headers, their values as texts. -/
def headersOf (members : Entries Json.Value) : Except SettingsProblem (Entries Text) :=
  match given (Json.Value.member "graphqlHeaders" members) (.object []) with
  | .object headers => .ok (headers.map fun (name, value) => (name, value.bare))
  | _ => .error .badHeaders

/-- The settings in the members of a file at a path in normal form. -/
def ofMembers (w : Workspace) (environment : Environment) (path : Text)
    (members : Entries Json.Value) : Except SettingsProblem Settings := do
  let headers ← headersOf members
  let root ← match given (Json.Value.member "projectRoot" members) (.string ".") with
    | .string root => .ok root
    | value => .error (.badRoot value)
  let patterns ← (patternsOf members).mapError .badPatterns
  return {
    projectRoot := resolveRoot w (Path.directory path) root
    endpoint := endpointOf environment members
    patterns := patterns
    headers := headers
    path? := some path }

/-- The problem of a file at a path that cannot be read as JSON. -/
def unreadable (path : Text) (error : Json.ReadError) : SettingsProblem :=
  if error.problem.isSize then .oversized error else .notJson path error

/-- The path of the settings file in normal form. -/
def pathOf (w : Workspace) (path? : Option Text) : Text :=
  w.absolute (path?.getD defaultFile)

/-- Reads the settings file at a path, or the default one. -/
def load (w : Workspace) (environment : Environment) (path? : Option Text) :
    Except SettingsProblem Settings := do
  let path := pathOf w path?
  if !w.isFile path then .error (.missing path)
  let bytes ← (w.read path).mapError .refused
  let text ← (Text.Utf8.decode bytes).mapError .malformed
  match ← (Json.read (Text.unifyNewlines text)).mapError (unreadable path) with
  | .object members => ofMembers w environment path members
  | _ => .error (.notObject path)

end Settings

end FieldAudit
