import FieldAudit.Text.Basic

/-!
The switches of the command line: their names, the values they take, and the words of the help text.

The switches are the arguments that `main` adds to its parser, and the one for help that the parser
has by itself; `usageLines` and `helpLines` are what it prints about them.
-/

set_option autoImplicit false

namespace FieldAudit.CommandLine

/-- A switch of the command line. -/
inductive Switch
  | help
  | config
  | env
  | outputDir
  | debug
  | version
  deriving DecidableEq, Repr

namespace Switch

/-- The switches, in the order in which they are listed. -/
def all : List Switch := [.help, .config, .env, .outputDir, .debug, .version]

/-- The names of a switch. -/
def names : Switch → List String
  | .help => ["-h", "--help"]
  | .config => ["--config", "-c"]
  | .env => ["--env", "-e"]
  | .outputDir => ["--output-dir", "-o"]
  | .debug => ["--debug"]
  | .version => ["--version", "-v"]

/-- The names of a switch in messages. -/
def title (switch : Switch) : String := "/".intercalate switch.names

/-- Whether a switch takes a value. -/
def takesValue : Switch → Bool
  | .config | .env | .outputDir => true
  | .help | .debug | .version => false

/-- Every name with its switch. -/
def table : List (Text × Switch) :=
  all.flatMap fun switch => switch.names.map fun name => (.ofString name, switch)

/-- The switch of a name. -/
def ofName? (name : Text) : Option Switch := table.lookup name

end Switch

/-- The name of the program. -/
def programName : String := "run.py"

/-- How the program is called. -/
def usageLines : List String := [
  s!"usage: {programName} [-h] [--config CONFIG] [--env ENV] [--output-dir OUTPUT_DIR]",
  "              [--debug] [--version]"]

/-- The help text. -/
def helpLines : List String := usageLines ++ [
  "",
  "SchemaSweep - Find unused GraphQL schema fields in a codebase",
  "",
  "options:",
  "  -h, --help            show this help message and exit",
  "  --config CONFIG, -c CONFIG",
  "                        Path to schemasweep.config.json",
  "  --env ENV, -e ENV     Path to .env file",
  "  --output-dir OUTPUT_DIR, -o OUTPUT_DIR",
  "                        Directory to write reports/ into",
  "  --debug               Enable debug output",
  "  --version, -v         Show version and exit"]

end FieldAudit.CommandLine
