import FieldAudit.CommandLine.Word
import FieldAudit.Text.Quoted

/-!
The command line. Words are classified from the first to the last one; then the switches take effect
in order, each with its value. A word that mentions a short switch may go on with more short
switches, and takes effect only if it can be read to its end. Asking for help ends the reading at
once; words that belong to no switch are refused at the end.

`read` is the `parse_args` of the parser that `main` sets up, and `refusalLines` is what its `error`
prints.
-/

set_option autoImplicit false

namespace FieldAudit

/-- What a command line says about an option: nothing, that it has no value, or its value. -/
inductive Setting
  | absent
  | empty
  | text (t : Text)
  deriving DecidableEq, Repr

/-- The setting of a value that is given. Two hyphens are no value. -/
def Setting.ofValue (value : Text) : Setting := if value = "--" then .empty else .text value

/-- The text of a setting. -/
def Setting.text? : Setting → Option Text
  | .text t => some t
  | _ => none

/-- What the command line asks for. -/
structure Invocation where
  config : Setting
  env : Setting
  outputDir : Setting
  debug : Bool
  version : Bool
  deriving DecidableEq, Repr

/-- Why a command line is refused. -/
inductive UsageProblem
  /-- A word is the start of several names. -/
  | ambiguous (word : Text) (names : List Text)
  /-- A switch that takes a value has none. -/
  | missingValue (switch : CommandLine.Switch)
  /-- A switch that takes no value has one. -/
  | extraValue (switch : CommandLine.Switch) (value : Text)
  /-- Words belong to no switch. -/
  | unrecognized (words : List Text)
  deriving DecidableEq, Repr

/-- A command line that has been read: a request for help, a refusal, or an invocation. -/
inductive CommandLine
  | help
  | refused (problem : UsageProblem)
  | invocation (invocation : Invocation)
  deriving DecidableEq, Repr

/-- What is reported of a refused command line. -/
def UsageProblem.message : UsageProblem → Text
  | .ambiguous word names => "ambiguous option: " ++ word ++ " could match " ++ .join ", " names
  | .missingValue switch => "argument " ++ switch.title ++ ": expected one argument"
  | .extraValue switch value =>
    "argument " ++ switch.title ++ ": ignored explicit argument " ++ value.quoted
  | .unrecognized words => "unrecognized arguments: " ++ .join " " words

namespace CommandLine

/-- A switch as it was met, and its value if one came with it. -/
structure Occurrence where
  switch : Switch
  value? : Option Text
  deriving DecidableEq, Repr

/-- The invocation before any switch. -/
def plainInvocation : Invocation := ⟨.absent, .absent, .absent, false, false⟩

/-- What an occurrence says about an option. -/
def Occurrence.setting (occurrence : Occurrence) : Setting :=
  match occurrence.value? with
  | some value => .ofValue value
  | none => .absent

/-- What a switch changes. -/
def apply (invocation : Invocation) (occurrence : Occurrence) : Invocation :=
  match occurrence.switch with
  | .help => invocation
  | .config => { invocation with config := occurrence.setting }
  | .env => { invocation with env := occurrence.setting }
  | .outputDir => { invocation with outputDir := occurrence.setting }
  | .debug => { invocation with debug := true }
  | .version => { invocation with version := true }

/-- The switches of a word that attaches a text to a switch. The text is the value of a switch that
takes one; after a short switch that takes none it holds more short switches. -/
def attached (switch : Switch) (isShort : Bool) (t : Text) :
    Except UsageProblem (List Occurrence) :=
  if switch.takesValue then .ok [⟨switch, some t⟩]
  else if !isShort then .error (.extraValue switch t)
  else
    match t with
    | [] => .error (.extraValue switch [])
    | p :: rest =>
      match Switch.ofName? ['-', p] with
      | none => .error (.extraValue switch (p :: rest))
      | some next =>
        if rest.isEmpty then .ok [⟨switch, none⟩, ⟨next, none⟩]
        else (attached next true rest).map (⟨switch, none⟩ :: ·)

/-- The switches of a word that mentions one. -/
def occurrencesOf (mention : Mention) : Except UsageProblem (List Occurrence) :=
  match mention.attached? with
  | none => .ok [⟨mention.switch, none⟩]
  | some t => attached mention.switch mention.isShort t

/-- Whether a switch still waits for its value. -/
def Occurrence.isOpen (occurrence : Occurrence) : Bool :=
  occurrence.switch.takesValue && occurrence.value?.isNone

/-- The last of the switches of a word, if it still waits for its value. -/
def open? (occurrences : List Occurrence) : Option Switch :=
  (occurrences.getLast?.filter Occurrence.isOpen).map Occurrence.switch

/-- What words are, up to the terminator and after it. -/
def classifyAll : List Text → Except UsageProblem (List (Text × Word))
  | [] => .ok []
  | word :: rest =>
    if word = "--" then .ok ((word, .terminator) :: rest.map fun word => (word, .plain))
    else do
      let kind ← (classify word).mapError (.ambiguous word)
      let others ← classifyAll rest
      return (word, kind) :: others

/-- Lets switches take effect in order; `none` stands for a request for help. -/
def applyAll (invocation : Invocation) (occurrences : List Occurrence) : Option Invocation :=
  if occurrences.any fun occurrence => occurrence.switch = .help then none
  else some (occurrences.foldl apply invocation)

/-- Reads classified words, given what the words before them asked for and which of those belong to
no switch. -/
def readWords (invocation : Invocation) (strangers : List Text) : List (Text × Word) → CommandLine
  | [] => if strangers.isEmpty then .invocation invocation else .refused (.unrecognized strangers)
  | (_, .switch mention) :: rest =>
    match occurrencesOf mention with
    | .error problem => .refused problem
    | .ok occurrences =>
      match open? occurrences, rest with
      | none, rest =>
        match applyAll invocation occurrences with
        | none => .help
        | some invocation => readWords invocation strangers rest
      | some last, (value, .plain) :: rest =>
        match applyAll invocation (occurrences.dropLast ++ [⟨last, some value⟩]) with
        | none => .help
        | some invocation => readWords invocation strangers rest
      | some last, _ => .refused (.missingValue last)
  | (word, _) :: rest => readWords invocation (strangers ++ [word]) rest

/-- Reads a command line. -/
def read (words : List Text) : CommandLine :=
  match classifyAll words with
  | .error problem => .refused problem
  | .ok words => readWords plainInvocation [] words

/-- What is written about a refused command line. -/
def refusalLines (problem : UsageProblem) : List Text :=
  usageLines.map .ofString ++ [.ofString programName ++ ": error: " ++ problem.message]

end CommandLine

end FieldAudit
