import FieldAudit.CommandLine.Switch
import FieldAudit.Text.Digit

/-!
Words of the command line. A word mentions a switch when it is the name of one, alone or before an
equals sign, when it is the start of exactly one long name, or when it starts with a short name.
Every other word that starts with a hyphen is taken for an unknown switch, unless it is a number or
holds a space.

`classify` is how `parse_args` takes one word before it takes values.
-/

set_option autoImplicit false

namespace FieldAudit.CommandLine

/-- A switch that a word mentions, whether by a name with one hyphen, and the text that the word
attaches to the name. -/
structure Mention where
  switch : Switch
  isShort : Bool
  attached? : Option Text
  deriving DecidableEq, Repr

/-- What a word is on its own. -/
inductive Word
  /-- A mention of a switch. -/
  | switch (mention : Mention)
  /-- A switch that does not exist. -/
  | unknown
  /-- A word that is no switch. -/
  | plain
  /-- The word after which no word is a switch. -/
  | terminator
  deriving DecidableEq, Repr

/-- Whether a name has one hyphen. -/
def isShortName (name : Text) : Bool := name[1]? != some (Point.char '-')

/-- A number below zero: digits, possibly with a point before the last of them. One line feed may
follow. -/
def isNegativeNumber (word : Text) : Bool :=
  match word with
  | .char '-' :: rest =>
    let digits := if rest.getLast? = some '\n' then rest.dropLast else rest
    match digits.dropWhile Text.isDigit with
    | [] => !digits.isEmpty
    | .char '.' :: decimals => !decimals.isEmpty && decimals.all Text.isDigit
    | _ => false
  | _ => false

/-- A word before its first equals sign, and the text after the sign if there is one. -/
def splitValue (word : Text) : Text × Option Text :=
  let name := word.takeWhile fun (p : Point) => p != '='
  (name, (word.drop name.length).tail?)

/-- The mention by a name that a word holds in full, alone or before an equals sign. -/
def exactMention? (word : Text) : Option Mention :=
  let (name, value?) := splitValue word
  (Switch.ofName? name).map fun switch => ⟨switch, isShortName name, value?⟩

/-- The mentions by names that a word does not hold in full: its start may be that of long names if
it has two hyphens, and its first two points may be a short name if it has one. Each comes with the
name. -/
def readings (word : Text) : List (Text × Mention) :=
  match word with
  | .char '-' :: .char '-' :: _ =>
    let (start, value?) := splitValue word
    (Switch.table.filter fun (name, _) => start.isPrefixOf name).map fun (name, switch) =>
      (name, ⟨switch, false, value?⟩)
  | .char '-' :: p :: rest =>
    let short : Text := ['-', p]
    ((Switch.ofName? short).map fun switch => (short, ⟨switch, true, some rest⟩)).toList
  | _ => []

/-- What a word is; the error lists the names among which it does not decide. -/
def classify (word : Text) : Except (List Text) Word :=
  if word.head? != some '-' || word.length = 1 then .ok .plain
  else
    match exactMention? word with
    | some mention => .ok (.switch mention)
    | none =>
      match readings word with
      | [(_, mention)] => .ok (.switch mention)
      | [] =>
        if isNegativeNumber word || word.contains ' ' then .ok .plain else .ok .unknown
      | several => .error (several.map Prod.fst)

end FieldAudit.CommandLine
