import FieldAudit.Entries
import FieldAudit.Text.Blank

/-!
Environments and the files that add to them. A file binds names to values, one binding a line;
values may stand in quotes, and they may refer to names that are bound already. A name that the
environment has keeps its value. No environment takes a name or a value with a null character, or a
name with an equals sign.

`load` is `load_dotenv`, as `load_environment` calls it: names that are bound keep their values.
-/

set_option autoImplicit false

namespace FieldAudit

/-- The values of an environment by name. -/
abbrev Environment := Entries Text

namespace Environment

/-- A name and the value it is bound to; a name alone binds nothing. -/
structure Binding where
  name : Text
  value? : Option Text
  deriving DecidableEq, Repr

/-- Why an environment does not take a name with a value. -/
inductive BindingProblem
  /-- The name or the value holds a null character. -/
  | nullCharacter
  /-- The name holds an equals sign. -/
  | equalsSign
  deriving DecidableEq, Repr

/-- What is reported of a problem. -/
def BindingProblem.message : BindingProblem → String
  | .nullCharacter => "embedded null byte"
  | .equalsSign => "illegal environment variable name"

/-! ## 1. Parts of a line -/

/-- A blank that ends no line. -/
def isInlineBlank (p : Point) : Bool := Text.isBlank p && p != '\n' && p != '\r'

/-- A character that ends a line. -/
def isLineEnd (p : Point) : Bool := p == '\n' || p == '\r'

/-- The text up to the end of its first line. -/
def firstLine (t : Text) : Text := t.takeWhile fun p => !isLineEnd p

/-- The text from the end of its first line on. -/
def fromLineEnd (t : Text) : Text := t.dropWhile fun p => !isLineEnd p

/-- The text after its leading blanks on the line. -/
def skipInline (t : Text) : Text := t.dropWhile isInlineBlank

/-- The text after the rest of the line. -/
def skipLine (t : Text) : Text := (fromLineEnd t).drop 1

/-- The word that may stand before a name. -/
def exportWord : Text := "export"

/-- The text after the word `export` and blanks, if both are there. -/
def skipExport (t : Text) : Text :=
  if exportWord.isPrefixOf t then
    let rest := t.drop exportWord.length
    if rest.head?.any isInlineBlank then skipInline rest else t
  else t

/-- A character of a name without quotes. -/
def inName (p : Point) : Bool := p != '=' && p != '#' && !Text.isBlank p

/-- The name at the front, in single quotes or up to a blank, an equals sign or a comment; a comment
has none. The error holds the text at which no name can be read. -/
def readName (t : Text) : Except Text (Option Text × Text) :=
  match t with
  | .char '#' :: _ => .ok (none, t)
  | .char '\'' :: rest =>
    let name := rest.takeWhile fun (p : Point) => p != '\''
    if name.isEmpty || name.length = rest.length then .error t
    else .ok (some name, rest.drop (name.length + 1))
  | t =>
    let name := t.takeWhile inName
    if name.isEmpty then .error t else .ok (some name, t.dropWhile inName)

/-- The text before a closing quote, and the text after it. A backslash and the point after it
belong together. -/
def readQuoted (mark : Point) : Text → Option (Text × Text)
  | [] => none
  | .char '\\' :: p :: rest =>
    (readQuoted mark rest).map fun (inside, after) => ('\\' :: p :: inside, after)
  | p :: rest =>
    if p = mark then some ([], rest)
    else if p = '\\' then none
    else (readQuoted mark rest).map fun (inside, after) => (p :: inside, after)

/-- The characters that escapes stand for in double quotes; in single quotes only the first two are
escapes. -/
def escapes : List (Char × Char) := [
  ('\\', '\\'), ('\'', '\''), ('\x22', '\x22'), ('a', '\x07'), ('b', '\x08'), ('f', '\x0c'),
  ('n', '\n'), ('r', '\r'), ('t', '\t'), ('v', '\x0b')]

/-- Replaces escapes by what they stand for. -/
def unescape (known : List (Char × Char)) : Text → Text
  | .char '\\' :: p :: rest =>
    match p.char?.bind fun c => known.lookup c with
    | some e => e :: unescape known rest
    | none => '\\' :: unescape known (p :: rest)
  | p :: rest => p :: unescape known rest
  | [] => []
  termination_by t => t.length

/-- A text without the comment that blanks set off. -/
def cutComment : Text → Text
  | [] => []
  | p :: rest =>
    if Text.isBlank p ∧ (Text.trimStart rest).head? = some '#' then [] else p :: cutComment rest

/-- The value after an equals sign, in quotes or up to the end of the line. -/
def readValue (t : Text) : Except Text (Text × Text) :=
  match skipInline t with
  | .char '\'' :: rest =>
    match readQuoted '\'' rest with
    | some (value, rest) => .ok (unescape (escapes.take 2) value, rest)
    | none => .error t
  | .char '\x22' :: rest =>
    match readQuoted '\x22' rest with
    | some (value, rest) => .ok (unescape escapes value, rest)
    | none => .error t
  | _ => .ok (Text.trim (cutComment (firstLine t)), fromLineEnd t)

/-- The text after the end of a line, which blanks and a comment may precede. -/
def readLineEnd (t : Text) : Except Text Text :=
  let rest := match skipInline t with
    | .char '#' :: comment => fromLineEnd comment
    | _ => t
  match skipInline rest with
  | [] => .ok []
  | p :: after => if isLineEnd p then .ok after else .error rest

/-! ## 2. Bindings -/

/-- The binding at the front of a text, if its line holds one, and the text after the line. -/
def readBinding (t : Text) : Except Text (Option Binding × Text) := do
  let (name?, rest) ← readName (skipExport t)
  let (value?, rest) ←
    match skipInline rest with
    | .char '=' :: rest => do
      let (value, rest) ← readValue rest
      pure (some value, rest)
    | rest => pure (none, rest)
  let rest ← readLineEnd rest
  return (name?.map fun name => ⟨name, value?⟩, rest)

/-- The bindings of a text; a line that holds none is passed over. The fuel bounds the lines. -/
def bindingsWith : Nat → Text → List Binding
  | 0, _ => []
  | fuel + 1, t =>
    match Text.trimStart t with
    | [] => []
    | t =>
      match readBinding t with
      | .ok (some binding, rest) => binding :: bindingsWith fuel rest
      | .ok (none, rest) => bindingsWith fuel rest
      | .error rest => bindingsWith fuel (skipLine rest)

/-- The bindings of a text, which a byte-order mark may precede. -/
def bindings (t : Text) : List Binding :=
  let t := match t with
    | .char '\uFEFF' :: rest => rest
    | t => t
  bindingsWith t.length t

/-! ## 3. References -/

/-- A reference at the front of a text, given what follows its opening brace: its name, its default,
and the text after it. -/
def reference? (t : Text) : Option (Text × Text × Text) :=
  let name := t.takeWhile fun (p : Point) => p != '\x7d' && p != ':'
  match t.drop name.length with
  | .char '\x7d' :: rest => some (name, [], rest)
  | .char ':' :: .char '-' :: rest =>
    let default := rest.takeWhile fun (p : Point) => p != '\x7d'
    match rest.drop default.length with
    | _ :: rest => some (name, default, rest)
    | [] => none
  | _ => none

/-- Replaces references by the values of their names. The fuel bounds their number. -/
def substituteWith (value? : Text → Option Text) : Nat → Text → Text
  | 0, t => t
  | _ + 1, [] => []
  | fuel + 1, p :: rest =>
    match p, rest with
    | .char '$', .char '\x7b' :: after =>
      match reference? after with
      | some (name, default, after) =>
        (value? name).getD default ++ substituteWith value? fuel after
      | none => p :: substituteWith value? fuel rest
    | _, _ => p :: substituteWith value? fuel rest

/-- Replaces references by the values of their names, or by their defaults. -/
def substitute (value? : Text → Option Text) (t : Text) : Text :=
  substituteWith value? t.length t

/-- The values that bindings give to names, the references in them replaced. A reference sees the
environment first and the bindings before it then; a name alone has the empty text for its value. -/
def resolve (environment : Environment) (bindings : List Binding) : Entries (Option Text) :=
  bindings.foldl (fun values binding =>
    let value? (name : Text) : Option Text :=
      match Entries.get? name environment with
      | some value => some value
      | none => (Entries.get? name values).map (·.getD [])
    Entries.put binding.name (binding.value?.map (substitute value?)) values) []

/-- Why an environment does not take a name with a value, if it does not. -/
def problem? (name value : Text) : Option BindingProblem :=
  if name.contains '\x00' || value.contains '\x00' then some .nullCharacter
  else if name.contains '=' then some .equalsSign
  else none

/-- Sets the value of a name that has none. -/
def extend (environment : Environment) (name value : Text) : Except BindingProblem Environment :=
  if Entries.has name environment then .ok environment
  else
    match problem? name value with
    | some problem => .error problem
    | none => .ok (Entries.put name value environment)

/-- Adds the bindings of a text to an environment. -/
def load (environment : Environment) (t : Text) : Except BindingProblem Environment :=
  (resolve environment (bindings t)).foldlM (fun result (name, value?) =>
    match value? with
    | some value => extend result name value
    | none => .ok result) environment

end Environment

end FieldAudit
