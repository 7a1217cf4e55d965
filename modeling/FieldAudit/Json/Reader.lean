import FieldAudit.Json.Value
import FieldAudit.Text.Hex
import FieldAudit.Text.Lines

/-!
Reading JSON text. Besides the standard's grammar the numbers `NaN`, `Infinity` and `-Infinity` are
read, and a member name that comes again replaces the value of its first occurrence. An escape may
name half of a surrogate pair. The first point that fits no rule is reported with its offset, line
and column. A whole number with too many digits is refused as well, and so are lists and objects
inside too many others.

`read` is `json.load`, on the settings file, and `response.json`, on an answer.
-/

set_option autoImplicit false

namespace FieldAudit.Json

/-- What is wrong at a place of a JSON text. -/
inductive Problem
  | byteOrderMark
  | value
  | memberName
  | colon
  | comma
  | extraData
  | unterminatedText
  | controlCharacter
  | escape
  | unicodeEscape
  | longNumber (digits : Nat)
  | deepList
  | deepObject
  deriving DecidableEq, Repr

/-- How many digits a whole number may have. -/
def digitLimit : Nat := 4300

/-- How many lists and objects may stand inside each other: the limit of the interpreter on calls
inside each other, which is 1000, less the calls that are in use where a text is read. -/
def depthLimit : Nat := 988

/-- The words for a problem. -/
def Problem.message : Problem → String
  | .byteOrderMark => "Unexpected UTF-8 BOM (decode using utf-8-sig)"
  | .value => "Expecting value"
  | .memberName => "Expecting property name enclosed in double quotes"
  | .colon => "Expecting ':' delimiter"
  | .comma => "Expecting ',' delimiter"
  | .extraData => "Extra data"
  | .unterminatedText => "Unterminated string starting at"
  | .controlCharacter => "Invalid control character at"
  | .escape => "Invalid \\escape"
  | .unicodeEscape => "Invalid \\uXXXX escape"
  | .longNumber digits =>
    s!"Exceeds the limit ({digitLimit} digits) for integer string conversion: value has {digits} digits; " ++
      "use sys.set_int_max_str_digits() to increase the limit"
  | .deepList =>
    "maximum recursion depth exceeded while decoding a JSON array from a unicode string"
  | .deepObject =>
    "maximum recursion depth exceeded while decoding a JSON object from a unicode string"

/-- Whether a problem is one of depth. -/
def Problem.isDepth : Problem → Bool
  | .deepList | .deepObject => true
  | _ => false

/-- Whether a problem is one of length or depth, and none of the form of the text. -/
def Problem.isSize : Problem → Bool
  | .longNumber _ | .deepList | .deepObject => true
  | _ => false

/-- A problem and its place: the offset counts from zero, line and column from one. -/
structure ReadError where
  problem : Problem
  offset : Nat
  line : Nat
  column : Nat
  deriving DecidableEq, Repr

/-- The words for a problem at its place; one of size is reported without a place. -/
def ReadError.message (e : ReadError) : String :=
  if e.problem.isSize then e.problem.message
  else s!"{e.problem.message}: line {e.line} column {e.column} (char {e.offset})"

/-- A problem and the count of points from its place to the end of the text. -/
structure Stop where
  problem : Problem
  left : Nat
  deriving DecidableEq, Repr

/-- What a reading step found at the front of a text, and the text after it. -/
abbrev Step (α : Type) := Except Stop (α × Text)

/-- The four characters that may stand between the parts of a JSON text. -/
def isSpace (p : Point) : Bool := p == ' ' || p == '\t' || p == '\n' || p == '\r'

/-- The text after its leading space. -/
def skipSpace (t : Text) : Text := t.dropWhile isSpace

/-! ## 1. Texts -/

/-- The character that a backslash and a letter stand for. -/
def simpleEscape? : Point → Option Char
  | .char '\x22' => some '\x22'
  | .char '\\' => some '\\'
  | .char '/' => some '/'
  | .char 'b' => some '\x08'
  | .char 'f' => some '\x0c'
  | .char 'n' => some '\n'
  | .char 'r' => some '\r'
  | .char 't' => some '\t'
  | _ => none

/-- The point that a unit escape stands for, given the text after `\u`, and how many points of that
text it takes. A point must follow the four digits; two escapes join into one character when they
form a surrogate pair. The error counts from the `u` at fault to the end. -/
def unitEscape (t : Text) : Except Nat (Point × Nat) :=
  if (t.drop 4).isEmpty then .error (t.length + 1)
  else
    match Text.hexQuad? t with
    | none => .error (t.length + 1)
    | some high =>
      match Text.isHighSurrogate high && !(t.drop 10).isEmpty, t.drop 4 with
      | true, .char '\\' :: .char 'u' :: second =>
        match Text.hexQuad? second with
        | none => .error (second.length + 1)
        | some low =>
          if Text.isLowSurrogate low then .ok (.char (Text.pairChar high low), 10)
          else .ok (.ofCode high, 4)
      | _, _ => .ok (.ofCode high, 4)

/-- The text up to its closing quote, given what follows the opening one. A text that does not end
has its problem at the opening quote, which only the caller knows: the error is `none` then. -/
def readInside : Text → Except (Option Stop) (Text × Text)
  | [] => .error none
  | .char '\x22' :: rest => .ok ([], rest)
  | [.char '\\'] => .error none
  | .char '\\' :: .char 'u' :: rest =>
    match unitEscape rest with
    | .error left => .error (some ⟨.unicodeEscape, left⟩)
    | .ok (p, used) => (readInside (rest.drop used)).map fun (ps, r) => (p :: ps, r)
  | .char '\\' :: p :: rest =>
    match simpleEscape? p with
    | none => .error (some ⟨.escape, rest.length + 2⟩)
    | some e => (readInside rest).map fun (ps, r) => (.char e :: ps, r)
  | p :: rest =>
    if p.code < 0x20 then .error (some ⟨.controlCharacter, rest.length + 1⟩)
    else (readInside rest).map fun (ps, r) => (p :: ps, r)
  termination_by t => t.length
  decreasing_by all_goals simp only [List.length_drop, List.length_cons]; omega

/-- The text up to its closing quote, given what follows the opening one. -/
def readText (t : Text) : Step Text :=
  (readInside t).mapError fun stop? => stop?.getD ⟨.unterminatedText, t.length + 1⟩

/-! ## 2. Numbers -/

/-- A decimal digit. -/
def isDigit (p : Point) : Bool := '0' ≤ p && p ≤ '9'

/-- The natural number that decimal digits write. -/
def digitsValue (digits : Text) : Nat := digits.foldl (fun n p => n * 10 + (p.code - 48)) 0

/-- The digits of the whole part: a single zero, or digits that start with another one. -/
def wholePart? : Text → Option (Text × Text)
  | .char '0' :: rest => some ("0", rest)
  | t =>
    let digits := t.takeWhile isDigit
    if digits.isEmpty then none else some (digits, t.dropWhile isDigit)

/-- The digits after a point; a point without digits belongs to no number. -/
def fractionPart : Text → Option Text × Text
  | .char '.' :: rest =>
    let digits := rest.takeWhile isDigit
    if digits.isEmpty then (none, '.' :: rest) else (some digits, rest.dropWhile isDigit)
  | t => (none, t)

/-- The power of ten after an `e`; an `e` without digits belongs to no number. -/
def powerPart : Text → Option Int × Text
  | p :: rest =>
    if p = 'e' ∨ p = 'E' then
      let signed := match rest with
        | .char '-' :: r => (true, r)
        | .char '+' :: r => (false, r)
        | r => (false, r)
      let digits := signed.2.takeWhile isDigit
      if digits.isEmpty then (none, p :: rest)
      else
        let size : Int := digitsValue digits
        (some (if signed.1 then -size else size), signed.2.dropWhile isDigit)
    else (none, p :: rest)
  | [] => (none, [])

/-- The longest number at the front of a text that holds no sign. -/
def readUnsigned (negative : Bool) (t : Text) : Option (Value × Text) := do
  let (whole, afterWhole) ← wholePart? t
  let (fraction, afterFraction) := fractionPart afterWhole
  let (power, afterPower) := powerPart afterFraction
  match fraction, power with
  | none, none =>
    let size : Int := digitsValue whole
    return (.int (if negative then -size else size), afterPower)
  | _, _ =>
    let tail := fraction.getD []
    let digits := (whole ++ tail).dropWhile fun (p : Point) => p == '0'
    return (.float (Decimal.Binary64.ofDecimal negative (digitsValue digits) digits.length
      (power.getD 0 - tail.length)), afterPower)

/-- The longest number at the front of a text. -/
def readNumber : Text → Option (Value × Text)
  | .char '-' :: rest => readUnsigned true rest
  | t => readUnsigned false t

/-! ## 3. Values -/

/-- The text after a word, if the word is at its front. -/
def afterWord? (word : String) (t : Text) : Option Text :=
  if (Text.ofString word).isPrefixOf t then some (t.drop word.length) else none

/-- The words that stand for a value. -/
def wordValues : List (String × Value) :=
  [("null", .null), ("true", .bool true), ("false", .bool false), ("NaN", .float .nan),
    ("Infinity", .float (.infinite false)), ("-Infinity", .float (.infinite true))]

/-- How many digits a whole number at the front of a text is written with; other values have
none. -/
def wholeDigits (value : Value) (t : Text) : Nat :=
  match value with
  | .int _ => ((t.dropWhile fun (p : Point) => p == '-').takeWhile isDigit).length
  | _ => 0

/-- A value that is neither text, list nor object. A whole number may have as many digits as the
limit says. -/
def readPlain (limit : Nat) (t : Text) : Step Value :=
  match wordValues.findSome? fun (word, value) => (afterWord? word t).map (value, ·) with
  | some found => .ok found
  | none =>
    match readNumber t with
    | some (value, rest) =>
      let digits := wholeDigits value t
      if limit < digits then .error ⟨.longNumber digits, t.length⟩ else .ok (value, rest)
    | none => .error ⟨.value, t.length⟩

mutual

/-- The value at the front of a text, in which a whole number may have as many digits as the limit
says, and as many levels of lists and objects may stand inside each other as are left. The fuel
bounds the steps; twice the length is enough. -/
def readValue (limit levels : Nat) : Nat → Text → Step Value
  | 0, t => .error ⟨.value, t.length⟩
  | fuel + 1, t =>
    match t, levels with
    | .char '\x22' :: rest, _ => (readText rest).map fun (text, r) => (.string text, r)
    | .char '[' :: rest, 0 => .error ⟨.deepList, rest.length + 1⟩
    | .char '[' :: rest, levels + 1 =>
      match skipSpace rest with
      | .char ']' :: r => .ok (.array [], r)
      | r => (readItems limit levels fuel r).map fun (items, r) => (.array items, r)
    | .char '{' :: rest, 0 => .error ⟨.deepObject, rest.length + 1⟩
    | .char '{' :: rest, levels + 1 =>
      match skipSpace rest with
      | .char '}' :: r => .ok (.object [], r)
      | r =>
        (readMembers limit levels fuel r).map fun (members, r) =>
          (.object (Entries.ofPairs members), r)
    | t, _ => readPlain limit t

/-- The items of a list from an item on, with the closing bracket. -/
def readItems (limit levels : Nat) : Nat → Text → Step (List Value)
  | 0, t => .error ⟨.value, t.length⟩
  | fuel + 1, t =>
    match readValue limit levels fuel t with
    | .error stop => .error stop
    | .ok (item, r) =>
      match skipSpace r with
      | .char ']' :: r => .ok ([item], r)
      | .char ',' :: r =>
        (readItems limit levels fuel (skipSpace r)).map fun (items, r) => (item :: items, r)
      | r => .error ⟨.comma, r.length⟩

/-- The members of an object from a name on, with the closing brace. -/
def readMembers (limit levels : Nat) : Nat → Text → Step (List (Text × Value))
  | 0, t => .error ⟨.memberName, t.length⟩
  | fuel + 1, t =>
    match t with
    | .char '\x22' :: rest =>
      match readText rest with
      | .error stop => .error stop
      | .ok (name, r) =>
        match skipSpace r with
        | .char ':' :: r =>
          match readValue limit levels fuel (skipSpace r) with
          | .error stop => .error stop
          | .ok (value, r) =>
            match skipSpace r with
            | .char '}' :: r => .ok ([(name, value)], r)
            | .char ',' :: r =>
              (readMembers limit levels fuel (skipSpace r)).map fun (members, r) =>
                ((name, value) :: members, r)
            | r => .error ⟨.comma, r.length⟩
        | r => .error ⟨.colon, r.length⟩
    | t => .error ⟨.memberName, t.length⟩

end

/-- The one value of a whole text, which space may surround, within limits for digits and levels. -/
def readWithin (limit levels : Nat) (t : Text) : Except Stop Value :=
  if t.head? = some '\uFEFF' then .error ⟨.byteOrderMark, t.length⟩
  else
    match readValue limit levels (2 * t.length + 2) (skipSpace t) with
    | .error stop => .error stop
    | .ok (value, rest) =>
      match skipSpace rest with
      | [] => .ok value
      | rest => .error ⟨.extraData, rest.length⟩

/-- The one value of a whole text, which space may surround. -/
def readWhole (t : Text) : Except Stop Value := readWithin digitLimit depthLimit t

/-- The place of a stop in the text it happened in. -/
def Stop.locate (t : Text) (stop : Stop) : ReadError :=
  let offset := t.length - stop.left
  let before := t.take offset
  { problem := stop.problem
    offset := offset
    line := Text.newlines before + 1
    column := (before.reverse.takeWhile fun (p : Point) => p != '\n').length + 1 }

/-- Reads a JSON text. -/
def read (t : Text) : Except ReadError Value :=
  (readWhole t).mapError (·.locate t)

end FieldAudit.Json
