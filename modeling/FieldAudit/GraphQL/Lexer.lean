import FieldAudit.GraphQL.Token
import FieldAudit.Text.Hex
import FieldAudit.Text.Lines

/-!
From the points of a document to its tokens. `tokenize` gives the tokens up to the end of the text,
or up to the first place where no token can be read, with the fault found there. Spaces, line
breaks, commas, byte-order marks and comments separate tokens and are otherwise ignored. Nothing
that is no character may stand anywhere.

`tokenize` is the lexer of the `parse` that `parse_literal` calls.
-/

set_option autoImplicit false

namespace FieldAudit.GraphQL

/-- Why no token can be read at a place. -/
inductive LexProblem
  /-- The character starts no token. -/
  | unexpectedCharacter (p : Point)
  /-- The point is no character. -/
  | invalidCharacter (p : Point)
  /-- The point within a text is no character. -/
  | invalidInText (p : Point)
  /-- A single quote stands where a text would start. -/
  | singleQuote
  /-- Two points, not three. -/
  | twoPoints
  /-- A number that starts with its point. -/
  | leadingPoint (digits : Text)
  /-- A digit after a leading zero. -/
  | digitAfterZero (p : Point)
  /-- Something else, or the end, where a number needs a digit. -/
  | expectedDigit (found : Option Point)
  /-- The line or the text ends inside a text. -/
  | unterminated
  /-- A backslash before something that it does not escape; both as they stand. -/
  | badEscape (source : Text)
  /-- A Unicode escape that names no character; as it stands. -/
  | badUnicodeEscape (source : Text)
  deriving DecidableEq, Repr

/-- How messages show a point of a document: in single quotes if it is printable ASCII, by its code
otherwise. -/
def pointWords : Option Point → Text
  | none => "<EOF>"
  | some p =>
    if 0x20 ≤ p.code ∧ p.code ≤ 0x7E then ['\'', p, '\'']
    else "U+" ++ Text.hexUpper 4 p.code

/-- The words for a problem. -/
def LexProblem.message : LexProblem → Text
  | .unexpectedCharacter p => "Unexpected character: " ++ pointWords (some p) ++ "."
  | .invalidCharacter p => "Invalid character: " ++ pointWords (some p) ++ "."
  | .invalidInText p => "Invalid character within String: " ++ pointWords (some p) ++ "."
  | .singleQuote =>
    "Unexpected single quote character ('), did you mean to use a double quote (\x22)?"
  | .twoPoints => "Unexpected '..', did you mean '...'?"
  | .leadingPoint digits =>
    "Invalid number, expected digit before '.', did you mean '0." ++ digits ++ "'?"
  | .digitAfterZero p => "Invalid number, unexpected digit after 0: " ++ pointWords (some p) ++ "."
  | .expectedDigit found => "Invalid number, expected digit but got: " ++ pointWords found ++ "."
  | .unterminated => "Unterminated string."
  | .badEscape source => "Invalid character escape sequence: '" ++ source ++ "'."
  | .badUnicodeEscape source => "Invalid Unicode escape sequence: '" ++ source ++ "'."

/-- A problem and its offset. -/
structure LexFault where
  problem : LexProblem
  offset : Nat
  deriving DecidableEq, Repr

/-! ## 1. Character classes -/

/-- A decimal digit. -/
def isDigit (p : Point) : Bool := '0' ≤ p && p ≤ '9'

/-- A character that may start a name. -/
def isNameStart (p : Point) : Bool :=
  p == '_' || ('A' ≤ p && p ≤ 'Z') || ('a' ≤ p && p ≤ 'z')

/-- A character that may continue a name. -/
def isNameContinue (p : Point) : Bool := isNameStart p || isDigit p

/-- A character that ends a line. -/
def isLineEnd (p : Point) : Bool := p == '\n' || p == '\r'

/-- A character between tokens that has no meaning. -/
def isIgnored (p : Point) : Bool :=
  p == ' ' || p == '\t' || p == ',' || p == '\uFEFF' || isLineEnd p

/-- The kinds of the tokens that are one character. -/
def punctuator? : Point → Option TokenKind
  | .char '!' => some .bang
  | .char '$' => some .dollar
  | .char '&' => some .ampersand
  | .char '(' => some .parenOpen
  | .char ')' => some .parenClose
  | .char ':' => some .colon
  | .char '=' => some .equals
  | .char '@' => some .atSign
  | .char '[' => some .bracketOpen
  | .char ']' => some .bracketClose
  | .char '\x7b' => some .braceOpen
  | .char '|' => some .pipe
  | .char '\x7d' => some .braceClose
  | _ => none

/-! ## 2. Numbers -/

/-- How many digits stand at the front; there has to be one. -/
def requireDigits (offset : Nat) (t : Text) : Except LexFault Nat :=
  let count := (t.takeWhile isDigit).length
  if count = 0 then .error ⟨.expectedDigit t.head?, offset⟩ else .ok count

/-- The length of the whole part of a number: a zero that no digit follows, or digits. -/
def wholeLength (offset : Nat) : Text → Except LexFault Nat
  | .char '0' :: p :: _ => if isDigit p then .error ⟨.digitAfterZero p, offset + 1⟩ else .ok 1
  | [.char '0'] => .ok 1
  | t => requireDigits offset t

/-- The length of the fraction of a number, with its point. -/
def fractionLength (offset : Nat) : Text → Except LexFault Nat
  | .char '.' :: rest => (requireDigits (offset + 1) rest).map (· + 1)
  | _ => .ok 0

/-- The length of the power of ten of a number, with its letter and sign. -/
def powerLength (offset : Nat) : Text → Except LexFault Nat
  | p :: rest =>
    if p = 'e' ∨ p = 'E' then
      match rest with
      | .char '+' :: rest => (requireDigits (offset + 2) rest).map (· + 2)
      | .char '-' :: rest => (requireDigits (offset + 2) rest).map (· + 2)
      | rest => (requireDigits (offset + 1) rest).map (· + 1)
    else .ok 0
  | [] => .ok 0

/-- The kind and the length of the number at the front. Neither a point nor a name may follow it. -/
def scanNumber (offset : Nat) (t : Text) : Except LexFault (TokenKind × Nat) := do
  let sign := if t.head? = some '-' then 1 else 0
  let whole ← wholeLength (offset + sign) (t.drop sign)
  let fraction ← fractionLength (offset + sign + whole) (t.drop (sign + whole))
  let power ← powerLength (offset + sign + whole + fraction) (t.drop (sign + whole + fraction))
  let length := sign + whole + fraction + power
  match (t.drop length).head? with
  | some p =>
    if p = '.' ∨ isNameStart p then throw ⟨.expectedDigit (some p), offset + length⟩
  | none => pure ()
  return (if fraction + power = 0 then .int else .float, length)

/-! ## 3. Texts -/

/-- The character that a backslash and a letter stand for. -/
def simpleEscape? : Point → Option Char
  | .char '\x22' => some '\x22'
  | .char '\\' => some '\\'
  | .char '/' => some '/'
  | .char 'b' => some '\x08'
  | .char 'f' => some '\x0c'
  | .char 'n' => some '\n'
  | .char 'r' => some '\r'
  | .char 't' => some '\t'
  | _ => none

/-- Reads the digits and the closing brace of a Unicode escape of variable length, at most as many
characters as `steps`. Gives the character and the length of the whole escape, of which `length`
characters are read, or the length up to where it failed. -/
def bracedEscape : Nat → Nat → Nat → Text → Except Nat (Char × Nat)
  | steps + 1, code, length, p :: rest =>
    if p = '\x7d' then
      if 4 ≤ length ∧ Text.isScalar code then .ok (Char.ofNat code, length + 1)
      else .error (length + 1)
    else
      match Text.hexValue? p with
      | some digit => bracedEscape steps (code * 16 + digit) (length + 1) rest
      | none => .error (length + 1)
  | _, _, length, _ => .error length

/-- Reads a Unicode escape of four digits, given the text after the `u`; two of them may form a
surrogate pair. Gives the character and the length of the escape with its backslash. -/
def quadEscape? (t : Text) : Option (Char × Nat) := do
  let high ← Text.hexQuad? t
  if Text.isScalar high then return (Char.ofNat high, 6)
  match t.drop 4 with
  | .char '\\' :: .char 'u' :: second =>
    let low ← Text.hexQuad? second
    if Text.isHighSurrogate high && Text.isLowSurrogate low then
      return (Text.pairChar high low, 12)
    else none
  | _ => none

/-- Reads the escape at the front of a text, given what follows the backslash. -/
def scanEscape (offset : Nat) (after : Text) : Except LexFault (Char × Nat) :=
  let source (length : Nat) : Text := List.take length ('\\' :: after)
  match after with
  | .char 'u' :: .char '\x7b' :: rest =>
    (bracedEscape 9 0 3 rest).mapError fun length => ⟨.badUnicodeEscape (source length), offset⟩
  | .char 'u' :: rest =>
    match quadEscape? rest with
    | some found => .ok found
    | none => .error ⟨.badUnicodeEscape (source 6), offset⟩
  | p :: _ =>
    match simpleEscape? p with
    | some e => .ok (e, 2)
    | none => .error ⟨.badEscape (source 2), offset⟩
  | [] => .error ⟨.badEscape (source 1), offset⟩

/-- The value of a text on one line, given what follows its opening quote, and the offset after its
closing one. -/
def scanText (offset : Nat) : Text → Except LexFault (Text × Nat)
  | [] => .error ⟨.unterminated, offset⟩
  | p :: rest =>
    if p = '\x22' then .ok ([], offset + 1)
    else if isLineEnd p then .error ⟨.unterminated, offset⟩
    else if p.isHalf then .error ⟨.invalidInText p, offset⟩
    else if p = '\\' then
      match scanEscape offset rest with
      | .error fault => .error fault
      | .ok (e, length) =>
        (scanText (offset + length) (rest.drop (length - 1))).map fun (value, stop) =>
          (.char e :: value, stop)
    else (scanText (offset + 1) rest).map fun (value, stop) => (p :: value, stop)
  termination_by t => t.length
  decreasing_by all_goals simp only [List.length_drop, List.length_cons]; omega

/-- The characters of a block text, given what follows its three opening quotes, and the offset
after its three closing ones. A backslash before three quotes keeps them from closing it. -/
def scanBlock (offset : Nat) : Text → Except LexFault (Text × Nat)
  | [] => .error ⟨.unterminated, offset⟩
  | .char '\x22' :: .char '\x22' :: .char '\x22' :: _ => .ok ([], offset + 3)
  | .char '\\' :: .char '\x22' :: .char '\x22' :: .char '\x22' :: rest =>
    (scanBlock (offset + 4) rest).map fun (raw, stop) =>
      (.char '\x22' :: .char '\x22' :: .char '\x22' :: raw, stop)
  | p :: rest =>
    if p.isHalf then .error ⟨.invalidInText p, offset⟩
    else (scanBlock (offset + 1) rest).map fun (raw, stop) => (p :: raw, stop)

/-- A space or a tab. -/
def isIndent (p : Point) : Bool := p == ' ' || p == '\t'

/-- How far a line is indented. -/
def indentOf (line : Text) : Nat := (line.takeWhile isIndent).length

/-- Whether a line holds nothing but its indentation. -/
def isBlankLine (line : Text) : Bool := line.all isIndent

/-- The lines of a block text without the indentation that all but the first one share, and without
blank lines at the two ends. Blank lines do not count for the shared indentation. -/
def dedent (lines : List Text) : List Text :=
  let indents := ((lines.drop 1).filter fun line => !isBlankLine line).map indentOf
  let aligned := match indents with
    | [] => lines.take 1 ++ (lines.drop 1).map fun _ => []
    | first :: others =>
      let indent := others.foldl min first
      lines.take 1 ++ (lines.drop 1).map fun (line : Text) => line.drop indent
  ((aligned.dropWhile isBlankLine).reverse.dropWhile isBlankLine).reverse

/-- The value of a block text. -/
def blockValue (raw : Text) : Text :=
  Text.join "\n" (dedent (Text.lines raw))

/-! ## 4. Tokens -/

/-- A token that starts with `p`: its kind, its value, and how many of the points after `p` belong
to it. -/
def scanToken (offset : Nat) (p : Point) (rest : Text) :
    Except LexFault (TokenKind × Text × Nat) :=
  match punctuator? p with
  | some kind => .ok (kind, [], 0)
  | none =>
    if isNameStart p then
      let more := rest.takeWhile isNameContinue
      .ok (.name, p :: more, more.length)
    else if isDigit p || p == '-' then
      (scanNumber offset (p :: rest)).map fun (kind, length) =>
        (kind, (p :: rest).take length, length - 1)
    else if p = '\x22' then
      match rest with
      | .char '\x22' :: .char '\x22' :: raw =>
        (scanBlock (offset + 3) raw).map fun (raw, stop) =>
          (.blockText, blockValue raw, stop - offset - 1)
      | rest =>
        (scanText (offset + 1) rest).map fun (value, stop) => (.text, value, stop - offset - 1)
    else if p = '.' then
      match rest with
      | .char '.' :: .char '.' :: _ => .ok (.spread, [], 2)
      | .char '.' :: _ => .error ⟨.twoPoints, offset⟩
      | rest =>
        let digits := rest.takeWhile isDigit
        if digits.isEmpty then .error ⟨.unexpectedCharacter p, offset⟩
        else .error ⟨.leadingPoint digits, offset⟩
    else if p = '\'' then .error ⟨.singleQuote, offset⟩
    else if p.isHalf then .error ⟨.invalidCharacter p, offset⟩
    else .error ⟨.unexpectedCharacter p, offset⟩

/-- The tokens of a text, the end of the text being the last one, or those before the first
fault. -/
structure Lexed where
  tokens : List Token
  fault : Option LexFault
  deriving DecidableEq, Repr

/-- The tokens of a text that starts at an offset. -/
def tokenizeFrom (offset : Nat) : Text → Lexed
  | [] => ⟨[⟨.endOfText, [], offset⟩], none⟩
  | p :: rest =>
    if isIgnored p then tokenizeFrom (offset + 1) rest
    else if p = '#' then
      let comment := (rest.takeWhile fun p => !isLineEnd p && !p.isHalf).length
      tokenizeFrom (offset + 1 + comment) (rest.drop comment)
    else
      match scanToken offset p rest with
      | .error fault => ⟨[], some fault⟩
      | .ok (kind, value, more) =>
        let others := tokenizeFrom (offset + 1 + more) (rest.drop more)
        ⟨⟨kind, value, offset⟩ :: others.tokens, others.fault⟩
  termination_by t => t.length
  decreasing_by all_goals simp only [List.length_drop, List.length_cons]; omega

/-- The tokens of a document. -/
def tokenize (t : Text) : Lexed := tokenizeFrom 0 t

end FieldAudit.GraphQL
