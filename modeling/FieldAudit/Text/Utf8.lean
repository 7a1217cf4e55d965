import FieldAudit.Text.Hex

/-!
UTF-8 with a verdict on every malformed sequence. A malformed sequence is the longest start of a
well-formed one that the next byte breaks off, or a single byte that starts none; it is either an
error (`decode`) or reads as one U+FFFD (`decodeLossy`). Every character has a form (`encode`), and
no half of a surrogate pair has one.

`decode` is how `open` reads the settings file, `decodeLossy` how it reads a source file, and
`encode` is how it writes the report.
-/

set_option autoImplicit false

namespace FieldAudit.Text.Utf8

/-- Why a byte sequence is not UTF-8. -/
inductive Fault
  /-- The byte starts no character. -/
  | invalidStart
  /-- A byte that should continue a character does not. -/
  | invalidContinuation
  /-- The bytes end inside a character. -/
  | truncated
  deriving DecidableEq, Repr

/-- A malformed sequence: where it starts, how many bytes it spans, its first byte and its fault. -/
structure Malformed where
  position : Nat
  length : Nat
  lead : UInt8
  fault : Fault
  deriving DecidableEq, Repr

/-- Halves that follow each other and have no bytes: the place and the code of the first, and how
many there are. -/
structure Unencodable where
  position : Nat
  length : Nat
  code : Nat
  deriving DecidableEq, Repr

/-- What stands at the front of a byte sequence: a character or a malformed sequence, with the
count of bytes after the first one that belong to it. -/
inductive Front
  | scalar (c : Char) (more : Nat)
  | malformed (fault : Fault) (more : Nat)
  deriving Repr

/-- A continuation byte is 10xxxxxx. -/
def isContinuation (b : UInt8) : Bool := 0x80 ≤ b && b < 0xC0

/-- The six payload bits of a continuation byte. -/
def payload (b : UInt8) : Nat := b.toNat % 64

/-- Whether `second` may follow `lead`: it continues, and the pair encodes no surrogate, no value
above U+10FFFF and nothing that fewer bytes could write. -/
def secondFits (lead second : UInt8) : Bool :=
  isContinuation second &&
    !(lead == 0xE0 && second < 0xA0) && !(lead == 0xED && 0xA0 ≤ second) &&
    !(lead == 0xF0 && second < 0x90) && !(lead == 0xF4 && 0x90 ≤ second)

/-- The character or malformed sequence that starts with `lead`. -/
def front (lead : UInt8) (rest : List UInt8) : Front :=
  if lead < 0x80 then .scalar (Char.ofNat lead.toNat) 0
  else if lead < 0xC2 then .malformed .invalidStart 0
  else if lead < 0xE0 then
    match rest with
    | [] => .malformed .truncated 0
    | b :: _ =>
      if isContinuation b then .scalar (Char.ofNat ((lead.toNat - 0xC0) * 64 + payload b)) 1
      else .malformed .invalidContinuation 0
  else if lead < 0xF0 then
    match rest with
    | [] => .malformed .truncated 0
    | b :: rest =>
      if !secondFits lead b then .malformed .invalidContinuation 0
      else
        match rest with
        | [] => .malformed .truncated 1
        | c :: _ =>
          if isContinuation c then
            .scalar (Char.ofNat (((lead.toNat - 0xE0) * 64 + payload b) * 64 + payload c)) 2
          else .malformed .invalidContinuation 1
  else if lead < 0xF5 then
    match rest with
    | [] => .malformed .truncated 0
    | b :: rest =>
      if !secondFits lead b then .malformed .invalidContinuation 0
      else
        match rest with
        | [] => .malformed .truncated 1
        | c :: rest =>
          if !isContinuation c then .malformed .invalidContinuation 1
          else
            match rest with
            | [] => .malformed .truncated 2
            | d :: _ =>
              if isContinuation d then
                .scalar (Char.ofNat
                  ((((lead.toNat - 0xF0) * 64 + payload b) * 64 + payload c) * 64 + payload d)) 3
              else .malformed .invalidContinuation 2
  else .malformed .invalidStart 0

/-- The text of the bytes, each malformed sequence as one U+FFFD. -/
def decodeLossy : List UInt8 → Text
  | [] => []
  | lead :: rest =>
    match front lead rest with
    | .scalar c more => c :: decodeLossy (rest.drop more)
    | .malformed _ more => '\uFFFD' :: decodeLossy (rest.drop more)
  termination_by bytes => bytes.length
  decreasing_by all_goals simp only [List.length_drop, List.length_cons]; omega

/-- The text of the bytes that start at offset `position`, or the first malformed sequence. -/
def decodeFrom (position : Nat) : List UInt8 → Except Malformed Text
  | [] => .ok []
  | lead :: rest =>
    match front lead rest with
    | .scalar c more => (decodeFrom (position + more + 1) (rest.drop more)).map (.char c :: ·)
    | .malformed fault more => .error ⟨position, more + 1, lead, fault⟩
  termination_by bytes => bytes.length
  decreasing_by all_goals simp only [List.length_drop, List.length_cons]; omega

/-- The text of the bytes, or the first malformed sequence. -/
def decode (bytes : List UInt8) : Except Malformed Text := decodeFrom 0 bytes

/-- The bytes of a point; a half has none. -/
def bytesOf? : Point → Option (List UInt8)
  | .char c => some (String.utf8EncodeChar c)
  | .half _ => none

/-- The bytes of a text whose first point stands at a position, given the bytes of points, or the
halves from the first one without bytes on that follow each other. -/
def encodeFrom (bytes? : Point → Option (List UInt8)) (position : Nat) :
    Text → Except Unencodable (List UInt8)
  | [] => .ok []
  | p :: rest =>
    match bytes? p with
    | some bytes => (encodeFrom bytes? (position + 1) rest).map (bytes ++ ·)
    | none => .error ⟨position, (rest.takeWhile Point.isHalf).length + 1, p.code⟩

/-- The bytes of a text, or its first halves. -/
def encode (t : Text) : Except Unencodable (List UInt8) := encodeFrom bytesOf? 0 t

/-- The words for a fault. -/
def Fault.message : Fault → String
  | .invalidStart => "invalid start byte"
  | .invalidContinuation => "invalid continuation byte"
  | .truncated => "unexpected end of data"

/-- What is reported of a malformed sequence: its byte if it has one, its span otherwise. -/
def Malformed.message (m : Malformed) : Text :=
  if m.length = 1 then
    "'utf-8' codec can't decode byte 0x" ++ hex 2 m.lead.toNat ++ " in position " ++
      ofNat m.position ++ ": " ++ m.fault.message
  else
    "'utf-8' codec can't decode bytes in position " ++ ofNat m.position ++ "-" ++
      ofNat (m.position + m.length - 1) ++ ": " ++ m.fault.message

/-- What is reported of halves without bytes: the half if there is one, the span otherwise. -/
def Unencodable.message (u : Unencodable) : Text :=
  if u.length = 1 then
    "'utf-8' codec can't encode character '\\u" ++ hex 4 u.code ++ "' in position " ++
      ofNat u.position ++ ": surrogates not allowed"
  else
    "'utf-8' codec can't encode characters in position " ++ ofNat u.position ++ "-" ++
      ofNat (u.position + u.length - 1) ++ ": surrogates not allowed"

end FieldAudit.Text.Utf8
