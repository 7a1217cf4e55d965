import FieldAudit.Text.Basic

/-!
Wildcards for one name. A star stands for any run of points, a question mark for one, and a class in
brackets for one of its points, or for any other one after an exclamation mark. A bracket that
nothing closes stands for itself.

`isWild` and `matchesName` are the tests by which `glob.glob` tells a wildcard from a name, and a
name that the wildcard finds from others.
-/

set_option autoImplicit false

namespace FieldAudit.Glob

/-- A part of a wildcard. -/
inductive Part
  /-- The point itself. -/
  | literal (p : Point)
  /-- Any one point. -/
  | anyOne
  /-- Any run of points. -/
  | anyRun
  /-- A point of one of the ranges, ends included, or of none of them. -/
  | oneOf (negated : Bool) (ranges : List (Point × Point))
  deriving DecidableEq, Repr

/-! ## 1. Classes -/

/-- The inside of a class and the text after it, given the text after its opening bracket. A closing
bracket that comes first, or right after the exclamation mark, belongs to the class. -/
def classInside? (t : Text) : Option (Text × Text) :=
  let lead := match t with
    | .char '!' :: .char ']' :: _ => 2
    | .char '!' :: _ => 1
    | .char ']' :: _ => 1
    | _ => 0
  let inside := (t.drop lead).takeWhile fun (p : Point) => p != ']'
  let length := lead + inside.length
  if length < t.length then some (t.take length, t.drop (length + 1)) else none

/-- Cuts the inside of a class at the hyphens that make ranges: the first `skip` points hold none,
and after a range none is looked for in the next two. -/
def cutRanges : Nat → Text → Text → List Text
  | _, chunk, [] => [chunk.reverse]
  | 0, chunk, p :: rest =>
    if p = '-' then chunk.reverse :: cutRanges 2 [] rest else cutRanges 0 (p :: chunk) rest
  | skip + 1, chunk, p :: rest => cutRanges skip (p :: chunk) rest

/-- A hyphen at the end makes no range and belongs to the text before it. -/
def restoreHyphen : List Text → List Text
  | [] => []
  | [chunk] => [chunk]
  | [chunk, []] => [chunk ++ "-"]
  | chunk :: rest => chunk :: restoreHyphen rest

/-- Drops the ranges that end before they start, from the last one to the first. -/
def dropEmptyRanges : List Text → List Text
  | [] => []
  | chunk :: rest =>
    match dropEmptyRanges rest with
    | [] => [chunk]
    | next :: others =>
      match chunk.getLast?, next.head? with
      | some low, some high =>
        if high < low then (chunk.dropLast ++ next.tail) :: others else chunk :: next :: others
      | _, _ => chunk :: next :: others

/-- The ranges of a class: one from the end of a chunk to the start of the next, and one for every
other point. -/
def rangesOf : List Text → List (Point × Point)
  | [] => []
  | [chunk] => chunk.map fun p => (p, p)
  | chunk :: next :: rest =>
    match chunk.getLast?, next.head? with
    | some low, some high =>
      (chunk.dropLast.map fun p => (p, p)) ++ (low, high) :: rangesOf (next.tail :: rest)
    | _, _ => (chunk.map fun p => (p, p)) ++ rangesOf (next :: rest)
  termination_by chunks => chunks.length

/-- The class with a given inside. One from which only the exclamation mark is left stands for any
point. -/
def classOf (inside : Text) : Part :=
  let skip := if inside.head? = some (.char '!') then 2 else 1
  let chunks := dropEmptyRanges (restoreHyphen (cutRanges skip [] inside))
  match chunks with
  | [[.char '!']] => .anyOne
  | (.char '!' :: chunk) :: rest => .oneOf true (rangesOf (chunk :: rest))
  | chunks => .oneOf false (rangesOf chunks)

/-! ## 2. Wildcards -/

/-- The parts of a wildcard; the fuel bounds their number. -/
def partsWith : Nat → Text → List Part
  | 0, _ => []
  | _ + 1, [] => []
  | fuel + 1, p :: rest =>
    if p = '*' then .anyRun :: partsWith fuel rest
    else if p = '?' then .anyOne :: partsWith fuel rest
    else if p = '[' then
      match classInside? rest with
      | some (inside, rest) => classOf inside :: partsWith fuel rest
      | none => .literal p :: partsWith fuel rest
    else .literal p :: partsWith fuel rest

/-- The parts of a wildcard. -/
def partsOf (pattern : Text) : List Part := partsWith pattern.length pattern

/-- Whether a point fits a part that stands for one. -/
def Part.accepts (p : Point) : Part → Bool
  | .literal q => p == q
  | .anyOne => true
  | .anyRun => false
  | .oneOf negated ranges => ranges.any (fun r => r.1 ≤ p && p ≤ r.2) != negated

/-- Whether a text fits the parts, from start to end. -/
def fits : List Part → Text → Bool
  | [], t => t.isEmpty
  | .anyRun :: parts, [] => fits parts []
  | .anyRun :: parts, p :: t => fits parts (p :: t) || fits (.anyRun :: parts) t
  | part :: parts, p :: t => part.accepts p && fits parts t
  | _ :: _, [] => false
  termination_by parts t => parts.length + t.length

/-- Whether a name fits a wildcard. -/
def matchesName (pattern name : Text) : Bool := fits (partsOf pattern) name

/-- Whether a text holds a character that makes it a wildcard. -/
def isWild (text : Text) : Bool := text.any fun p => p == '*' || p == '?' || p == '['

end FieldAudit.Glob
