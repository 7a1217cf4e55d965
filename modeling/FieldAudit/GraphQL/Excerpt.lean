import FieldAudit.Text.Lines

/-!
Places in a document. An excerpt shows a place by its line and column, followed by the line with a
mark under the column. The lines before and after it stand around a short line; a long line is cut
into rows.

`excerpt` is the part of the message of a `LiteralParseError` that shows the place of the fault.
-/

set_option autoImplicit false

namespace FieldAudit.GraphQL

/-- A place: line and column, both counted from one. -/
structure Place where
  line : Nat
  column : Nat
  deriving DecidableEq, Repr

/-- The place of an offset: the lines of the text before it, and what stands on the last of them. -/
def Place.ofOffset (t : Text) (offset : Nat) : Place :=
  let before := Text.lines (t.take offset)
  { line := before.length
    column := (before.getLastD []).length + 1 }

/-- A text moved to the right end of a field of a width. -/
def alignRight (width : Nat) (t : Text) : Text :=
  List.replicate (width - t.length) (Point.char ' ') ++ t

/-- A row of an excerpt: what stands left of the bar, and the text if there is any. -/
abbrev Row := Text × Text

/-- Rows under each other, their left parts aligned; an empty text takes its separating space
along. -/
def layRows (rows : List Row) : Text :=
  let width := (rows.map fun row => row.1.length).foldl max 0
  Text.join "\n" (rows.map fun row =>
    alignRight width row.1 ++ (if row.2.isEmpty then [] else ' ' :: row.2))

/-- The left part of a row: a line number, if the row starts a line, and the bar. -/
def rowLabel : Option Nat → Text
  | none => "|"
  | some line => .ofNat line ++ " |"

/-- The longest line that is shown whole. -/
def longestLine : Nat := 120

/-- The length of the rows into which a longer line is cut. -/
def rowLength : Nat := 80

/-- A line cut into rows. -/
def cutRows (line : Text) : List Text :=
  (List.range ((line.length + rowLength - 1) / rowLength)).map fun i =>
    (line.drop (i * rowLength)).take rowLength

/-- The rows for a place in a line that is shown whole, with the lines around it. -/
def wholeRows (lines : List Text) (place : Place) (line : Text) : List Row :=
  let before := if place.line < 2 then [] else
    ((lines[place.line - 2]?).map fun l => (rowLabel (some (place.line - 1)), l)).toList
  let after := ((lines[place.line]?).map fun l => (rowLabel (some (place.line + 1)), l)).toList
  before ++ [(rowLabel (some place.line), line),
    (rowLabel none, alignRight place.column "^")] ++ after

/-- The rows for a place in a line that is cut: those up to the place, the mark, and the next
one. -/
def cutLineRows (place : Place) (line : Text) : List Row :=
  let rows := cutRows line
  let index := min ((place.column - 1) / rowLength) (rows.length - 1)
  let mark := alignRight (place.column - rowLength * index) "^"
  let next := ((rows[index + 1]?).map fun r => (rowLabel none, r)).toList
  (rowLabel (some place.line), rows.headD []) ::
    (((rows.take (index + 1)).drop 1).map fun r => (rowLabel none, r)) ++
    [(rowLabel none, mark)] ++ next

/-- The excerpt of a text at an offset. -/
def excerpt (t : Text) (offset : Nat) : Text :=
  let place := Place.ofOffset t offset
  let lines := Text.lines t
  let line := lines[place.line - 1]?.getD []
  let rows :=
    if line.length ≤ longestLine then wholeRows lines place line else cutLineRows place line
  "GraphQL request:" ++ Text.ofNat place.line ++ ":" ++ Text.ofNat place.column ++ "\n" ++
    layRows rows

end FieldAudit.GraphQL
