import FieldAudit.Text.Basic

/-!
Lines of a text. A line ends at a line feed, at a carriage return, or at the pair of both, which
counts once. `unifyNewlines` writes all three as a line feed, so the lines of a text are its pieces
between line feeds afterwards.

`unifyNewlines` is what `open` does to the text of a file that it reads.
-/

set_option autoImplicit false

namespace FieldAudit.Text

/-- The pieces of a text between the occurrences of `sep`: one more than there are occurrences. -/
def pieces (sep : Point) : Text → List Text
  | [] => [[]]
  | p :: rest =>
    if p = sep then [] :: pieces sep rest
    else
      match pieces sep rest with
      | [] => [[p]]
      | first :: others => (p :: first) :: others

/-- Writes every line break as one line feed. -/
def unifyNewlines : Text → Text
  | [] => []
  | .char '\r' :: .char '\n' :: rest => '\n' :: unifyNewlines rest
  | .char '\r' :: rest => '\n' :: unifyNewlines rest
  | p :: rest => p :: unifyNewlines rest

/-- The lines of a text, whichever line breaks it uses. -/
def lines (t : Text) : List Text := pieces '\n' (unifyNewlines t)

/-- How many line feeds a text holds. -/
def newlines (t : Text) : Nat := t.count (Point.char '\n')

theorem pieces_ne_nil (sep : Point) (t : Text) : pieces sep t ≠ [] := by
  cases t with
  | nil => simp [pieces]
  | cons p rest =>
    simp only [pieces]
    split
    · simp
    · split <;> simp

end FieldAudit.Text
