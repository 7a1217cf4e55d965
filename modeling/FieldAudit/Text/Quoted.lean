import FieldAudit.Text.Hex
import FieldAudit.Text.Printable

/-!
The quoted form of a text, used wherever a message shows a text as data: single quotes, or double
quotes for a text that holds single quotes only, with a backslash escape for the quote, the
backslash, the three common controls and everything unprintable.

`quoted` is how the message of an `OSError` shows a path, and how those of `build_client_schema`
show a name.
-/

set_option autoImplicit false

namespace FieldAudit.Text

/-- The quotation mark for a text: a double quote if that saves every escape of a single one. -/
def quoteMark (t : Text) : Point :=
  if t.contains '\'' && !t.contains '\x22' then '\x22' else '\''

/-- One point inside the quotes. -/
def quotedPoint (mark p : Point) : Text :=
  if p = mark ∨ p = '\\' then ['\\', p]
  else if p = '\n' then ['\\', 'n']
  else if p = '\r' then ['\\', 'r']
  else if p = '\t' then ['\\', 't']
  else if isPrintable p then [p]
  else if p.code < 0x100 then '\\' :: 'x' :: hex 2 p.code
  else if p.code < 0x10000 then '\\' :: 'u' :: hex 4 p.code
  else '\\' :: 'U' :: hex 8 p.code

/-- The quoted form of a text. -/
def quoted (t : Text) : Text :=
  let mark := quoteMark t
  mark :: (t.flatMap (quotedPoint mark) ++ [mark])

end FieldAudit.Text
