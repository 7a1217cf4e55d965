import FieldAudit.Text.Basic

/-!
Blank characters and trimming. `isBlank` is the whitespace of Unicode text: the characters whose
bidirectional class is a separator or that are space separators. Main statement: every character
that core's `Char.isWhitespace` accepts is blank.

`trim` is the stripping in `pluck_graphql_strings`.
-/

set_option autoImplicit false

namespace FieldAudit.Text

/-- A character that trimming removes: the control characters that separate lines, fields and
records, the space, and the Unicode space, line and paragraph separators. The zero-width space, the
byte-order mark and U+180E are not blank. -/
def isBlank (p : Point) : Bool :=
  let n := p.code
  (0x09 ≤ n && n ≤ 0x0D) || (0x1C ≤ n && n ≤ 0x20) || n == 0x85 || n == 0xA0 || n == 0x1680 ||
    (0x2000 ≤ n && n ≤ 0x200A) || n == 0x2028 || n == 0x2029 || n == 0x202F || n == 0x205F ||
    n == 0x3000

/-- The text without the blanks at its start. -/
def trimStart (t : Text) : Text := t.dropWhile isBlank

/-- The text without the blanks at its end. -/
def trimEnd (t : Text) : Text := (t.reverse.dropWhile isBlank).reverse

/-- The text without the blanks at its two ends. -/
def trim (t : Text) : Text := trimEnd (trimStart t)

theorem isBlank_of_isWhitespace {c : Char} (h : c.isWhitespace = true) : isBlank c = true := by
  simp only [Char.isWhitespace, Bool.or_eq_true, decide_eq_true_eq] at h
  rcases h with ((rfl | rfl) | rfl) | rfl <;> decide

end FieldAudit.Text
