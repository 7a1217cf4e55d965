import FieldAudit.Text.Point

/-!
Texts: lists of code points. The words of this library are strings and count as texts; a text is a
string as long as it holds no half of a surrogate pair. Texts are ordered by their first point that
differs. Main statement: a string is the word of its text.
-/

set_option autoImplicit false

namespace FieldAudit

/-- A text. -/
abbrev Text := List Point

namespace Text

/-- The text of characters. -/
def ofChars (cs : List Char) : Text := cs.map .char

/-- The text of a string. -/
def ofString (s : String) : Text := ofChars s.toList

instance : Coe String Text := ⟨ofString⟩

/-- The characters of a text without halves. -/
def chars? (t : Text) : Option (List Char) := t.mapM Point.char?

/-- The string of a text without halves. -/
def word? (t : Text) : Option String := (chars? t).map String.ofList

/-- The string of a text, with U+FFFD for the halves. -/
def repaired (t : Text) : String := String.ofList (t.map Point.repaired)

/-- Texts with another text between them. -/
def join (separator : Text) (texts : List Text) : Text := separator.intercalate texts

/-- Whether a part occurs in a text. -/
def occursIn (part : Text) : Text → Bool
  | [] => part.isEmpty
  | p :: rest => part.isPrefixOf (p :: rest) || occursIn part rest

/-- The decimal digits of a natural number. -/
def ofNat (n : Nat) : Text := ofChars (Nat.toDigits 10 n)

/-- A whole number in decimal. -/
def ofInt (n : Int) : Text := if n < 0 then '-' :: ofNat n.natAbs else ofNat n.natAbs

/-- Texts in ascending order. -/
def sorted (texts : List Text) : List Text := texts.mergeSort fun a b => decide (a ≤ b)

theorem chars?_ofChars (cs : List Char) : chars? (ofChars cs) = some cs := by
  induction cs with
  | nil => rfl
  | cons c rest ih =>
    simp only [chars?, ofChars] at ih
    simp only [chars?, ofChars, List.map_cons, List.mapM_cons, Point.char?, ih]
    rfl

theorem word?_ofString (s : String) : word? (ofString s) = some s := by
  rw [word?, ofString, chars?_ofChars, Option.map_some, String.ofList_toList]

end Text

end FieldAudit
