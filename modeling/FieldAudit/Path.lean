import FieldAudit.Text.Lines
import FieldAudit.Text.Utf8

/-!
Path texts. A path is a text in which slashes separate names; it is absolute when it starts with
one. `join` appends a path to another and `absolute` gives the one normal form of a path: from the
root, without empty names, points and double points, and without a slash at the end. `bytes` gives
the form in which the file system sees a path.

`join`, `absolute` and `directory` are `os.path.join`, `os.path.abspath` and `os.path.dirname`.
-/

set_option autoImplicit false

namespace FieldAudit.Path

/-- Whether a path starts at the root. -/
def isAbsolute (path : Text) : Bool := path.head? == some '/'

/-- A path seen from another one; an absolute path stands for itself. -/
def join (base path : Text) : Text :=
  if isAbsolute path then path
  else if base.isEmpty || base.getLast? == some '/' then base ++ path
  else base ++ "/" ++ path

/-- The texts between the slashes of a path. -/
def parts (path : Text) : List Text := Text.pieces '/' path

/-- Takes one name more: an empty one and a point change nothing, a double point takes the last name
away. -/
def step (names : List Text) (part : Text) : List Text :=
  if part = "" ∨ part = "." then names
  else if part = ".." then names.dropLast
  else names ++ [part]

/-- The names of an absolute path, empty ones and points aside. -/
def names (path : Text) : List Text := (parts path).foldl step []

/-- The slashes that an absolute path starts with: two stay two, more count as one. -/
def rootOf (path : Text) : Text :=
  if (path.takeWhile fun (p : Point) => p == '/').length = 2 then "//" else "/"

/-- The path of names below a root. -/
def ofNames (root : Text) (names : List Text) : Text := root ++ Text.join "/" names

/-- The normal form of a path seen from a directory. -/
def absolute (directory path : Text) : Text :=
  let full := join directory path
  ofNames (rootOf full) (names full)

/-- The text without the slashes at its end, unless it holds nothing else. -/
def trimSlashes (t : Text) : Text :=
  let kept := (t.reverse.dropWhile fun (p : Point) => p == '/').reverse
  if kept.isEmpty then t else kept

/-- The directory of a path, and the text after its last slash. -/
def split (path : Text) : Text × Text :=
  let last := (path.reverse.takeWhile fun (p : Point) => p != '/').reverse
  (trimSlashes (path.take (path.length - last.length)), last)

/-- The directory of a path. -/
def directory (path : Text) : Text := (split path).1

/-- The paths of the directories on the way to a path in normal form, and the path itself. -/
def ancestors (path : Text) : List Text :=
  let root := rootOf path
  let all := names path
  (List.range all.length).map fun i => ofNames root (all.take (i + 1))

/-! ## 1. Bytes -/

/-- The bytes of a point of a path. The halves from U+DC80 to U+DCFF stand for the bytes that UTF-8
leaves over. -/
def bytesOf? : Point → Option (List UInt8)
  | .char c => some (String.utf8EncodeChar c)
  | .half n => if 0x480 ≤ n.val ∧ n.val < 0x500 then some [UInt8.ofNat (n.val - 0x400)] else none

/-- The bytes of a path, or its first halves that stand for no byte. -/
def bytes (path : Text) : Except Text.Utf8.Unencodable (List UInt8) :=
  Text.Utf8.encodeFrom bytesOf? 0 path

/-- How many bytes a text of a path takes. -/
def size (t : Text) : Nat :=
  match bytes t with
  | .ok bytes => bytes.length
  | .error _ => 0

/-- The most bytes that a name may take. -/
def longestName : Nat := 255

/-- The most bytes that a path may take. -/
def longestPath : Nat := 4095

end FieldAudit.Path
