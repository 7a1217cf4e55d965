import FieldAudit.FileTree
import FieldAudit.Glob.Braces
import FieldAudit.Glob.Wildcard

/-!
Search for files by patterns. A pattern is a path whose parts may be wildcards; a part `**` stands
for any number of directories. Names that start with a point are found only by a part that does.
`findFiles` lists the files that a list of patterns finds below a root: patterns in order, the files
of a pattern sorted, every file once. The search fails only at a path that no file system takes.

`findFiles` is `find_files`, `rooted` is `glob_patterns`, and `search` is the `glob.glob` that they
rest on. As in `expandBraces`, the limit of the interpreter on calls inside each other is left out:
it would stop the search in a tree with some hundreds of directories inside each other.
-/

set_option autoImplicit false

namespace FieldAudit.Glob

/-- The part that stands for any number of directories. -/
def anyDepth : Text := "**"

/-- Whether a name or a wildcard starts with a point. -/
def isHidden (name : Text) : Bool := name.head? == some '.'

/-- Whether a wildcard finds a name. -/
def finds (pattern name : Text) : Bool :=
  (isHidden pattern || !isHidden name) && matchesName pattern name

/-- The location of a directory at a path; the empty path is the working directory. -/
def directoryAt? (w : Workspace) (path : Text) : Option Location :=
  match w.locate (if path = "" then "." else path) with
  | .ok location =>
    match w.tree.node? location with
    | some .directory => some location
    | _ => none
  | .error _ => none

/-- The paths that one part of a pattern finds from a path. A part that is no wildcard has to be
there; an empty part asks for a directory. A wildcard that is not `final` finds directories only. -/
def findPart (w : Workspace) (final : Bool) (part path : Text) : List Text :=
  if part = "" then
    if w.isDirectory path then [Path.join path ""] else []
  else if !isWild part then
    if w.holds (Path.join path part) then [Path.join path part] else []
  else if part = anyDepth then
    Path.join path "" ::
      match directoryAt? w path with
      | none => []
      | some location =>
        (w.tree.below location).filterMap fun (names, node) =>
          if names.any isHidden || (!final && node != .directory) then none
          else some (Path.join path (.join "/" names))
  else
    match directoryAt? w path with
    | none => []
    | some location =>
      (w.tree.childNames location).filterMap fun name =>
        if finds part name && (final || w.tree.node? (location ++ [name]) == some .directory) then
          some (Path.join path name)
        else none

/-- The paths that the parts of a pattern find from a path. -/
def findParts (w : Workspace) : List Text → Text → List Text
  | [], path => [path]
  | part :: parts, path =>
    (findPart w parts.isEmpty part path).flatMap (findParts w parts)

/-- A pattern as the path before its first wildcard and the parts from there on. Empty parts between
slashes are left out; an empty part at the end stays. -/
def divide (pattern : Text) : Text × List Text :=
  let parts := Path.parts pattern
  let fixed := parts.takeWhile fun part => !isWild part
  let rest := parts.dropWhile fun part => !isWild part
  let ending := if rest.getLast? = some [] then [[]] else []
  let start := Path.trimSlashes (.join "/" (fixed ++ [[]]))
  (if fixed.isEmpty then [] else start, rest.filter (!·.isEmpty) ++ ending)

/-- Why the search cannot start from a path: no file system takes it. A path that is too long is as
good as one that is not there. -/
def startRefusal? (path : Text) : Option Refusal :=
  match RefusalKind.ofPath? path with
  | none | some .tooLong => none
  | some kind => some ⟨kind, path⟩

/-- The paths that a pattern finds. A pattern without wildcards finds itself if it is there, and, if
a slash ends it, if it is a directory. -/
def search (w : Workspace) (pattern : Text) : Except Refusal (List Text) :=
  if isWild pattern then
    let (start, parts) := divide pattern
    match startRefusal? start with
    | some refusal => .error refusal
    | none => .ok (findParts w parts start)
  else
    let (directory, last) := Path.split pattern
    if last = "" then .ok (if w.isDirectory directory then [pattern] else [])
    else .ok (if w.holds pattern then [pattern] else [])

/-- The files that a pattern finds, in normal form, in the order of the paths under which it finds
them. -/
def filesOf (w : Workspace) (pattern : Text) : Except Refusal (List Text) :=
  (search w pattern).map fun found => ((Text.sorted found).filter w.isFile).map w.absolute

/-- The patterns below a root. -/
def rooted (root : Text) (patterns : List Text) : List Text := patterns.map (Path.join root)

/-- The files that patterns with brace alternatives find below a root, every file once. -/
def findFiles (w : Workspace) (root : Text) (patterns : List Text) : Except Refusal (List Text) :=
  ((rooted root (patterns.flatMap expandBraces)).mapM (filesOf w)).map fun found =>
    found.flatten.eraseDups

end FieldAudit.Glob
