import FieldAudit.Path
import FieldAudit.Text.Quoted

/-!
A tree of files. A node stands at a location, the names on the way to it from the root, and is a
file with its bytes or a directory. `Workspace.find` follows a path text through the tree: every
name before the last has to be a directory, and so has the last one before a slash. A path that no
file system takes is refused before the tree is looked at. Operations that change the tree say which
error stops them.

`isFile`, `isDirectory` and `holds` are `os.path.isfile`, `os.path.isdir` and `os.path.exists`;
`read` and `write` are an `open` for reading and for writing, and `makeDirectories` is
`os.makedirs`.
-/

set_option autoImplicit false

namespace FieldAudit

/-- The names from the root to a node. -/
abbrev Location := List Text

/-- A file with its bytes, or a directory. -/
inductive Node
  | file (bytes : List UInt8)
  | directory
  deriving DecidableEq, Repr

/-- The nodes of a tree apart from its root, which is a directory. -/
structure FileTree where
  nodes : List (Location × Node)
  deriving DecidableEq, Repr, Inhabited

/-- Why the file system refuses a request. -/
inductive RefusalKind
  | missing
  | exists
  | notDirectory
  | isDirectory
  /-- A name, or the whole path, takes too many bytes. -/
  | tooLong
  /-- The path holds a null character. -/
  | nullCharacter
  /-- The path has no bytes. -/
  | noBytes
  deriving DecidableEq, Repr

/-- A refused request and the path it was about. -/
structure Refusal where
  kind : RefusalKind
  path : Text
  deriving DecidableEq, Repr

/-- The number and the words for a refusal that the file system numbers. -/
def RefusalKind.words : RefusalKind → String
  | .missing => "[Errno 2] No such file or directory"
  | .exists => "[Errno 17] File exists"
  | .notDirectory => "[Errno 20] Not a directory"
  | .isDirectory => "[Errno 21] Is a directory"
  | .tooLong => "[Errno 36] File name too long"
  | .nullCharacter => "embedded null byte"
  | .noBytes => "unencodable path"

/-- What is reported of a refusal. -/
def Refusal.message (r : Refusal) : Text :=
  match r.kind, Path.bytes r.path with
  | .nullCharacter, _ => r.kind.words
  | .noBytes, .error unencodable => unencodable.message
  | kind, _ => kind.words ++ ": " ++ r.path.quoted

/-- Why no file system takes a path. -/
def RefusalKind.ofPath? (path : Text) : Option RefusalKind :=
  match Path.bytes path with
  | .error _ => some .noBytes
  | .ok bytes =>
    if bytes.contains 0 then some .nullCharacter
    else if Path.longestPath < bytes.length then some .tooLong
    else none

namespace FileTree

/-- The node at a location. -/
def node? (tree : FileTree) (location : Location) : Option Node :=
  if location = [] then some .directory
  else (tree.nodes.find? fun entry => entry.1 == location).map Prod.snd

/-- The names of the nodes in a directory. -/
def childNames (tree : FileTree) (location : Location) : List Text :=
  tree.nodes.filterMap fun entry =>
    match entry.1.getLast? with
    | some name => if entry.1.dropLast = location then some name else none
    | none => none

/-- The nodes below a directory, with the names that lead from it to them. -/
def below (tree : FileTree) (location : Location) : List (Location × Node) :=
  tree.nodes.filterMap fun entry =>
    if location.isPrefixOf entry.1 && location.length < entry.1.length then
      some (entry.1.drop location.length, entry.2)
    else none

/-- Sets the node at a location. -/
def put (tree : FileTree) (location : Location) (node : Node) : FileTree :=
  if tree.nodes.any fun entry => entry.1 == location then
    ⟨tree.nodes.map fun entry => if entry.1 = location then (location, node) else entry⟩
  else ⟨tree.nodes ++ [(location, node)]⟩

/-- Adds the directories on the way to a location that are not there. -/
def addParents (tree : FileTree) (location : Location) : FileTree :=
  (List.range (location.length - 1)).foldl (fun tree i =>
    let parent := location.take (i + 1)
    if (tree.node? parent).isSome then tree else tree.put parent .directory) tree

/-- Adds a node and the directories on the way to it. -/
def add (tree : FileTree) (location : Location) (node : Node) : FileTree :=
  if location = [] then tree else (tree.addParents location).put location node

end FileTree

/-- A tree of files with a working directory, from which relative paths are seen. -/
structure Workspace where
  tree : FileTree
  directory : Location
  deriving DecidableEq, Repr, Inhabited

namespace Workspace

/-- The path of the working directory. -/
def directoryPath (w : Workspace) : Text := Path.ofNames "/" w.directory

/-- The normal form of a path seen from the working directory. -/
def absolute (w : Workspace) (path : Text) : Text := Path.absolute w.directoryPath path

/-- Follows the parts of a path from a location. -/
def follow (tree : FileTree) (location : Location) : List Text → Except RefusalKind Location
  | [] => if (tree.node? location).isSome then .ok location else .error .missing
  | part :: rest =>
    match tree.node? location with
    | none => .error .missing
    | some (.file _) => .error .notDirectory
    | some .directory =>
      if Path.longestName < Path.size part then .error .tooLong
      else follow tree (Path.step location part) rest

/-- The location at which a path ends. -/
def locate (w : Workspace) (path : Text) : Except RefusalKind Location :=
  match RefusalKind.ofPath? path with
  | some kind => .error kind
  | none =>
    if path = "" then .error .missing
    else follow w.tree (if Path.isAbsolute path then [] else w.directory) (Path.parts path)

/-- The node at which a path ends. -/
def find (w : Workspace) (path : Text) : Except RefusalKind Node :=
  match w.locate path with
  | .error kind => .error kind
  | .ok location =>
    match w.tree.node? location with
    | some node => .ok node
    | none => .error .missing

/-- Whether a path leads to something. -/
def holds (w : Workspace) (path : Text) : Bool :=
  match w.find path with
  | .ok _ => true
  | .error _ => false

/-- Whether a path leads to a file. -/
def isFile (w : Workspace) (path : Text) : Bool :=
  match w.find path with
  | .ok (.file _) => true
  | _ => false

/-- Whether a path leads to a directory. -/
def isDirectory (w : Workspace) (path : Text) : Bool :=
  match w.find path with
  | .ok .directory => true
  | _ => false

/-- The bytes of the file at a path. -/
def read (w : Workspace) (path : Text) : Except Refusal (List UInt8) :=
  match w.find path with
  | .ok (.file bytes) => .ok bytes
  | .ok .directory => .error ⟨.isDirectory, path⟩
  | .error kind => .error ⟨kind, path⟩

/-- Makes the directory at a path in normal form, whose parent has been seen to. Something that is
there already is left alone, and is refused at the end of the way unless it is a directory. -/
def makeDirectory (w : Workspace) (final : Bool) (path : Text) : Except Refusal Workspace :=
  match w.find path with
  | .ok .directory => .ok w
  | .ok (.file _) => if final then .error ⟨.exists, path⟩ else .ok w
  | .error .missing => .ok { w with tree := w.tree.put (Path.names path) .directory }
  | .error kind => .error ⟨kind, path⟩

/-- Makes the directories at paths in normal form, each of which is the parent of the next. Gives
the files as they are afterwards, and the refusal that stopped it if there was one. -/
def makeAll (w : Workspace) : List Text → Workspace × Option Refusal
  | [] => (w, none)
  | path :: rest =>
    match w.makeDirectory rest.isEmpty path with
    | .error refusal => (w, some refusal)
    | .ok made => made.makeAll rest

/-- Makes the directory at a path in normal form and those on the way to it. -/
def makeDirectories (w : Workspace) (path : Text) : Workspace × Option Refusal :=
  w.makeAll (Path.ancestors path)

/-- Writes a file at a path in normal form, in place of the file that is there. -/
def write (w : Workspace) (path : Text) (bytes : List UInt8) : Except Refusal Workspace :=
  match w.find path with
  | .ok .directory => .error ⟨.isDirectory, path⟩
  | .ok (.file _) => .ok { w with tree := w.tree.put (Path.names path) (.file bytes) }
  | .error .missing =>
    if w.isDirectory (Path.directory path) then
      .ok { w with tree := w.tree.put (Path.names path) (.file bytes) }
    else .error ⟨.missing, path⟩
  | .error kind => .error ⟨kind, path⟩

end Workspace

end FieldAudit
