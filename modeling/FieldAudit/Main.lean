import FieldAudit.Program
import Std.Time.DateTime.Timestamp

/-!
The command line program. It sees the files below the working directory, the paths that are named on
the command line, and the project. The body of the endpoint's answer is read from standard input
once the program has a request to send; the request itself is shown on standard error.
-/

set_option autoImplicit false

namespace FieldAudit.Outside

/-- Adds what stands at a location to a tree of files. -/
partial def addFound (location : Location) (tree : FileTree) : IO FileTree := do
  let place := (← IO.currentDir) / (Path.ofNames "/" location).repaired
  if ← place.isDir then
    let entries ← place.readDir
    entries.toList.foldlM (fun tree entry => addFound (location ++ [.ofString entry.fileName]) tree)
      (tree.add location .directory)
  else if ← place.pathExists then
    return tree.add location (.file (← IO.FS.readBinFile place).toList)
  else return tree

/-- Adds what stands at paths to the files of a workspace. -/
def addPaths (w : Workspace) (paths : List Text) : IO Workspace := do
  let tree ← paths.foldlM (fun tree path => addFound (Path.names (w.absolute path)) tree) w.tree
  return { w with tree := tree }

/-- Makes the nodes of a tree that another one does not have. -/
def makeNodes (before after : FileTree) : IO Unit := do
  let here ← IO.currentDir
  for (location, node) in after.nodes do
    if before.node? location != some node then
      let place := here / (Path.ofNames "/" location).repaired
      match node with
      | .directory => IO.FS.createDirAll place
      | .file bytes => IO.FS.writeBinFile place ⟨bytes.toArray⟩

/-- The values of the variables that the program asks for. -/
def readEnvironment : IO Environment :=
  [Settings.endpointVariable, "DEBUG"].filterMapM fun name => do
    return (← IO.getEnv name).map fun value => (.ofString name, .ofString value)

/-- The present moment. -/
def now : IO Moment := do
  let nanoseconds := (← Std.Time.Timestamp.now).toNanosecondsSinceUnixEpoch.toInt.toNat
  return Moment.ofEpoch (nanoseconds / 1000000000) (nanoseconds % 1000000000 / 1000)

/-- Everything that is left on a stream. -/
partial def readAll (stream : IO.FS.Stream) (read : ByteArray) : IO ByteArray := do
  let chunk ← stream.read 65536
  if chunk.isEmpty then return read else readAll stream (read ++ chunk)

/-- The reply on standard input; nothing stands for a connection that broke. -/
def readReply : IO Reply := do
  let body ← readAll (← IO.getStdin) .empty
  if body.isEmpty then return .broken "ConnectionError" "no answer on standard input"
  else return .answer 200 (some "OK") body.toList

/-- Shows an effect. -/
def showEffect : Effect → IO Unit
  | .print line => IO.println line.repaired
  | .send request => do
    IO.eprintln ("POST " ++ request.endpoint.bare.repaired)
    for (name, value) in request.headers do
      IO.eprintln (name.repaired ++ ": " ++ value.repaired)

/-- Ends the program as it says. -/
def finish : Ending → IO UInt32
  | .status status => return status.toUInt32
  | .refused problem => do
    for line in CommandLine.refusalLines problem do IO.eprintln line.repaired
    return 2
  | .breakdown breakdown => do
    IO.eprintln breakdown.message.repaired
    return 1

end FieldAudit.Outside

open FieldAudit Outside

/-- Runs the program on the words of the command line. -/
def main (arguments : List String) : IO UInt32 := do
  let words := arguments.map Text.ofString
  let here : Workspace := ⟨default, Path.names (.ofString (← IO.currentDir).toString)⟩
  let named ← addPaths here (Text.ofString "." :: Program.namedPaths words)
  let silence := Reply.broken "" []
  let around : Surroundings := ⟨named, ← readEnvironment, ← now, silence⟩
  let whole ← addPaths named (Program.projectRoot? words around).toList
  let around := { around with workspace := whole }
  let reply ← if (Program.run words around).sends then readReply else pure silence
  let program := Program.run words { around with reply := reply }
  for effect in program.effects do showEffect effect
  makeNodes whole.tree program.workspace.tree
  finish program.ending
