import JsonCollections.CommandLine.Admin
import JsonCollections.Storage.Disk

set_option autoImplicit false

/-!
# Main: the program

What a command may look at is read into a tree of files first; the command then runs on that tree.
-/

namespace JsonCollections.CommandLine

/-- What stands for a file that cannot be read: octets that are no text. -/
def unread : ByteArray := ByteArray.mk #[0xFF]

/-- The file or directory at an entry, down to some levels.  Only files that can hold a collection
are read. -/
def snapshot : Nat → IO.FS.DirEntry → IO Node
  | levels, entry => do
    if ← entry.path.isDir then
      match levels with
      | 0 => return .directory []
      | levels + 1 =>
        let inner ← entry.path.readDir
        let nodes ← inner.toList.mapM fun e => do
          let node ← snapshot levels e
          return (e.fileName, node)
        return .directory nodes
    else if entry.fileName.endsWith Location.fileSuffix then
      try
        let content ← IO.FS.readBinFile entry.path
        return .file content
      catch _ => return .file unread
    else return .file ByteArray.empty

/-- The paths that the segments of a path lead along, the path itself among them. -/
def waypoints (p : Path) : List Path :=
  (List.range p.segments.length).map fun k => ⟨p.segments.take (k + 1)⟩

/-- The tree with the directories on the way to a path, as far as they are there. -/
def withWay (root : Node) (p : Path) : IO Node :=
  (waypoints p).foldlM (fun root q => do
    let entry : IO.FS.DirEntry := ⟨q.text, ""⟩
    if ← entry.path.isDir then return root.withDirectory q.names else return root) root

/-- The files that a command may look at; none if its base is no directory. -/
def diskFor (command : Command) : IO Disk := do
  let base := Path.ofText command.base
  let entry : IO.FS.DirEntry := ⟨command.base, ""⟩
  if ← entry.path.isDir then
    let node ← snapshot command.levels entry
    return { root := ← withWay (Node.grow (fun _ => node) none base.names) base }
  else return {}

end JsonCollections.CommandLine

open JsonCollections.CommandLine in
/-- Runs the command that the arguments give. -/
def main (arguments : List String) : IO UInt32 := do
  let disk ←
    match Task.ofArguments arguments with
    | .ok (.run command) => diskFor command
    | _ => pure {}
  let outcome := runArguments disk arguments
  IO.print outcome.output
  match outcome.error with
  | some message => IO.eprintln ("Error: " ++ message)
  | none => if outcome.exit = 2 then IO.eprint programPage.text
  return outcome.exit.toUInt32
