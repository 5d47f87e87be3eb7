import JsonCollections.Storage.Basic

set_option autoImplicit false

/-!
# Storage: files in a directory tree

A path is followed component by component, from the top or from the place where paths start; it
goes up only from a directory that is there, and leads nowhere if it is too long.

A file is replaced in four stages: a temporary sibling is created, filled, flushed, and renamed
over the target.  Whatever stage fails, the sibling is removed and the target keeps what it had.
`Replacement.run` shows the tree after every stage, with any stage made to fail from outside.
-/

namespace JsonCollections

/-- A file system seen from the top of all paths. -/
structure Disk where
  root : Node := .directory []
  /-- the place that paths lead from which do not begin with a slash -/
  start : List String := []

namespace Disk

/-! ## Places -/

/-- The greatest length of a path in bytes. -/
def maxPathBytes : Nat := 4095

/-- The place that components lead to from a place.  Only a directory leads up; the directory
above all is the one above itself. -/
def follow (root : Node) : List String → List Component → Except TreeFault (List String)
  | place, [] => .ok place
  | _, .root :: rest => follow root [] rest
  | place, .here :: rest => follow root place rest
  | place, .name s :: rest => follow root (place ++ [s]) rest
  | place, .up :: rest => do
    match ← root.walk place with
    | .directory _ => follow root place.dropLast rest
    | .file _ => .error .notDirectory

/-- The place that a path leads to.  A path with a null character in it, or one that is too long,
is refused before the tree is looked at. -/
def place (disk : Disk) (p : Path) : Except TreeFault (List String) :=
  if p.text.toList.contains '\x00' then .error .badName
  else if maxPathBytes < p.text.utf8ByteSize then .error .nameTooLong
  else follow disk.root disk.start p.components

/-- Without two dots, components lead to the names in them. -/
theorem follow_map_name (root : Node) (place : List String) (names : List String) :
    follow root place (names.map .name) = .ok (place ++ names) := by
  induction names generalizing place with
  | nil => simp [follow]
  | cons s rest ih => simp [follow, ih]

/-! ## Reading -/

/-- The node at a path. -/
def find (disk : Disk) (p : Path) : Except TreeFault Node := do
  let place ← disk.place p
  let node ← disk.root.walk place
  if p.asksDirectory && !node.isDirectory then .error .notDirectory else .ok node

/-- The text of a file. -/
def readText (disk : Disk) (p : Path) : Except ReadFault String :=
  match disk.find p with
  | .ok (.file content) =>
    match String.fromUTF8? content with
    | some s => .ok s
    | none => .error .unreadable
  | .error .missing => .error .missing
  | _ => .error .unreadable

end Disk

/-! ## Replacing a file -/

/-- The stages of replacing a file. -/
inductive Stage where
  | create
  | fill
  | flush
  | rename
  deriving DecidableEq, Repr

/-- The stages in order. -/
def Stage.all : List Stage := [.create, .fill, .flush, .rename]

/-- A file to be replaced: its place, that of its temporary sibling, the new content, and what a
failing stage does. -/
structure Replacement where
  target : List String
  temporary : List String
  content : ByteArray
  /-- stages at which the system refuses -/
  fails : Stage → Bool := fun _ => false
  /-- what stands in the temporary file if filling it fails -/
  written : ByteArray := ByteArray.empty

namespace Replacement

/-- The name of the temporary sibling of a file. -/
def temporaryName (name : String) : String := "." ++ name ++ ".tmp"

/-- The tree after a change that may be refused. -/
def settle (root : Node) : Except TreeFault Node → Node × Option TreeFault
  | .ok changed => (changed, none)
  | .error fault => (root, some fault)

/-- The tree after a stage, and the fault if the stage failed. -/
def runStage (job : Replacement) (root : Node) (stage : Stage) : Node × Option TreeFault :=
  match stage, job.fails stage with
  | .create, false => settle root (root.putFile job.temporary ByteArray.empty)
  | .fill, false => settle root (root.putFile job.temporary job.content)
  | .flush, false => (root, none)
  | .rename, false => settle root (root.moveFile job.temporary job.target)
  | .fill, true => ((settle root (root.putFile job.temporary job.written)).1, some .system)
  | _, true => (root, some .system)

/-- The tree without the temporary file; what is no file is left alone. -/
def tidy (job : Replacement) (root : Node) : Node := (settle root (root.removeFile job.temporary)).1

/-- The trees after each stage that is run, and the fault that ended the run. -/
def runStages (job : Replacement) : List Stage → Node → List Node × Option TreeFault
  | [], _ => ([], none)
  | stage :: rest, root =>
    match job.runStage root stage with
    | (next, none) =>
      let (later, fault) := job.runStages rest next
      (next :: later, fault)
    | (next, some fault) => ([next, job.tidy next], some fault)

/-- The trees from the first to the last, and the fault that ended the run. -/
def run (job : Replacement) (root : Node) : List Node × Option TreeFault :=
  let (later, fault) := job.runStages Stage.all root
  (root :: later, fault)

/-- The tree that a run leaves. -/
def result (job : Replacement) (root : Node) : Node := ((job.run root).1.getLast?).getD root

end Replacement

namespace Disk

/-! ## Writing and walking -/

/-- The path of the temporary sibling of a file. -/
def temporaryPath (p : Path) : Path :=
  p.withName (Replacement.temporaryName (p.fileName?.getD ""))

/-- The replacement that a write to a path makes while the system refuses some stages; if it
refuses to fill the temporary file, something else is left there.  The path must end in a name, and
both it and the path of the temporary sibling must lead somewhere.  Only a directory can be renamed
to a path that asks for one. -/
def replacement (disk : Disk) (fails : Stage → Bool) (written : ByteArray) (p : Path)
    (content : String) : Except TreeFault Replacement := do
  let some _ := p.fileName? | .error .badName
  let target ← disk.place p
  let temporary ← disk.place (temporaryPath p)
  .ok { target, temporary, written, content := content.toUTF8,
        fails := fun stage => fails stage || (stage == .rename && p.asksDirectory) }

/-- The disk with the text at a path replaced, while the system refuses some stages. -/
def writeWith (disk : Disk) (fails : Stage → Bool) (written : ByteArray) (p : Path)
    (content : String) : Disk × Except WriteFault Unit :=
  match disk.replacement fails written p content with
  | .ok job =>
    ({ disk with root := job.result disk.root },
      match (job.run disk.root).2 with
      | none => .ok ()
      | some fault => .error (.refused fault))
  | .error fault => (disk, .error (.refused fault))

/-- The disk with the text at a path replaced. -/
def writeText (disk : Disk) (p : Path) (content : String) : Disk × Except WriteFault Unit :=
  disk.writeWith (fun _ => false) ByteArray.empty p content

/-- Whether names lead from a path to something that is there. -/
def opens (disk : Disk) (p : Path) (names : List String) : Bool :=
  (disk.find (p.descend names)).isOk

/-- The files that a walk from a path finds.  Every directory on the way is opened by its whole
path, which may be too long. -/
def files (disk : Disk) (p : Path) : List (List String) :=
  match disk.find p with
  | .ok node => node.filesFrom (disk.opens p) []
  | .error _ => []

instance : Storage Disk where
  read := readText
  write := writeText
  isDirectory disk p :=
    match disk.find p with
    | .ok node => node.isDirectory
    | .error _ => false
  files := files

end Disk

end JsonCollections
