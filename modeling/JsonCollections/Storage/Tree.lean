import JsonCollections.Entries

set_option autoImplicit false

/-!
# Storage: directory trees

A tree of files and directories with the changes a file system makes to it.  A place is given by
the names that lead to it from the top.  Names longer than `maxNameBytes` lead nowhere and cannot
be made.
-/

namespace JsonCollections

/-- A file or a directory. -/
inductive Node where
  | file (content : ByteArray)
  | directory (entries : List (String × Node))
  deriving Inhabited

/-- Why a place cannot be reached or changed. -/
inductive TreeFault where
  /-- nothing is there -/
  | missing
  /-- a file stands where a directory is needed -/
  | notDirectory
  /-- a directory stands where a file is needed -/
  | isDirectory
  /-- a name on the way is too long -/
  | nameTooLong
  /-- a name on the way cannot be a name -/
  | badName
  /-- the system refuses, whatever the tree is -/
  | system
  deriving DecidableEq, Repr

namespace Node

/-! ## Names and shape -/

/-- The greatest length of a name in bytes. -/
def maxNameBytes : Nat := 255

/-- A name that an entry of a directory can have. -/
def isName (name : String) : Bool :=
  name != "" && name != "." && name != ".." && !name.toList.contains '/' &&
    !name.toList.contains '\x00' && decide (name.utf8ByteSize ≤ maxNameBytes)

mutual

/-- Directories name each entry once, and by a name that it can have. -/
def WellFormed : Node → Prop
  | .file _ => True
  | .directory entries => (Entries.keys entries).Nodup ∧ WellFormedEntries entries

/-- The entries of a directory have names that they can have and are well-formed. -/
def WellFormedEntries : List (String × Node) → Prop
  | [] => True
  | (name, node) :: rest => isName name = true ∧ WellFormed node ∧ WellFormedEntries rest

end

mutual

/-- Whether a tree is well-formed can be decided. -/
def decidableWellFormed : (node : Node) → Decidable node.WellFormed
  | .file _ => .isTrue trivial
  | .directory entries => @instDecidableAnd _ _ inferInstance (decidableWellFormedEntries entries)

/-- Whether entries are well-formed can be decided. -/
def decidableWellFormedEntries :
    (entries : List (String × Node)) → Decidable (WellFormedEntries entries)
  | [] => .isTrue trivial
  | (_, node) :: rest =>
    @instDecidableAnd _ _ inferInstance
      (@instDecidableAnd _ _ (decidableWellFormed node) (decidableWellFormedEntries rest))

end

instance : DecidablePred WellFormed := decidableWellFormed

/-! ## Looking -/

/-- The entries of a directory; a file has none. -/
def entries : Node → List (String × Node)
  | .file _ => []
  | .directory entries => entries

/-- Whether the node is a directory. -/
def isDirectory : Node → Bool
  | .file _ => false
  | .directory _ => true

/-- The node at a place. -/
def walk : Node → List String → Except TreeFault Node
  | node, [] => .ok node
  | .file _, _ :: _ => .error .notDirectory
  | .directory entries, name :: rest =>
    if maxNameBytes < name.utf8ByteSize then .error .nameTooLong
    else
      match Entries.get? entries name with
      | some node => node.walk rest
      | none => .error .missing

/-! ## Walking through -/

mutual

/-- The files at a node and below it, each by the names that lead to it: those above the node come
first.  Only a directory that opens is gone into, and its entries come in the order of their
names. -/
def filesFrom (opens : List String → Bool) (above : List String) : Node → List (List String)
  | .file _ => [above]
  | .directory entries =>
    if opens above then
      ((branches opens above entries).mergeSort fun a b => decide (a.1 ≤ b.1)).flatMap Prod.snd
    else []

/-- The entries of a directory, each with the files that are found there. -/
def branches (opens : List String → Bool) (above : List String) :
    List (String × Node) → List (String × List (List String))
  | [] => []
  | (name, node) :: rest =>
    (name, filesFrom opens (above ++ [name]) node) :: branches opens above rest

end

/-! ## Changing -/

/-- The entries with one set or taken away. -/
def setEntry (entries : List (String × Node)) (name : String) :
    Option Node → List (String × Node)
  | some node => Entries.insert entries name node
  | none => entries.filter (·.1 ≠ name)

/-- The tree with what is at a place below it changed; the way there must exist. -/
def alter (change : Option Node → Except TreeFault (Option Node)) :
    Node → List String → Except TreeFault Node
  | _, [] => .error .isDirectory
  | .file _, _ :: _ => .error .notDirectory
  | .directory entries, name :: rest =>
    if maxNameBytes < name.utf8ByteSize then .error .nameTooLong
    else
      match rest with
      | [] => do
        let changed ← change (Entries.get? entries name)
        .ok (.directory (setEntry entries name changed))
      | _ :: _ =>
        match Entries.get? entries name with
        | some node => do
          let changed ← node.alter change rest
          .ok (.directory (Entries.insert entries name changed))
        | none => .error .missing

/-- The tree with a file made or replaced. -/
def putFile (root : Node) (place : List String) (content : ByteArray) : Except TreeFault Node :=
  let change : Option Node → Except TreeFault (Option Node)
    | some (.directory _) => .error .isDirectory
    | _ => .ok (some (.file content))
  root.alter change place

/-- The tree without a file. -/
def removeFile (root : Node) (place : List String) : Except TreeFault Node :=
  let change : Option Node → Except TreeFault (Option Node)
    | some (.file _) => .ok none
    | some (.directory _) => .error .isDirectory
    | none => .error .missing
  root.alter change place

/-- The tree with a file moved to another place, where it replaces a file. -/
def moveFile (root : Node) (place target : List String) : Except TreeFault Node := do
  match ← root.walk place with
  | .file content =>
    let root ← root.putFile target content
    root.removeFile place
  | .directory _ => .error .isDirectory

/-! ## Growing -/

/-- The tree with a place below it settled; directories are made on the way there. -/
def grow (settle : Option Node → Node) : Option Node → List String → Node
  | old, [] => settle old
  | old, name :: rest =>
    let entries := (old.map entries).getD []
    .directory (Entries.insert entries name (grow settle (Entries.get? entries name) rest))

/-- The tree with a file and the directories that lead to it. -/
def withFile (root : Node) (place : List String) (content : ByteArray) : Node :=
  grow (fun _ => .file content) (some root) place

/-- The tree with a directory and those that lead to it. -/
def withDirectory (root : Node) (place : List String) : Node :=
  grow (fun old => .directory ((old.map entries).getD [])) (some root) place

end Node

end JsonCollections
