import JsonCollections.Path
import JsonCollections.Storage.Tree

set_option autoImplicit false

/-!
# Storage: what collections need of a store of files

A store reads whole files, replaces whole files, tells directories, and lists the files that a
walk through a directory finds.
-/

namespace JsonCollections

/-- Why a file was not read. -/
inductive ReadFault where
  /-- there is nothing at the path -/
  | missing
  /-- something is in the way of reading a text there -/
  | unreadable
  deriving DecidableEq, Repr

/-- Why a file was not written. -/
inductive WriteFault where
  /-- writing is switched off -/
  | disabled
  /-- the tree does not allow it -/
  | refused (fault : TreeFault)
  deriving DecidableEq, Repr

/-- What is added to the message of a failed write. -/
def WriteFault.note : WriteFault → String
  | .disabled => ": writes disabled"
  | .refused _ => ""

/-- A store of whole files. -/
class Storage (σ : Type) where
  /-- the text of the file at a path -/
  read : σ → Path → Except ReadFault String
  /-- the store after an attempt to replace the file at a path, and how the attempt ended -/
  write : σ → Path → String → σ × Except WriteFault Unit
  /-- whether a path leads to a directory -/
  isDirectory : σ → Path → Bool
  /-- the files that a walk through the directory at a path finds, in its order: for each the names
  that lead to it from there -/
  files : σ → Path → List (List String)

end JsonCollections
