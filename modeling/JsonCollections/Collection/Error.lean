import JsonCollections.Collection.Item
import JsonCollections.Json.Patch
import JsonCollections.Storage.Basic

set_option autoImplicit false

/-!
# Collection: why loading or changing fails

`code` is the stable name of the cause, `message` the text for people.  A message ends where the
reader of documents or the system would go on in words of its own: after `notJson` and `unreadable`,
and after `store` where the tree does not allow the write.
-/

namespace JsonCollections

/-- Why a collection is not loaded. -/
inductive LoadError where
  /-- the file holds no array of objects -/
  | notObjects
  /-- the file holds no document -/
  | notJson (fault : Json.Fault)
  /-- there is no such file -/
  | notFound
  /-- the file cannot be read -/
  | unreadable
  deriving DecidableEq, Repr

namespace LoadError

/-- The stable name of the cause. -/
def code : LoadError → String
  | .notObjects => "invalid-type"
  | .notJson _ => "invalid-json"
  | .notFound => "not-found"
  | .unreadable => "unknown"

/-- The text for people. -/
def message : LoadError → String
  | .notObjects => "collection file is not an array of objects"
  | .notJson _ => "collection file is not valid JSON"
  | .notFound => "collection not found"
  | .unreadable => "collection could not be read"

/-- The error of a file that was not read. -/
def ofReadFault : ReadFault → LoadError
  | .missing => .notFound
  | .unreadable => .unreadable

end LoadError

/-- Why a collection is not changed, or the change not stored. -/
inductive WriteError where
  /-- a new item has an id already -/
  | extraId
  /-- the collection holds as many items as it may -/
  | maxItems (n : Nat)
  /-- the greatest id is in use -/
  | idExhausted
  /-- there is no item with this id -/
  | notFound (id : ItemId)
  /-- an operation of the patch cannot be done -/
  | invalidPatch (error : Json.PatchError)
  /-- the patch leaves no object -/
  | patchNotObject (id : ItemId)
  /-- the file was not written -/
  | store (fault : WriteFault)
  deriving DecidableEq, Repr

namespace WriteError

/-- The stable name of the cause. -/
def code : WriteError → String
  | .extraId => "extra-id"
  | .maxItems _ => "max-items"
  | .idExhausted => "id-exhausted"
  | .notFound _ => "not-found"
  | .invalidPatch _ | .patchNotObject _ => "invalid-patch"
  | .store _ => "store-error"

/-- The text for people. -/
def message : WriteError → String
  | .extraId => "item must not carry an id, ids are assigned on insert"
  | .maxItems n => "collection already holds the maximum of " ++ toString n ++ " items"
  | .idExhausted => "no id left to assign after " ++ toString (ItemId.bound - 1)
  | .notFound id => "item with id " ++ toString id ++ " not found"
  | .invalidPatch error => error.message
  | .patchNotObject id => "patch would turn item " ++ toString id ++ " into a non-object"
  | .store fault => "collection could not be stored" ++ fault.note

end WriteError

end JsonCollections
