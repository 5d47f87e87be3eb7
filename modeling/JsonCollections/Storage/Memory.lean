import JsonCollections.Storage.Basic

set_option autoImplicit false

/-!
# Storage: files in memory

A table from paths to texts.  A directory is there exactly while some file is stored below it.
Writing can be switched off; successful writes are counted.  A walk over the store finds nothing.
-/

namespace JsonCollections

/-- Texts under paths. -/
structure Memory where
  files : List (Path × String) := []
  disabled : Bool := false
  writes : Nat := 0

namespace Memory

/-- The text at a path, however it is spelled. -/
def get? (store : Memory) (p : Path) : Option String :=
  (store.files.find? (·.1.sameAs p)).map Prod.snd

/-- Sets the text at a path in a table. -/
def setFile (p : Path) (content : String) : List (Path × String) → List (Path × String)
  | [] => [(p, content)]
  | (q, old) :: rest =>
    if q.sameAs p then (q, content) :: rest else (q, old) :: setFile p content rest

/-- The store with a text put at a path, not counted as a write. -/
def put (store : Memory) (p : Path) (content : String) : Memory :=
  { store with files := setFile p content store.files }

/-- The store with writing switched off or on. -/
def withDisabled (store : Memory) (disabled : Bool) : Memory := { store with disabled }

instance : Storage Memory where
  read store p :=
    match store.get? p with
    | some content => .ok content
    | none => .error .missing
  write store p content :=
    if store.disabled then (store, .error .disabled)
    else ({ store.put p content with writes := store.writes + 1 }, .ok ())
  isDirectory store p := store.files.any fun entry => p.isAbove entry.1
  files _ _ := []

end Memory

end JsonCollections
