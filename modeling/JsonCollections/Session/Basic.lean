import JsonCollections.Collection.Basic
import JsonCollections.Session.LockTable

set_option autoImplicit false

/-!
# Session: many clients of one store

A session holds a store, the table of locks and named slots.  A slot holds a loaded collection,
with or without the lock of its file, or waits for a lock.  A writer asks for the lock of the file
that its URL path leads to, and loads once it owns the lock; loading looks for the file again.
-/

namespace JsonCollections

/-- What a client holds. -/
inductive Slot where
  /-- a place in the queue of a file, to load a URL path -/
  | waiting (urlPath : String) (file : Path)
  /-- a loaded collection, with the lock of a file for a writer -/
  | holding (collection : Collection) (lock : Option Path)

namespace Slot

/-- The file in whose queue the client stands. -/
def lockedFile? : Slot → Option Path
  | .waiting _ file => some file
  | .holding _ lock => lock

end Slot

/-- A store with its clients. -/
structure Session (σ : Type) where
  store : σ
  library : Library
  locks : LockTable String := []
  slots : List (String × Slot) := []

/-- How an attempt to load ended. -/
inductive LoadOutcome where
  | loaded (collection : Collection)
  | blocked
  | failed (error : LoadError)

namespace Session

variable {σ : Type}

/-- What a client holds. -/
def slot? (s : Session σ) (client : String) : Option Slot := Entries.get? s.slots client

/-- The session with a slot filled. -/
def withSlot (s : Session σ) (client : String) (slot : Slot) : Session σ :=
  { s with slots := Entries.insert s.slots client slot }

/-- Empties a slot; the client leaves the queue in which it stands. -/
def drop (s : Session σ) (client : String) : Session σ :=
  let locks :=
    match (s.slot? client).bind Slot.lockedFile? with
    | some file => s.locks.release file client
    | none => s.locks
  { s with locks, slots := s.slots.filter (·.1 ≠ client) }

section Loading

variable [Storage σ]

/-- Loads without a lock. -/
def load (s : Session σ) (client urlPath : String) : Session σ × LoadOutcome :=
  let s := s.drop client
  match Collection.load s.store s.library urlPath with
  | .ok collection => (s.withSlot client (.holding collection none), .loaded collection)
  | .error error => (s, .failed error)

/-- Loads for a client that stands in the queue of a file, if it owns the lock.  If loading fails
it leaves the queue. -/
def proceed (s : Session σ) (client urlPath : String) (file : Path) : Session σ × LoadOutcome :=
  if s.locks.owner? file = some client then
    match Collection.load s.store s.library urlPath with
    | .ok collection =>
      (s.withSlot client (.holding collection (some file)), .loaded collection)
    | .error error => (s.drop client, .failed error)
  else (s, .blocked)

/-- Asks for the lock of the file behind a URL path and loads if it is free. -/
def loadForWrite (s : Session σ) (client urlPath : String) : Session σ × LoadOutcome :=
  let s := s.drop client
  match Location.resolve s.store s.library.base urlPath with
  | none => (s, .failed .notFound)
  | some file =>
    let s := { s with locks := s.locks.request file client }
    (s.withSlot client (.waiting urlPath file)).proceed client urlPath file

/-- Lets a waiting client try again; nothing if it does not wait. -/
def poll (s : Session σ) (client : String) : Session σ × Option LoadOutcome :=
  match s.slot? client with
  | some (.waiting urlPath file) =>
    let (s, outcome) := s.proceed client urlPath file
    (s, some outcome)
  | _ => (s, none)

/-- Changes the collection that a client holds; nothing if it holds none. -/
def mutate (s : Session σ) (client : String) (m : Mutation) :
    Session σ × Option (Except WriteError Item) :=
  match s.slot? client with
  | some (.holding collection lock) =>
    let (store, collection, result) := collection.mutate s.store m
    ({ s with store }.withSlot client (.holding collection lock), some result)
  | _ => (s, none)

end Loading

/-! ## Steps -/

/-- What a client does, or what happens to the store from outside. -/
inductive Step (σ : Type) where
  | load (client urlPath : String)
  | loadForWrite (client urlPath : String)
  | poll (client : String)
  | mutate (client : String) (m : Mutation)
  | drop (client : String)
  | outside (change : σ → σ)

/-- The session after a step. -/
def step [Storage σ] (s : Session σ) : Step σ → Session σ
  | .load client urlPath => (s.load client urlPath).1
  | .loadForWrite client urlPath => (s.loadForWrite client urlPath).1
  | .poll client => (s.poll client).1
  | .mutate client m => (s.mutate client m).1
  | .drop client => s.drop client
  | .outside change => { s with store := change s.store }

/-- The session after steps in order. -/
def run [Storage σ] (s : Session σ) (steps : List (Step σ)) : Session σ := steps.foldl step s

end Session

end JsonCollections
