import JsonCollections.Path

set_option autoImplicit false

/-!
# Session: locks of files

Each file in use has a queue of clients.  The first one owns the lock, the others wait in the
order in which they asked.  A file without clients has no entry.
-/

namespace JsonCollections

/-- Queues of clients, by file. -/
abbrev LockTable (κ : Type) : Type := List (Path × List κ)

namespace LockTable

variable {κ : Type}

/-- The clients of a file, the owner first. -/
def queue (table : LockTable κ) (file : Path) : List κ :=
  ((table.find? (·.1.sameAs file)).map Prod.snd).getD []

/-- The client that owns the lock of a file. -/
def owner? (table : LockTable κ) (file : Path) : Option κ := (table.queue file).head?

/-- The table with a client at the end of a queue. -/
def request (file : Path) (client : κ) : LockTable κ → LockTable κ
  | [] => [(file, [client])]
  | (f, clients) :: rest =>
    if f.sameAs file then (f, clients ++ [client]) :: rest
    else (f, clients) :: request file client rest

/-- The table without a client in a queue; the lock passes to the next one. -/
def release [BEq κ] (file : Path) (client : κ) : LockTable κ → LockTable κ
  | [] => []
  | (f, clients) :: rest =>
    if f.sameAs file then
      match clients.erase client with
      | [] => rest
      | left => (f, left) :: rest
    else (f, clients) :: release file client rest

end LockTable

end JsonCollections
