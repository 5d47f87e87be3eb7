set_option autoImplicit false

/-!
# Http: counters

For every kind of work there is a counter of attempts that were timed, and one of results by how
they ended.
-/

namespace JsonCollections.Http

/-- A kind of work. -/
inductive Activity where
  | discover
  | query
  | get
  | insert
  | update
  | patch
  | delete
  deriving DecidableEq, Repr

namespace Activity

/-- The name in counters. -/
def name : Activity → String
  | .discover => "discover"
  | .query => "query"
  | .get => "get"
  | .insert => "insert"
  | .update => "update"
  | .patch => "patch"
  | .delete => "delete"

/-- All kinds of work. -/
def all : List Activity := [.discover, .query, .get, .insert, .update, .patch, .delete]

end Activity

/-- A counter. -/
inductive Counter where
  | timed (activity : Activity)
  | ended (activity : Activity) (ok : Bool)
  deriving DecidableEq, Repr

namespace Counter

/-- All counters. -/
def all : List Counter :=
  Activity.all.flatMap fun a => [.timed a, .ended a true, .ended a false]

/-- The family of the counter. -/
def family : Counter → String
  | .timed _ => "jsondir_op_duration_seconds_count"
  | .ended _ _ => "jsondir_ops_total"

/-- What tells the counter from others of its family. -/
def labels : Counter → List (String × String)
  | .timed a => [("op", a.name)]
  | .ended a ok => [("op", a.name), ("result", if ok then "ok" else "error")]

end Counter

/-- The values of all counters. -/
abbrev Counters : Type := Counter → Nat

/-- The values after one more event. -/
def Counters.bump (counters : Counters) (counter : Counter) : Counters :=
  fun c => if c = counter then counters c + 1 else counters c

end JsonCollections.Http
