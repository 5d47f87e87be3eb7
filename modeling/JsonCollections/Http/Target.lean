import JsonCollections.Collection.Item
import JsonCollections.Collection.Location

set_option autoImplicit false

/-!
# Http: what a path addresses

The part of a path after `/api/` is a list of segments; a number after at least one of them
addresses an item.
-/

namespace JsonCollections.Http

/-- What a path addresses. -/
inductive Target where
  | collection (urlPath : String)
  | item (urlPath : String) (id : ItemId)
  deriving DecidableEq, Repr

namespace Target

/-- What stands before the segments of a path. -/
def root : List Char := "/api/".toList

/-- The id that a segment is: digits only, below `ItemId.bound`. -/
def idOf? (segment : List Char) : Option ItemId :=
  let n := Nat.ofDigitChars 10 segment 0
  if segment ≠ [] ∧ segment.all Char.isDigit ∧ n < ItemId.bound then some n else none

/-- What the part of a path after `/api/` addresses. -/
def ofChars? (path : List Char) : Option Target :=
  let segments := path.splitOn '/'
  let before := segments.dropLast
  let last := segments.getLast?.getD []
  if before.all Location.isSegment then
    if Location.isSegment last then some (.collection (String.ofList (root ++ path)))
    else if before = [] then none
    else (idOf? last).map (.item (String.ofList (root ++ ['/'].intercalate before)) ·)
  else none

/-- What the part of a path after `/api/` addresses. -/
def ofText? (path : String) : Option Target := ofChars? path.toList

end Target

end JsonCollections.Http
