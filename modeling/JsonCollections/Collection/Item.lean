import JsonCollections.Json.Basic
import JsonCollections.Number.Literal

set_option autoImplicit false

/-!
# Collection: items and their ids

An item is an object.  Its id is the number under `id` if that is an integer from `0` to
`2 ^ 64 - 1` by value, in either form.  The *numeric* id, from which new ids are derived, counts
numeric strings as well.
-/

namespace JsonCollections

/-- An element of a collection. -/
abbrev Item : Type := Entries Json

/-- The id of an item; ids are below `ItemId.bound`. -/
abbrev ItemId : Type := Nat

/-- Ids are 64-bit words. -/
def ItemId.bound : Nat := UInt64.size

/-- The greatest id as a double, that is, the double nearest to it. -/
def ItemId.ceiling : Double := (Double.ofInt? (ItemId.bound - 1 : Nat)).getD default

/-- Whether the double is not negative, integral and less than the greatest id as a double. -/
def Double.isId (x : Double) : Bool := le (.zero false) x && x.isIntegral && x.lt ItemId.ceiling

/-- The double as an id: it is cast to a word, unless its value is none. -/
def Double.itemId? (x : Double) : Option ItemId := if x.isId then some x.toWord.toNat else none

/-- A number in integer form that is not negative. -/
def Json.Number.word? : Json.Number → Option Nat
  | .integer i _ => if 0 ≤ i then some i.toNat else none
  | .double _ => none

/-- The number as an id: a word is one itself, and any other number goes by its nearest double. -/
def Json.Number.itemId? (n : Json.Number) : Option ItemId :=
  match n.word? with
  | some k => some k
  | none => n.toDouble.itemId?

namespace Item

/-- The key that holds the id. -/
def idKey : String := "id"

/-- The id of the item. -/
def id? (item : Item) : Option ItemId :=
  match item.get? idKey with
  | some (.number n) => n.itemId?
  | _ => none

/-- The id that counts when a new id is derived: a numeric string is read as a double. -/
def numericId? (item : Item) : Option ItemId :=
  match item.get? idKey with
  | some (.string s) => (Double.ofText? s.toList).bind Double.itemId?
  | _ => item.id?

/-- Whenever the id is defined the numeric id is the same. -/
theorem numericId?_of_id? {item : Item} {k : ItemId} (h : item.id? = some k) :
    item.numericId? = some k := by
  unfold numericId?
  split
  · rename_i s hs
    simp [id?, hs] at h
  · exact h

/-- The item with the given id, in place of the one it has or at the end. -/
def withId (item : Item) (k : ItemId) : Item := item.insert idKey (.number (.ofNat k))

/-- The item with the given id in front. -/
def leadingId (item : Item) (k : ItemId) : Item :=
  Entries.ofList ((idKey, .number (.ofNat k)) :: item)

end Item

end JsonCollections
