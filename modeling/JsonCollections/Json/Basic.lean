import JsonCollections.Entries
import JsonCollections.Json.Number

set_option autoImplicit false

/-!
# Json: documents

A document is a tree whose objects are lists of entries, so the order of keys is part of it.  That
keys do not repeat is the predicate `WellFormed`.

`same` is equality up to the order of keys.
-/

namespace JsonCollections

/-- A JSON document. -/
inductive Json where
  | null
  | bool (value : Bool)
  | number (value : Json.Number)
  | string (value : String)
  | array (items : List Json)
  | object (fields : List (String × Json))
  deriving Repr, Inhabited

namespace Json

/-! ## Shape -/

mutual

/-- No object repeats a key. -/
def WellFormed : Json → Prop
  | .array items => WellFormedItems items
  | .object fields => (Entries.keys fields).Nodup ∧ WellFormedFields fields
  | _ => True

/-- No object in a list of documents repeats a key. -/
def WellFormedItems : List Json → Prop
  | [] => True
  | v :: rest => WellFormed v ∧ WellFormedItems rest

/-- No object among the values of entries repeats a key. -/
def WellFormedFields : List (String × Json) → Prop
  | [] => True
  | (_, v) :: rest => WellFormed v ∧ WellFormedFields rest

end

mutual

/-- How deep arrays and objects are nested. -/
def depth : Json → Nat
  | .array items => depthItems items + 1
  | .object fields => depthFields fields + 1
  | _ => 0

/-- The greatest depth in a list of documents. -/
def depthItems : List Json → Nat
  | [] => 0
  | v :: rest => max (depth v) (depthItems rest)

/-- The greatest depth among the values of entries. -/
def depthFields : List (String × Json) → Nat
  | [] => 0
  | (_, v) :: rest => max (depth v) (depthFields rest)

end

/-- The three families of documents. -/
inductive Kind where
  | primitive
  | object
  | array
  deriving DecidableEq, Repr

/-- The family of a document. -/
def kind : Json → Kind
  | .array _ => .array
  | .object _ => .object
  | _ => .primitive

/-- The entries of an object. -/
def fields? : Json → Option (Entries Json)
  | .object fields => some fields
  | _ => none

theorem fields?_eq_some_iff {v : Json} {fields : Entries Json} :
    v.fields? = some fields ↔ v = .object fields := by
  cases v with
  | object others => simp [fields?]
  | null | bool | number | string | array => exact ⟨nofun, nofun⟩

/-- The objects in an array of objects only. -/
def objects? : Json → Option (List (Entries Json))
  | .array items => items.mapM fields?
  | _ => none

/-! ## Equality up to the order of keys -/

mutual

/-- Equality in which the order of keys does not count and the form of numbers does. -/
def same : Json → Json → Bool
  | .null, .null => true
  | .bool a, .bool b => a == b
  | .number a, .number b => a.same b
  | .string a, .string b => a == b
  | .array a, .array b => sameItems a b
  | .object a, .object b => a.length == b.length && sameFields a b
  | _, _ => false

/-- Documents of two lists are the same, place by place. -/
def sameItems : List Json → List Json → Bool
  | [], [] => true
  | v :: rest, w :: others => same v w && sameItems rest others
  | _, _ => false

/-- Each entry of the first list has the same value in the second. -/
def sameFields : List (String × Json) → List (String × Json) → Bool
  | [], _ => true
  | (key, v) :: rest, others =>
    (match Entries.get? others key with
      | some w => same v w
      | none => false) && sameFields rest others

end

end Json

end JsonCollections
