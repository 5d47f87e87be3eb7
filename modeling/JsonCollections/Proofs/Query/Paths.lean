import JsonCollections.Proofs.Query.Operators

set_option autoImplicit false

/-!
# Paths through objects

A path takes the value under its first key and then steps from value to value, key by key
(`Item.valueAt?_cons`).  Only an object has keys to step to, so a path that goes on leads on from an
object: paths compose there (`Item.valueAt?_append_eq_some_iff`), and they end at everything else
(`Item.pathsCompose`).
-/

namespace JsonCollections

/-! ## One step -/

/-- The value under a key; what is no object has none. -/
def Json.child? (v : Json) (key : String) : Option Json := v.fields?.bind (Entries.get? · key)

namespace Item

/-! ## All steps -/

/-- The first key is looked up in the item, and every other key in the value before it. -/
theorem valueAt?_cons (item : Item) (key : String) (rest : List String) :
    item.valueAt? (key :: rest) = (item.get? key).bind (rest.foldlM Json.child?) := by
  induction rest generalizing item key with
  | nil => exact (Option.bind_fun_some (item.get? key)).symm
  | cons next rest ih =>
    -- the equation for a path that goes on; that it does is the second goal
    rw [valueAt?]
    · cases item.get? key with
      | none => rfl
      | some v =>
        rw [Option.bind_some, List.foldlM_cons]
        cases v with
        | object inner => exact ih inner next
        | null | bool | number | string | array => rfl
    · exact nofun

/-- Steps from a value are a path into the object that it is. -/
theorem foldlM_child? (v : Json) {path : List String} (h : path ≠ []) :
    path.foldlM Json.child? v = v.fields?.bind (valueAt? · path) := by
  obtain ⟨key, rest, rfl⟩ := List.exists_cons_of_ne_nil h
  rw [List.foldlM_cons, Json.child?]
  cases v.fields? with
  | none => rfl
  | some inner => exact (valueAt?_cons inner key rest).symm

/-! ## Composition -/

theorem valueAt?_append (item : Item) {p q : List String} (hp : p ≠ []) (hq : q ≠ []) :
    item.valueAt? (p ++ q) = ((item.valueAt? p).bind Json.fields?).bind (valueAt? · q) := by
  obtain ⟨key, rest, rfl⟩ := List.exists_cons_of_ne_nil hp
  rw [List.cons_append, valueAt?_cons, valueAt?_cons]
  cases item.get? key with
  | none => rfl
  | some v =>
    rw [Option.bind_some, Option.bind_some, List.foldlM_append]
    cases rest.foldlM Json.child? v with
    | none => rfl
    | some w => exact foldlM_child? w hq

/-- A path that goes on leads on from the object that its beginning leads to. -/
theorem valueAt?_append_eq_some_iff {item : Item} {p q : List String} (hp : p ≠ []) (hq : q ≠ [])
    {v : Json} : item.valueAt? (p ++ q) = some v ↔
      ∃ inner : Item, item.valueAt? p = some (.object inner) ∧ inner.valueAt? q = some v := by
  simp only [valueAt?_append item hp hq, Option.bind_eq_some_iff, Json.fields?_eq_some_iff,
    exists_eq_right]

/-- Where the paths of an item lead. -/
structure PathsCompose (item : Item) : Prop where
  /-- a path that goes on leads where its end leads from the object at its beginning -/
  composed : ∀ p q, p ≠ [] → q ≠ [] → ∀ v, item.valueAt? (p ++ q) = some v ↔
    ∃ inner : Item, item.valueAt? p = some (.object inner) ∧ inner.valueAt? q = some v
  /-- from what is no object no path goes on -/
  ended : ∀ p v, item.valueAt? p = some v → v.kind ≠ .object →
    ∀ q, q ≠ [] → item.valueAt? (p ++ q) = none
  /-- a path that leads somewhere has objects on its way -/
  enclosed : ∀ path v, item.valueAt? path = some v →
    ∀ p, p <+: path → p ≠ [] → p ≠ path → ∃ inner : Item, item.valueAt? p = some (.object inner)
  /-- where a path leads nowhere no condition is met, whatever its operator -/
  unmet : ∀ path, item.valueAt? path = none → ∀ condition, ¬ item.Meets path condition

/-- The paths of every item compose, through objects only. -/
theorem pathsCompose (item : Item) : item.PathsCompose where
  composed p q hp hq v := valueAt?_append_eq_some_iff hp hq
  ended p v hv hkind q hq := by
    have hp : p ≠ [] := by
      rintro rfl
      cases hv
    refine Option.eq_none_iff_forall_ne_some.mpr fun w hw => ?_
    obtain ⟨inner, hinner, -⟩ := (valueAt?_append_eq_some_iff hp hq).mp hw
    cases hv.symm.trans hinner
    exact hkind rfl
  enclosed path v hv p hprefix hp hne := by
    obtain ⟨q, rfl⟩ := hprefix
    have hq : q ≠ [] := by
      rintro rfl
      exact hne p.append_nil.symm
    obtain ⟨inner, hinner, -⟩ := (valueAt?_append_eq_some_iff hp hq).mp hv
    exact ⟨inner, hinner⟩
  unmet path hnone condition hmeets := by
    obtain ⟨v, hv, -⟩ := meets_iff.mp hmeets
    cases hnone.symm.trans hv

/-- No path leads into an array, so not even `neq` is met there. -/
example : Clause.matchesItem ⟨["tags", "0"], .equality .neq .null⟩
    [("tags", .array [.string "new"])] = false := rfl

end Item

end JsonCollections
