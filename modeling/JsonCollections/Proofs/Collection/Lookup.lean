import JsonCollections.Collection.Basic
import JsonCollections.Proofs.Collection.ExactIds
import JsonCollections.Proofs.Query.Operators
import JsonCollections.Query.Document

set_option autoImplicit false

/-!
# Items looked up and items asked for

An item can be looked up by its id, or asked for with a clause that its id is equal to a number.  The
look-up compares integers, the clause doubles; the ids of items are numbers of any form, and a double
stands for many integers.  Both go by the exact value of what is under `id` (`Item.id?_eq_some_iff`,
`Clause.matchesItem_byId_iff`), so below `2 ^ 53`, where rounding keeps integers apart, they agree.
-/

namespace JsonCollections

/-! ## The clause for an id -/

/-- An id below `2 ^ 53` is a double. -/
theorem Json.Number.scaled_toDouble_ofNat {k : ItemId} (hk : k < 2 ^ 53) :
    (Json.Number.ofNat k).toDouble.scaled = (k : Int) * Double.unit := by
  have hsmall : (k : Int).natAbs < 2 ^ 53 := hk
  have hrange : -0x8000000000000000 ≤ (k : Int) ∧ (k : Int) < 0x10000000000000000 := by omega
  rw [scaled_toDouble_eq_iff hsmall, ofNat, ofInt?_of_inRange hrange]
  rfl

namespace Clause

/-- The clause that the id is the given one. -/
def byId (k : ItemId) : Clause :=
  ⟨[Item.idKey], .equality .eq (.number (Json.Number.ofNat k).toDouble)⟩

theorem ofJson_byId (k : ItemId) :
    ofJson (.array [.array [.string "id"], .string "eq", .number (.ofNat k)]) = .ok (byId k) := by
  have hname : Operator.ofName "eq" = .ok (.equality .eq) := by decide
  simp only [ofJson, hname]
  rfl

/-- An item meets the clause if the exact value under `id` is the id. -/
theorem matchesItem_byId_iff {k : ItemId} (hk : k < 2 ^ 53) {item : Item} :
    (byId k).matchesItem item = true ↔
      ∃ n, item.get? Item.idKey = some (.number n) ∧ n.scaled = (k : Int) * Double.unit := by
  have hsmall : (k : Int).natAbs < 2 ^ 53 := hk
  have hnumber : ∀ n : Json.Number, (Condition.equality .eq
      (.number (Json.Number.ofNat k).toDouble)).holds (.number n) = true ↔
        n.scaled = (k : Int) * Double.unit := by
    intro n
    rw [← Json.Number.scaled_toDouble_eq_iff hsmall, ← Json.Number.scaled_toDouble_ofNat hk]
    exact (Condition.ordered_holds n _).eq_iff
  have hmeets : (byId k).matchesItem item = true ↔ ∃ v, item.get? Item.idKey = some v ∧
      (Condition.equality .eq (.number (Json.Number.ofNat k).toDouble)).holds v = true :=
    Item.meets_iff
  rw [hmeets]
  constructor
  · rintro ⟨v, hv, hholds⟩
    cases v with
    | number n => exact ⟨n, hv, (hnumber n).mp hholds⟩
    | null | bool | string | array | object => cases hholds
  · rintro ⟨n, hn, hvalue⟩
    exact ⟨.number n, hn, (hnumber n).mpr hvalue⟩

/-- Below `2 ^ 53` the clause is met by the items with the id. -/
theorem matchesItem_byId_iff_id? {k : ItemId} (hk : k < 2 ^ 53) {item : Item} :
    (byId k).matchesItem item = true ↔ item.id? = some k := by
  have hbound : k < ItemId.bound := Nat.lt_trans hk (by decide)
  rw [matchesItem_byId_iff hk, Item.id?_eq_some_iff]
  simp only [hbound, and_true]

end Clause

/-! ## Looking up and asking -/

namespace Collection

/-- An id is looked up as it is asked for with a clause. -/
structure AgreesOnId (c : Collection) (k : ItemId) (clause : Clause) : Prop where
  /-- the clause is met by what has the id, and that goes by the exact value of the number under
  `id` -/
  matches_iff : ∀ item : Item, clause.matchesItem item = true ↔ item.id? = some k
  id_iff : ∀ item : Item, item.id? = some k ↔
    ∃ n, item.get? Item.idKey = some (.number n) ∧ n.scaled = (k : Int) * Double.unit
  /-- the clause asks for all items with the id, in stored order -/
  query_eq : c.query { filters := some [[clause]] } = c.items.filter fun item => item.id? = some k
  /-- looking up gives the first of them, and nothing if there is none -/
  find_eq : c.find? k = (c.query { filters := some [[clause]] }).head?
  find_eq_none_iff : c.find? k = none ↔ ∀ item ∈ c.items, item.id? ≠ some k

/-- For every id below `2 ^ 53` looking up and asking agree. -/
theorem agreesOnId (c : Collection) {k : ItemId} (hk : k < 2 ^ 53) :
    ∃ clause, Clause.ofJson (.array [.array [.string "id"], .string "eq", .number (.ofNat k)]) =
      .ok clause ∧ c.AgreesOnId k clause := by
  have hmatches := @Clause.matchesItem_byId_iff_id? k hk
  have hquery : c.query { filters := some [[Clause.byId k]] } =
      c.items.filter fun item => item.id? = some k := by
    refine (List.map_id _).trans (List.filter_congr fun item _ => ?_)
    rw [Bool.eq_iff_iff, decide_eq_true_iff, ← hmatches]
    simp [Query.keeps, Filter.anyMatches, Filter.matchesItem]
  refine ⟨Clause.byId k, Clause.ofJson_byId k, ?_⟩
  exact {
    matches_iff := fun _ => hmatches
    id_iff := fun _ => hmatches.symm.trans (Clause.matchesItem_byId_iff hk)
    query_eq := hquery
    find_eq := by
      simp only [find?, hquery, List.head?_filter, beq_eq_decide]
    find_eq_none_iff := by
      rw [find?, List.find?_eq_none]
      simp only [beq_iff_eq, ne_eq] }

/-- Items of which the first and the last have the id `3`. -/
def tray : Collection where
  filePath := .ofText "data/api/tray.json"
  urlPath := "/api/tray"
  lastId := some (2 ^ 53 + 1)
  maxItems := 1000
  items := [[("id", .number (.double ((Double.ofInt? 3).getD default)))],
    [("id", .string "3")], [("id", .number (.ofNat (2 ^ 53 + 1)))],
    [("id", .number (.integer (-3) (by decide)))], [("id", .number (.ofNat 3)), ("text", .null)]]

/-- The first of them is a double. -/
theorem agreesOnId_tray : 3 < 2 ^ 53 ∧
    (∃ clause, Clause.ofJson (.array [.array [.string "id"], .string "eq", .number (.ofNat 3)]) =
      .ok clause ∧ tray.AgreesOnId 3 clause) ∧
    tray.position? 3 = some 0 ∧ (tray.items.filter fun item => item.id? = some 3).length = 2 :=
  ⟨by decide, tray.agreesOnId (by decide), by decide +kernel, by decide +kernel⟩

/-- From `2 ^ 53` on they part: the clause is met by the next id as well. -/
example : (Clause.byId (2 ^ 53)).matchesItem [("id", .number (.ofNat (2 ^ 53 + 1)))] = true ∧
    Item.id? [("id", .number (.ofNat (2 ^ 53 + 1)))] = some (2 ^ 53 + 1) := by decide +kernel

end Collection

end JsonCollections
