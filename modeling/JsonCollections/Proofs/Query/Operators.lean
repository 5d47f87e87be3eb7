import JsonCollections.Proofs.Number.Order
import JsonCollections.Query.Clause

set_option autoImplicit false

/-!
# Operators that agree with each other

Order and equality are judged apart, but on the same number: the double nearest to the one at the
path, compared by exact value with the operand.  So every number is less than an operand, equal to it
or greater, and `lte`, `gte` and `neq` say what their names promise (`Condition.Ordered`).
Rounding never takes a number past an operand; it can only make a number equal to one beside it.

Values that are no numbers are in no order, and what is no primitive meets nothing
(`Condition.Consistent`).
-/

namespace JsonCollections

/-! ## Meeting a condition -/

namespace Item

/-- The item meets a condition on the value at a path. -/
def Meets (item : Item) (path : List String) (condition : Condition) : Prop :=
  Clause.matchesItem ⟨path, condition⟩ item = true

theorem meets_iff {item : Item} {path : List String} {condition : Condition} :
    item.Meets path condition ↔ ∃ v, item.valueAt? path = some v ∧ condition.holds v = true := by
  unfold Meets Clause.matchesItem
  cases item.valueAt? path with
  | none => simp
  | some v => simp

/-- Only the value at the path counts. -/
theorem meets_of_valueAt? {item : Item} {path : List String} {v : Json}
    (h : item.valueAt? path = some v) (condition : Condition) :
    item.Meets path condition ↔ condition.holds v = true := by
  rw [meets_iff, h]
  simp

end Item

namespace Condition

/-! ## One value -/

theorem holds_of_not_primitive {v : Json} (h : v.kind ≠ .primitive) (c : Condition) :
    c.holds v = false := by
  cases v with
  | object fields => rfl
  | array items => rfl
  | null | bool | number | string => exact absurd rfl h

/-- Of the two equality operators exactly one holds of a primitive. -/
theorem holds_neq {v : Json} (h : v.kind = .primitive) (p : Primitive) :
    (equality .neq p).holds v = !(equality .eq p).holds v := by
  cases v with
  | null | bool | number | string => rfl
  | object fields => cases h
  | array items => cases h

/-- What is no number is in no order with a number, and equals none. -/
theorem holds_of_not_number {v : Json} (h : ∀ n, v ≠ .number n) (x : Double) :
    (∀ op, (comparison op x).holds v = false) ∧ (equality .eq (.number x)).holds v = false := by
  cases v with
  | number n => exact absurd rfl (h n)
  | null | bool | string | object | array => exact ⟨fun _ => rfl, rfl⟩

/-- What the operators say of the number `n` against the operand `x`. -/
structure Ordered (meets : Condition → Prop) (n : Json.Number) (x : Double) : Prop where
  /-- exactly one of `lt`, `eq` and `gt` is met -/
  trichotomy :
    (meets (.comparison .lt x) ∧ ¬ meets (.equality .eq (.number x)) ∧ ¬ meets (.comparison .gt x)) ∨
    (¬ meets (.comparison .lt x) ∧ meets (.equality .eq (.number x)) ∧ ¬ meets (.comparison .gt x)) ∨
    (¬ meets (.comparison .lt x) ∧ ¬ meets (.equality .eq (.number x)) ∧ meets (.comparison .gt x))
  lte_iff : meets (.comparison .lte x) ↔
    meets (.comparison .lt x) ∨ meets (.equality .eq (.number x))
  gte_iff : meets (.comparison .gte x) ↔
    meets (.comparison .gt x) ∨ meets (.equality .eq (.number x))
  neq_iff : meets (.equality .neq (.number x)) ↔ ¬ meets (.equality .eq (.number x))
  /-- the nearest double is compared by exact value -/
  lt_iff : meets (.comparison .lt x) ↔ n.toDouble.scaled < x.scaled
  eq_iff : meets (.equality .eq (.number x)) ↔ n.toDouble.scaled = x.scaled
  gt_iff : meets (.comparison .gt x) ↔ x.scaled < n.toDouble.scaled
  /-- a number that is found to be less or greater is so by its own exact value -/
  lt_of_lt : meets (.comparison .lt x) → n.scaled < x.scaled
  gt_of_gt : meets (.comparison .gt x) → x.scaled < n.scaled
  /-- and one with the value of the operand is found to be equal -/
  eq_of_eq : n.scaled = x.scaled → meets (.equality .eq (.number x))

theorem ordered_holds (n : Json.Number) (x : Double) :
    Ordered (fun c => c.holds (.number n) = true) n x := by
  have hlt : (comparison .lt x).holds (.number n) = true ↔ n.toDouble.scaled < x.scaled :=
    decide_eq_true_iff
  have heq : (equality .eq (.number x)).holds (.number n) = true ↔ n.toDouble.scaled = x.scaled :=
    Double.sameValue_iff _ _
  have hgt : (comparison .gt x).holds (.number n) = true ↔ x.scaled < n.toDouble.scaled :=
    decide_eq_true_iff
  have hlte : (comparison .lte x).holds (.number n) = true ↔ n.toDouble.scaled ≤ x.scaled :=
    decide_eq_true_iff
  have hgte : (comparison .gte x).holds (.number n) = true ↔ x.scaled ≤ n.toDouble.scaled :=
    decide_eq_true_iff
  refine ⟨?_, ?_, ?_, ?_, hlt, heq, hgt, ?_, ?_, ?_⟩
  · rw [hlt, heq, hgt]
    omega
  · rw [hlte, hlt, heq]
    omega
  · rw [hgte, hgt, heq]
    omega
  · rw [holds_neq rfl, Bool.not_eq_true', Bool.not_eq_true]
  · intro hless
    refine Int.not_le.mp fun hge => ?_
    exact absurd (hlt.mp hless) (Int.not_lt.mpr (Json.Number.le_toDouble hge))
  · intro hgreater
    refine Int.not_le.mp fun hle => ?_
    exact absurd (hgt.mp hgreater) (Int.not_lt.mpr (Json.Number.toDouble_le hle))
  · intro hvalue
    exact heq.mpr (Json.Number.scaled_toDouble_of_eq hvalue)

/-- The number after `2 ^ 53` is not less than `2 ^ 53`, nor is it greater: it is rounded to it. -/
example : (equality .eq (.number ((Double.ofInt? (2 ^ 53)).getD default))).holds
    (.number (.ofNat (2 ^ 53 + 1))) = true := by decide +kernel

/-! ## The value at a path -/

/-- What the conditions say of what a path leads to. -/
structure Consistent (meets : Condition → Prop) (found : Option Json) : Prop where
  /-- a number is in order with every operand -/
  number : ∀ {n}, found = some (.number n) → ∀ x, Ordered meets n x
  /-- another primitive differs from every number, and is in no order with it -/
  primitive : ∀ {v}, found = some v → v.kind = .primitive → (∀ n, v ≠ .number n) → ∀ x,
    meets (.equality .neq (.number x)) ∧ ¬ meets (.equality .eq (.number x)) ∧
      ∀ op, ¬ meets (.comparison op x)
  /-- where there is no primitive nothing is met -/
  absent : (∀ v, found = some v → v.kind ≠ .primitive) → ∀ c, ¬ meets c
  /-- a primitive equals an operand of any type or differs from it -/
  operand : ∀ {v}, found = some v → v.kind = .primitive → ∀ p,
    (meets (.equality .eq p) ∧ ¬ meets (.equality .neq p)) ∨
      (¬ meets (.equality .eq p) ∧ meets (.equality .neq p))

/-- For every item and every path the operators agree with each other. -/
theorem consistent_meets (item : Item) (path : List String) :
    Consistent (item.Meets path) (item.valueAt? path) where
  number := by
    intro n hfound x
    have hmeets : item.Meets path = fun c => c.holds (.number n) = true :=
      funext fun c => propext (Item.meets_of_valueAt? hfound c)
    rw [hmeets]
    exact ordered_holds n x
  primitive := by
    intro v hfound hkind hnumber x
    obtain ⟨horder, hequal⟩ := holds_of_not_number hnumber x
    simp only [Item.meets_of_valueAt? hfound, holds_neq hkind, horder, hequal]
    exact ⟨rfl, Bool.false_ne_true, fun _ => Bool.false_ne_true⟩
  absent := by
    intro hfound c hmeets
    obtain ⟨v, hv, hholds⟩ := Item.meets_iff.mp hmeets
    rw [holds_of_not_primitive (hfound v hv)] at hholds
    cases hholds
  operand := by
    intro v hfound hkind p
    simp only [Item.meets_of_valueAt? hfound, holds_neq hkind]
    cases (equality .eq p).holds v <;> simp

end Condition

end JsonCollections
