import JsonCollections.Collection.Item
import JsonCollections.Proofs.Number.Order

set_option autoImplicit false

/-!
# Ids that are read exactly

An id is a word in integer form, or it is cast from a double.  The cast would cut a fraction off and
move what is out of range to the nearest word, so the conditions before it must leave neither to be
done.  The last of them compares with the greatest id as a double, which is no id itself: it is
rounded up to `2 ^ 64` (`ItemId.scaled_ceiling`).  So every double that is cast keeps its value
(`Double.isId_iff`), and the id of an item is the exact value of its number (`Item.readsIds`).
-/

namespace JsonCollections

/-! ## Casting doubles -/

/-- The greatest id is no double, and the nearest one is above all ids. -/
theorem ItemId.scaled_ceiling : ItemId.ceiling.scaled = (ItemId.bound : Int) * Double.unit := by
  decide +kernel

namespace Double

/-- What is in range is not moved. -/
theorem toNat_toWord {x : Double} (hlow : 0 ≤ x.truncated) (hhigh : x.truncated < ItemId.bound) :
    (x.toWord.toNat : Int) = x.truncated := by
  have hsize : UInt64.size = ItemId.bound := rfl
  have hlt : min x.truncated.toNat (UInt64.size - 1) < UInt64.size := by omega
  rw [toWord, UInt64.toNat_ofNat_of_lt' hlt]
  omega

/-- What is cast is integral and in range. -/
theorem isId_iff {x : Double} : x.isId = true ↔
    x.truncated * unit = x.scaled ∧ 0 ≤ x.truncated ∧ x.truncated < ItemId.bound := by
  have hunit := natCast_unit_pos
  rw [isId, Bool.and_eq_true, Bool.and_eq_true, isIntegral_iff, le, lt, decide_eq_true_iff,
    decide_eq_true_iff, scaled_zero, ItemId.scaled_ceiling]
  constructor
  · rintro ⟨⟨hlow, hvalue⟩, hhigh⟩
    rw [← hvalue] at hlow hhigh
    exact ⟨hvalue, Int.nonneg_of_mul_nonneg_left hlow hunit,
      Int.lt_of_mul_lt_mul_right hhigh (Int.le_of_lt hunit)⟩
  · rintro ⟨hvalue, hlow, hhigh⟩
    rw [← hvalue]
    exact ⟨⟨Int.mul_nonneg hlow (Int.le_of_lt hunit), rfl⟩,
      Int.mul_lt_mul_of_pos_right hhigh hunit⟩

theorem itemId?_eq_some_iff {x : Double} {k : ItemId} :
    x.itemId? = some k ↔ x.scaled = (k : Int) * unit ∧ k < ItemId.bound := by
  have hcast : x.itemId? = some k ↔ x.isId = true ∧ x.toWord.toNat = k := by
    unfold itemId?
    split
    · rename_i hid
      rw [Option.some.injEq, and_iff_right hid]
    · rename_i hid
      exact ⟨nofun, fun h => absurd h.1 hid⟩
  rw [hcast]
  constructor
  · rintro ⟨hid, rfl⟩
    obtain ⟨hvalue, hlow, hhigh⟩ := isId_iff.mp hid
    have hword := toNat_toWord hlow hhigh
    rw [hword, hvalue]
    exact ⟨rfl, Int.ofNat_lt.mp (hword ▸ hhigh)⟩
  · rintro ⟨hvalue, hk⟩
    have htruncated : x.truncated = k := truncated_of_scaled hvalue
    have hwhole : x.truncated * unit = x.scaled := by rw [htruncated, hvalue]
    have hlow : 0 ≤ x.truncated := htruncated ▸ Int.natCast_nonneg k
    have hhigh : x.truncated < ItemId.bound := htruncated ▸ Int.ofNat_lt.mpr hk
    exact ⟨isId_iff.mpr ⟨hwhole, hlow, hhigh⟩,
      Int.ofNat_inj.mp ((toNat_toWord hlow hhigh).trans htruncated)⟩

end Double

/-! ## Ids of numbers -/

namespace Json.Number

/-- A negative integer stays negative when it is rounded, so it is no id. -/
theorem itemId?_toDouble_of_neg {i : Int} (hi : i < 0)
    (inRange : -0x8000000000000000 ≤ i ∧ i < 0x10000000000000000) :
    (integer i inRange).toDouble.itemId? = none := by
  have hunit := Double.natCast_unit_pos
  obtain ⟨below, hbelow⟩ := @Double.exists_scaled_eq (-1) (by decide)
  have hle : (integer i inRange).scaled ≤ below.scaled := by
    rw [hbelow]
    exact Int.mul_le_mul_of_nonneg_right (by omega) (Int.le_of_lt hunit)
  have hround := toDouble_le hle
  rw [hbelow] at hround
  refine Option.eq_none_iff_forall_ne_some.mpr fun k hk => ?_
  obtain ⟨hvalue, -⟩ := Double.itemId?_eq_some_iff.mp hk
  have hpos : 0 ≤ (k : Int) * Double.unit :=
    Int.mul_nonneg (Int.natCast_nonneg k) (Int.le_of_lt hunit)
  omega

/-- A number is an id if its exact value is. -/
theorem itemId?_eq_some_iff {n : Json.Number} {k : ItemId} :
    n.itemId? = some k ↔ n.scaled = (k : Int) * Double.unit ∧ k < ItemId.bound := by
  cases n with
  | double x => exact Double.itemId?_eq_some_iff
  | integer i inRange =>
    rw [scaled, Int.mul_eq_mul_right_iff (Int.ne_of_gt Double.natCast_unit_pos)]
    by_cases hpos : 0 ≤ i
    · obtain ⟨m, rfl⟩ := Int.eq_ofNat_of_zero_le hpos
      have hword : (integer m inRange).itemId? = some m := by
        rw [itemId?, word?, if_pos hpos, Int.toNat_natCast]
      rw [hword, Option.some.injEq, Int.natCast_inj]
      exact ⟨fun h => ⟨h, h ▸ Int.ofNat_lt.mp inRange.2⟩, And.left⟩
    · have hnone : (integer i inRange).itemId? = none := by
        rw [itemId?, word?, if_neg hpos]
        exact itemId?_toDouble_of_neg (Int.not_le.mp hpos) inRange
      rw [hnone]
      refine ⟨nofun, ?_⟩
      rintro ⟨rfl, -⟩
      exact absurd (Int.natCast_nonneg k) hpos

end Json.Number

/-! ## Ids of items -/

namespace Item

theorem id?_eq_some_iff {item : Item} {k : ItemId} : item.id? = some k ↔
    ∃ n, item.get? idKey = some (.number n) ∧ n.scaled = (k : Int) * Double.unit ∧
      k < ItemId.bound := by
  unfold id?
  split
  · rename_i n hn
    rw [Json.Number.itemId?_eq_some_iff]
    simp [hn]
  · rename_i hnone
    exact ⟨nofun, fun ⟨n, hn, _⟩ => absurd hn (hnone n)⟩

/-- A text is an id if the exact value of the double that it stands for is. -/
theorem numericId?_eq_some_iff_of_string {item : Item} {s : String}
    (hs : item.get? idKey = some (.string s)) {k : ItemId} : item.numericId? = some k ↔
      ∃ x, Double.ofText? s.toList = some x ∧ x.scaled = (k : Int) * Double.unit ∧
        k < ItemId.bound := by
  have hread : item.numericId? = (Double.ofText? s.toList).bind Double.itemId? := by
    rw [numericId?, hs]
  rw [hread, Option.bind_eq_some_iff]
  exact exists_congr fun x => and_congr_right fun _ => Double.itemId?_eq_some_iff

/-- How the ids of an item are read: by exact value. -/
structure ReadsIds (item : Item) : Prop where
  /-- the id is the value of the number under `id`, in either form, if that is an integer in range -/
  id?_iff : ∀ k, item.id? = some k ↔ ∃ n, item.get? idKey = some (.number n) ∧
    n.scaled = (k : Int) * Double.unit ∧ k < ItemId.bound
  /-- and there is none otherwise -/
  id?_none_iff : item.id? = none ↔ ∀ n, item.get? idKey = some (.number n) →
    ∀ k : ItemId, k < ItemId.bound → n.scaled ≠ (k : Int) * Double.unit
  /-- a double that is cast to an id loses no fraction and is not moved into range -/
  cast : ∀ x : Double, x.isId = true →
    x.truncated * Double.unit = x.scaled ∧ (x.toWord.toNat : Int) = x.truncated
  /-- the numeric id is the id if there is one -/
  numericId?_eq : ∀ k, item.id? = some k → item.numericId? = some k
  /-- and it is the value of the double that a text under `id` stands for, if that is one -/
  numericId?_iff : ∀ s, item.get? idKey = some (.string s) → ∀ k, item.numericId? = some k ↔
    ∃ x, Double.ofText? s.toList = some x ∧ x.scaled = (k : Int) * Double.unit ∧ k < ItemId.bound

/-- The ids of every item are read exactly. -/
theorem readsIds (item : Item) : item.ReadsIds where
  id?_iff _ := id?_eq_some_iff
  id?_none_iff := by
    rw [Option.eq_none_iff_forall_ne_some]
    constructor
    · intro hnone n hn k hk hvalue
      exact hnone k (id?_eq_some_iff.mpr ⟨n, hn, hvalue, hk⟩)
    · intro hother k hid
      obtain ⟨n, hn, hvalue, hk⟩ := id?_eq_some_iff.mp hid
      exact hother n hn k hk hvalue
  cast x hid := by
    obtain ⟨hvalue, hlow, hhigh⟩ := Double.isId_iff.mp hid
    exact ⟨hvalue, Double.toNat_toWord hlow hhigh⟩
  numericId?_eq _ := numericId?_of_id?
  numericId?_iff _ hs _ := numericId?_eq_some_iff_of_string hs

/-- The greatest id is one as an integer, and is not one as a double. -/
example : id? [(idKey, .number (.ofNat (2 ^ 64 - 1)))] = some (2 ^ 64 - 1) ∧
    id? [(idKey, .number (.double ItemId.ceiling))] = none := by decide +kernel

end Item

end JsonCollections
