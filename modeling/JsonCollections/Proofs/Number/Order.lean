import JsonCollections.Proofs.Number.Operand
import JsonCollections.Proofs.Number.Shortest

set_option autoImplicit false

/-!
# Rounding keeps the order

A magnitude is rounded on the grid of the doubles around it.  A double that is not on this grid is
smaller than all that is rounded there, so rounding never takes a number past a double
(`Double.ofInt?_order`).  Numbers therefore compare with doubles as their nearest
doubles do, except that a number beside a double may become equal to it; integers up to `2 ^ 53` are
doubles, and stay apart (`Json.Number.scaled_toDouble_eq_iff`).
-/

namespace JsonCollections

namespace Double

/-! ## Quotients -/

theorem le_roundDiv {q num den : Nat} (hden : 0 < den) (h : q * den ≤ num) :
    q ≤ roundDiv num den := by
  have hfloor : q ≤ num / den := (Nat.le_div_iff_mul_le hden).mpr h
  simp only [roundDiv]
  split
  · exact hfloor
  · split <;> omega

theorem roundDiv_le {q num den : Nat} (hden : 0 < den) (h : num ≤ q * den) :
    roundDiv num den ≤ q := by
  rcases Nat.eq_or_lt_of_le h with heq | hlt
  · rw [heq, roundDiv_mul_self q den hden]
  · have hfloor : num / den < q := (Nat.div_lt_iff_lt_mul hden).mpr hlt
    simp only [roundDiv]
    split
    · exact Nat.le_of_lt hfloor
    · split <;> omega

/-! ## The grid around a magnitude -/

/-- The shift of the doubles around a magnitude. -/
def gridShift (n : Nat) : Nat := n.log2 - 52

theorem le_grid (n : Nat) : n ≤ 2 ^ 53 * 2 ^ gridShift n := by
  have hexponent : n.log2 + 1 ≤ 53 + gridShift n := by
    unfold gridShift
    omega
  calc n ≤ 2 ^ (n.log2 + 1) := Nat.le_of_lt Nat.lt_log2_self
    _ ≤ 2 ^ (53 + gridShift n) := Nat.pow_le_pow_right (by decide) hexponent
    _ = 2 ^ 53 * 2 ^ gridShift n := Nat.pow_add _ _ _

theorem grid_le {n : Nat} (h : gridShift n ≠ 0) : 2 ^ 52 * 2 ^ gridShift n ≤ n := by
  have hlog : n.log2 = 52 + gridShift n := by
    unfold gridShift at h ⊢
    omega
  have hn : n ≠ 0 := by
    rintro rfl
    exact h rfl
  rw [← Nat.pow_add, ← hlog]
  exact Nat.log2_self_le hn

/-- A double is on the grid, or it is at most as great as the least number that is rounded there. -/
theorem magnitude_grid (y : Double) (e : Nat) :
    (∃ q, y.magnitude = q * 2 ^ e) ∨ e ≠ 0 ∧ y.magnitude ≤ 2 ^ 52 * 2 ^ e := by
  rcases Nat.lt_or_ge y.shift e with hlow | hhigh
  · refine .inr ⟨Nat.ne_zero_of_lt hlow, ?_⟩
    have hexponent : 53 + (e - 1) = 52 + e := by omega
    calc y.magnitude ≤ 2 ^ 53 * 2 ^ (e - 1) := magnitude_le (Nat.le_sub_one_of_lt hlow)
      _ = 2 ^ 52 * 2 ^ e := by rw [← Nat.pow_add, ← Nat.pow_add, hexponent]
  · refine .inl ⟨y.significand * 2 ^ (y.shift - e), ?_⟩
    rw [magnitude, Nat.shiftLeft_eq, Nat.mul_assoc, ← Nat.pow_add, Nat.sub_add_cancel hhigh]

/-! ## The nearest double -/

theorem parts_of_ofParts? {negative : Bool} {significand shift : Nat} {x : Double}
    (h : ofParts? negative significand shift = some x) :
    x.negative = negative ∧ x.magnitude = significand * 2 ^ shift := by
  unfold ofParts? at h
  split at h
  · cases h
    exact ⟨rfl, Nat.shiftLeft_eq _ _⟩
  · cases h

/-- A magnitude is rounded on its grid; the end of the grid is the first number on the next one. -/
theorem nearest?_one (negative : Bool) (num : Nat) : nearest? negative num 1 =
    if roundDiv num (2 ^ gridShift num) < 2 ^ 53 then
      ofParts? negative (roundDiv num (2 ^ gridShift num)) (gridShift num)
    else ofParts? negative (2 ^ 52) (gridShift num + 1) := by
  simp only [nearest?, Nat.div_one, Nat.one_shiftLeft]
  rfl

/-- The nearest double is the nearest number on the grid. -/
theorem parts_of_nearest? {negative : Bool} {num : Nat} {x : Double}
    (h : nearest? negative num 1 = some x) : x.negative = negative ∧
      x.magnitude = roundDiv num (2 ^ gridShift num) * 2 ^ gridShift num := by
  have hround : roundDiv num (2 ^ gridShift num) ≤ 2 ^ 53 :=
    roundDiv_le (Nat.two_pow_pos _) (le_grid num)
  rw [nearest?_one] at h
  split at h
  · exact parts_of_ofParts? h
  · rename_i hfull
    obtain ⟨hsign, hx⟩ := parts_of_ofParts? h
    have hpower : roundDiv num (2 ^ gridShift num) = 2 ^ 53 :=
      Nat.le_antisymm hround (Nat.not_lt.mp hfull)
    refine ⟨hsign, ?_⟩
    rw [hx, hpower, ← Nat.pow_add, ← Nat.pow_add, Nat.add_comm (gridShift num), ← Nat.add_assoc]

/-- A number on its grid is not rounded. -/
theorem magnitude_of_dvd {negative : Bool} {num : Nat} {x : Double}
    (h : nearest? negative num 1 = some x) (hdvd : 2 ^ gridShift num ∣ num) :
    x.magnitude = num := by
  obtain ⟨q, hq⟩ := hdvd
  have hpos : 0 < 2 ^ gridShift num := Nat.two_pow_pos _
  rw [(parts_of_nearest? h).2]
  generalize 2 ^ gridShift num = step at hq hpos ⊢
  rw [hq, Nat.mul_comm step q, roundDiv_mul_self q step hpos]

theorem le_magnitude_of_nearest? {negative : Bool} {num : Nat} {x y : Double}
    (h : nearest? negative num 1 = some x) (hy : y.magnitude ≤ num) :
    y.magnitude ≤ x.magnitude := by
  have hpos : 0 < 2 ^ gridShift num := Nat.two_pow_pos _
  rw [(parts_of_nearest? h).2]
  rcases y.magnitude_grid (gridShift num) with ⟨q, hq⟩ | ⟨hshift, hbelow⟩
  · rw [hq] at hy ⊢
    exact Nat.mul_le_mul_right _ (le_roundDiv hpos hy)
  · exact hbelow.trans (Nat.mul_le_mul_right _ (le_roundDiv hpos (grid_le hshift)))

theorem magnitude_le_of_nearest? {negative : Bool} {num : Nat} {x y : Double}
    (h : nearest? negative num 1 = some x) (hy : num ≤ y.magnitude) :
    x.magnitude ≤ y.magnitude := by
  have hpos : 0 < 2 ^ gridShift num := Nat.two_pow_pos _
  rw [(parts_of_nearest? h).2]
  rcases y.magnitude_grid (gridShift num) with ⟨q, hq⟩ | ⟨hshift, hbelow⟩
  · rw [hq] at hy ⊢
    exact Nat.mul_le_mul_right _ (roundDiv_le hpos hy)
  · calc roundDiv num (2 ^ gridShift num) * 2 ^ gridShift num
        ≤ 2 ^ 52 * 2 ^ gridShift num :=
          Nat.mul_le_mul_right _ (roundDiv_le hpos (hy.trans hbelow))
      _ ≤ num := grid_le hshift
      _ ≤ y.magnitude := hy

/-- Numbers that are not too large have a nearest double. -/
theorem exists_nearest? (negative : Bool) {num : Nat} (h : gridShift num < 2045) :
    ∃ x, nearest? negative num 1 = some x := by
  rw [nearest?_one]
  split
  · rename_i hlt
    have hcanonical : gridShift num = 0 ∨ 2 ^ 52 ≤ roundDiv num (2 ^ gridShift num) :=
      or_iff_not_imp_left.mpr fun hshift => le_roundDiv (Nat.two_pow_pos _) (grid_le hshift)
    exact ⟨_, dif_pos ⟨hlt, Nat.le_of_lt h, hcanonical⟩⟩
  · exact ⟨_, dif_pos ⟨by decide, h, .inr (Nat.le_refl _)⟩⟩

/-! ## Integers -/

theorem intCast_mul_unit (i : Int) : i * unit =
    if i < 0 then -((i.natAbs * unit : Nat) : Int) else (i.natAbs * unit : Nat) := by
  split
  · rename_i hneg
    rw [Int.natCast_mul, Int.ofNat_natAbs_of_nonpos (Int.le_of_lt hneg), Int.neg_mul, Int.neg_neg]
  · rename_i hpos
    rw [Int.natCast_mul, Int.natAbs_of_nonneg (Int.not_lt.mp hpos)]

theorem scaled_of_ofInt? {i : Int} {x : Double} (h : ofInt? i = some x) :
    x.scaled = if i < 0 then -(x.magnitude : Int) else x.magnitude := by
  simp only [scaled, (parts_of_nearest? h).1, decide_eq_true_eq]

theorem scaled_eq_or (x : Double) : x.scaled = x.magnitude ∨ x.scaled = -(x.magnitude : Int) := by
  unfold scaled
  split
  · exact .inr rfl
  · exact .inl rfl

/-- Between an integer and the double nearest to it there is no other double. -/
theorem ofInt?_order {i : Int} {x : Double} (h : ofInt? i = some x) (y : Double) :
    (y.scaled ≤ i * unit → y.scaled ≤ x.scaled) ∧ (i * unit ≤ y.scaled → x.scaled ≤ y.scaled) := by
  have hbelow : y.magnitude ≤ i.natAbs * unit → y.magnitude ≤ x.magnitude :=
    le_magnitude_of_nearest? h
  have habove : i.natAbs * unit ≤ y.magnitude → x.magnitude ≤ y.magnitude :=
    magnitude_le_of_nearest? h
  rw [intCast_mul_unit, scaled_of_ofInt? h]
  rcases y.scaled_eq_or with hscaled | hscaled <;> rw [hscaled] <;> constructor <;> omega

/-- The grid of an integer is not finer than that of units, nor coarser by more than its length. -/
theorem gridShift_mul_unit_le {m k : Nat} (hm : m < 2 ^ (53 + k)) : gridShift (m * unit) ≤
    fractionBits + k := by
  have hunit : unit = 2 ^ fractionBits := Nat.one_shiftLeft _
  by_cases hzero : m * unit = 0
  · rw [hzero]
    exact Nat.zero_le _
  · have hlt : m * unit < 2 ^ (53 + k + fractionBits) := by
      rw [hunit, Nat.pow_add]
      exact Nat.mul_lt_mul_of_pos_right hm (Nat.two_pow_pos _)
    have hlog := (Nat.log2_lt hzero).mpr hlt
    unfold gridShift
    omega

/-- Every integer of 64 bits has a nearest double. -/
theorem exists_ofInt? {i : Int} (hi : i.natAbs < 2 ^ 65) : ∃ x, ofInt? i = some x := by
  have hshift : gridShift (i.natAbs * unit) ≤ fractionBits + 12 := gridShift_mul_unit_le hi
  exact exists_nearest? _ (Nat.lt_of_le_of_lt hshift (by decide))

/-- Integers up to `2 ^ 53` are doubles. -/
theorem exists_scaled_eq {i : Int} (hi : i.natAbs ≤ 2 ^ 53) : ∃ x : Double, x.scaled = i * unit := by
  have hunit : unit = 2 ^ fractionBits := Nat.one_shiftLeft _
  obtain ⟨x, hx⟩ := @exists_ofInt? i (Nat.lt_of_le_of_lt hi (by decide))
  have hdvd : 2 ^ gridShift (i.natAbs * unit) ∣ i.natAbs * unit := by
    rcases Nat.eq_or_lt_of_le hi with heq | hlt
    · -- the grid of `2 ^ 53` is coarser than that of units, and begins with it
      have hshift : gridShift (i.natAbs * unit) ≤ fractionBits + 1 :=
        gridShift_mul_unit_le (Nat.lt_of_le_of_lt hi (by decide))
      have hpower : i.natAbs * unit = 2 ^ (53 + fractionBits) := by
        rw [heq, hunit, Nat.pow_add 2 53 fractionBits]
      rw [hpower] at hshift ⊢
      exact Nat.pow_dvd_pow 2 (hshift.trans (by decide))
    · have hshift : gridShift (i.natAbs * unit) ≤ fractionBits := @gridShift_mul_unit_le _ 0 hlt
      rw [hunit] at hshift ⊢
      exact (Nat.pow_dvd_pow 2 hshift).trans (Nat.dvd_mul_left _ _)
  refine ⟨x, ?_⟩
  rw [scaled_of_ofInt? hx, magnitude_of_dvd hx hdvd, ← intCast_mul_unit]

end Double

namespace Json.Number

/-! ## Numbers and their nearest doubles -/

/-- The double of an integer is the one nearest to it. -/
theorem exists_toDouble (i : Int)
    (inRange : -0x8000000000000000 ≤ i ∧ i < 0x10000000000000000) :
    ∃ x, Double.ofInt? i = some x ∧ (integer i inRange).toDouble = x := by
  obtain ⟨x, hx⟩ := @Double.exists_ofInt? i (by omega)
  exact ⟨x, hx, by rw [toDouble, hx, Option.getD_some]⟩

/-- A double that is at most a number is at most the double nearest to it. -/
theorem le_toDouble {n : Number} {x : Double} (h : x.scaled ≤ n.scaled) :
    x.scaled ≤ n.toDouble.scaled := by
  cases n with
  | integer i inRange =>
    obtain ⟨y, hy, hdouble⟩ := exists_toDouble i inRange
    rw [hdouble]
    exact (Double.ofInt?_order hy x).1 h
  | double y => exact h

/-- A double that is at least a number is at least the double nearest to it. -/
theorem toDouble_le {n : Number} {x : Double} (h : n.scaled ≤ x.scaled) :
    n.toDouble.scaled ≤ x.scaled := by
  cases n with
  | integer i inRange =>
    obtain ⟨y, hy, hdouble⟩ := exists_toDouble i inRange
    rw [hdouble]
    exact (Double.ofInt?_order hy x).2 h
  | double y => exact h

/-- A number that is a double is its own nearest double. -/
theorem scaled_toDouble_of_eq {n : Number} {x : Double} (h : n.scaled = x.scaled) :
    n.toDouble.scaled = x.scaled :=
  Int.le_antisymm (toDouble_le (Int.le_of_eq h)) (le_toDouble (Int.le_of_eq h.symm))

/-- No number other than an integer below `2 ^ 53` itself is rounded to it. -/
theorem scaled_toDouble_eq_iff {n : Number} {i : Int} (hi : i.natAbs < 2 ^ 53) :
    n.toDouble.scaled = i * Double.unit ↔ n.scaled = i * Double.unit := by
  constructor
  · cases n with
    | double x => exact id
    | integer j inRange =>
      have hunit := Double.natCast_unit_pos
      obtain ⟨below, hbelow⟩ := @Double.exists_scaled_eq (i - 1) (by omega)
      obtain ⟨above, habove⟩ := @Double.exists_scaled_eq (i + 1) (by omega)
      intro h
      -- the integers beside it are doubles, and no other integer is rounded past them
      rcases Int.lt_trichotomy j i with hlt | heq | hgt
      · have hle : (integer j inRange).scaled ≤ below.scaled := by
          rw [hbelow]
          exact Int.mul_le_mul_of_nonneg_right (by omega) (Int.le_of_lt hunit)
        have hround := toDouble_le hle
        rw [h, hbelow, Int.sub_mul] at hround
        omega
      · exact congrArg (· * (Double.unit : Int)) heq
      · have hle : above.scaled ≤ (integer j inRange).scaled := by
          rw [habove]
          exact Int.mul_le_mul_of_nonneg_right (by omega) (Int.le_of_lt hunit)
        have hround := le_toDouble hle
        rw [h, habove, Int.add_mul] at hround
        omega
  · intro h
    obtain ⟨x, hx⟩ := @Double.exists_scaled_eq i (Nat.le_of_lt hi)
    rw [← hx] at h ⊢
    exact scaled_toDouble_of_eq h

end Json.Number

end JsonCollections
