import JsonCollections.Number.Decimal
import Mathlib.Tactic.NormNum
import Mathlib.Tactic.Ring

set_option autoImplicit false

/-!
# Rounding: what the nearest double depends on

`Double.nearest?` sees only the quotient of its two numbers, and it returns a double whose
magnitude it is given.  For decimals this means that `Decimal.toDouble?` sees only the value: zeros
may be moved between the digits and the exponent (`toDouble?_scale`).
-/

namespace JsonCollections

namespace Double

theorem roundDiv_mul_mul {k : Nat} (hk : 0 < k) (num den : Nat) :
    roundDiv (k * num) (k * den) = roundDiv num den := by
  have hlt : ∀ a b : Nat, 2 * (k * a) < k * b ↔ 2 * a < b := by
    intro a b
    rw [Nat.mul_left_comm]
    exact Nat.mul_lt_mul_left hk
  have hgt : ∀ a b : Nat, k * b < 2 * (k * a) ↔ b < 2 * a := by
    intro a b
    rw [Nat.mul_left_comm]
    exact Nat.mul_lt_mul_left hk
  unfold roundDiv
  rw [Nat.mul_div_mul_left _ _ hk, Nat.mul_mod_mul_left]
  simp only [hlt, hgt]

/-- The nearest double depends on the quotient only. -/
theorem nearest?_mul_mul {k : Nat} (hk : 0 < k) (negative : Bool) (num den : Nat) :
    nearest? negative (k * num) (k * den) = nearest? negative num den := by
  unfold nearest?
  rw [Nat.mul_div_mul_left _ _ hk]
  simp only [Nat.shiftLeft_eq, Nat.mul_assoc, roundDiv_mul_mul hk]

/-- The shift of a double is read off the length of its magnitude. -/
theorem log2_magnitude (x : Double) : x.magnitude.log2 - 52 = x.shift := by
  have hlt : x.significand < 2 ^ 53 := by
    simpa [Nat.one_shiftLeft] using x.significand_lt
  rw [magnitude, Nat.shiftLeft_eq]
  rcases x.canonical with hshift | hfull
  · rw [hshift, Nat.pow_zero, Nat.mul_one]
    by_cases hzero : x.significand = 0
    · simp [hzero]
    · have := (Nat.log2_lt hzero).mpr hlt
      omega
  · have hge : 2 ^ 52 ≤ x.significand := by
      simpa [Nat.one_shiftLeft] using hfull
    have hpow : 0 < 2 ^ x.shift := Nat.two_pow_pos _
    have hne : x.significand * 2 ^ x.shift ≠ 0 :=
      Nat.mul_ne_zero (by omega) (Nat.ne_of_gt hpow)
    have hlog : (x.significand * 2 ^ x.shift).log2 = 52 + x.shift := by
      rw [Nat.log2_eq_iff hne]
      constructor
      · rw [Nat.pow_add]
        exact Nat.mul_le_mul_right _ hge
      · rw [Nat.add_right_comm, Nat.pow_add]
        exact Nat.mul_lt_mul_of_pos_right hlt hpow
    omega

/-- A double is the one nearest to its own magnitude. -/
theorem nearest?_magnitude (x : Double) : nearest? x.negative x.magnitude 1 = some x := by
  have hpow : 0 < 2 ^ x.shift := Nat.two_pow_pos _
  have hround : roundDiv x.magnitude (2 ^ x.shift) = x.significand := by
    rw [magnitude, Nat.shiftLeft_eq]
    exact roundDiv_mul_self _ _ hpow
  unfold nearest?
  simp only [Nat.div_one, log2_magnitude, Nat.shiftLeft_eq 1, Nat.one_mul, hround]
  rw [if_pos (by simpa [Nat.one_shiftLeft] using x.significand_lt)]
  exact ofParts?_self x

end Double

namespace Decimal

/-! ## Lengths of digit strings -/

/-- Zeros at the end of a number lengthen it by as many digits. -/
theorem length_toDigits_mul_pow {n : Nat} (hn : n ≠ 0) (k : Nat) :
    (Nat.toDigits 10 (n * 10 ^ k)).length = (Nat.toDigits 10 n).length + k := by
  induction k with
  | zero => simp
  | succ k ih =>
    have hle : 10 ≤ n * 10 ^ (k + 1) := by
      have hpos : 0 < n * 10 ^ k := Nat.mul_pos (Nat.pos_of_ne_zero hn) (Nat.pow_pos (by decide))
      rw [Nat.pow_succ, ← Nat.mul_assoc]
      omega
    have hdiv : n * 10 ^ (k + 1) / 10 = n * 10 ^ k := by
      rw [Nat.pow_succ, ← Nat.mul_assoc]
      exact Nat.mul_div_cancel _ (by decide)
    rw [Nat.toDigits_of_base_le (by decide) hle, hdiv, List.length_append, ih]
    rfl

/-! ## The value alone counts -/

/-- Inside the bounds a decimal is rounded as any quotient of the same value is. -/
theorem toDouble?_eq_nearest? (negative : Bool) (digits : Nat) (exponent : Int) (a b : Nat)
    (hab : (a : Int) - b = exponent) (hd : digits ≠ 0)
    (hlow : ¬330 < ceiling ⟨negative, digits, exponent⟩)
    (hhigh : ¬ceiling ⟨negative, digits, exponent⟩ < -330) :
    toDouble? ⟨negative, digits, exponent⟩ =
      Double.nearest? negative (digits * 10 ^ a * Double.unit) (10 ^ b) := by
  have hten : ∀ k, 0 < 10 ^ k := fun k => Nat.pow_pos (by decide)
  rw [toDouble?, if_neg hd, if_neg hlow, if_neg hhigh]
  cases exponent with
  | ofNat e =>
    have ha : a = e + b := by
      rw [Int.ofNat_eq_natCast] at hab
      omega
    have hnum : digits * 10 ^ a * Double.unit = 10 ^ b * (digits * 10 ^ e * Double.unit) := by
      rw [ha, Nat.pow_add]
      ring
    rw [hnum]
    have := Double.nearest?_mul_mul (hten b) negative (digits * 10 ^ e * Double.unit) 1
    rw [Nat.mul_one] at this
    exact this.symm
  | negSucc e =>
    have hb : b = a + (e + 1) := by omega
    have hnum : digits * 10 ^ a * Double.unit = 10 ^ a * (digits * Double.unit) := by ring
    rw [hnum, hb, Nat.pow_add]
    exact (Double.nearest?_mul_mul (hten a) negative (digits * Double.unit) (10 ^ (e + 1))).symm

/-- Zeros at the end of the digits count as much as in the exponent. -/
theorem toDouble?_scale (negative : Bool) (digits k : Nat) (exponent : Int) :
    toDouble? ⟨negative, digits * 10 ^ k, exponent⟩ =
      toDouble? ⟨negative, digits, exponent + k⟩ := by
  by_cases hd : digits = 0
  · simp [toDouble?, hd]
  have hten : 0 < 10 ^ k := Nat.pow_pos (by decide)
  have hdk : digits * 10 ^ k ≠ 0 := Nat.mul_ne_zero hd (Nat.ne_of_gt hten)
  have hceiling : ceiling ⟨negative, digits * 10 ^ k, exponent⟩ =
      ceiling ⟨negative, digits, exponent + k⟩ := by
    simp only [ceiling, length_toDigits_mul_pow hd]
    omega
  by_cases hlow : 330 < ceiling ⟨negative, digits, exponent + k⟩
  · simp only [toDouble?, hceiling, hd, hdk, hlow, if_true, if_false]
  by_cases hhigh : ceiling ⟨negative, digits, exponent + k⟩ < -330
  · simp only [toDouble?, hceiling, hd, hdk, hlow, hhigh, if_true, if_false]
  -- one quotient for both sides: the exponent is `a - b` on the left, `a + k - b` on the right
  obtain ⟨a, b, hab⟩ : ∃ a b : Nat, (a : Int) - b = exponent :=
    ⟨exponent.toNat, (-exponent).toNat, by omega⟩
  rw [toDouble?_eq_nearest? negative (digits * 10 ^ k) exponent a b hab hdk (hceiling ▸ hlow)
      (hceiling ▸ hhigh),
    toDouble?_eq_nearest? negative digits (exponent + k) (a + k) b (by omega) hd hlow hhigh,
    Nat.pow_add, Nat.mul_assoc digits, Nat.mul_comm (10 ^ k)]

end Decimal

end JsonCollections
