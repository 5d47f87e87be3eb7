import JsonCollections.Number.Shortest
import JsonCollections.Proofs.Number.Rounding

set_option autoImplicit false

/-!
# Shortest decimals read back

`Double.shortest` answers a decimal that was tried, or the exact expansion if none of those tried
reads back.  Either way rounding it gives the double again (`toDouble?_shortest`).
-/

namespace JsonCollections.Double

/-! ## The exact decimal expansion -/

theorem magnitude_eq_zero_iff (x : Double) : x.magnitude = 0 ↔ x.significand = 0 := by
  simp [magnitude, Nat.shiftLeft_eq]

/-- The magnitude is bounded by the bound of the shift. -/
theorem magnitude_le {x : Double} {e : Nat} (h : x.shift ≤ e) : x.magnitude ≤ 2 ^ 53 * 2 ^ e := by
  have hlt : x.significand < 2 ^ 53 := by
    simpa [Nat.one_shiftLeft] using x.significand_lt
  rw [magnitude, Nat.shiftLeft_eq]
  exact Nat.mul_le_mul (Nat.le_of_lt hlt) (Nat.pow_le_pow_right (by decide) h)

/-- The exact expansion has more than 743 and at most 1383 digits, so it is never judged by its
length. -/
theorem length_exactDecimal {x : Double} (hx : x.magnitude ≠ 0) :
    743 < (Nat.toDigits 10 x.exactDecimal.digits).length ∧
      (Nat.toDigits 10 x.exactDecimal.digits).length ≤ 1383 := by
  have hdigits : x.exactDecimal.digits = x.magnitude * Nat.pow 5 fractionBits := rfl
  constructor
  · rw [← Nat.not_le, Nat.length_toDigits_le_iff (by decide) (by decide), Nat.not_lt, hdigits]
    exact Nat.le_trans (by decide +kernel : 10 ^ 743 ≤ 1 * Nat.pow 5 fractionBits)
      (Nat.mul_le_mul_right _ (Nat.one_le_iff_ne_zero.mpr hx))
  · rw [Nat.length_toDigits_le_iff (by decide) (by decide), hdigits]
    exact Nat.lt_of_le_of_lt (Nat.mul_le_mul_right _ (magnitude_le x.shift_le))
      (by decide +kernel : 2 ^ 53 * 2 ^ 2045 * Nat.pow 5 fractionBits < 10 ^ 1383)

theorem ceiling_exactDecimal {x : Double} (hx : x.magnitude ≠ 0) :
    -330 ≤ x.exactDecimal.ceiling ∧ x.exactDecimal.ceiling ≤ 330 := by
  have hceiling : x.exactDecimal.ceiling =
      (Nat.toDigits 10 x.exactDecimal.digits).length + -(1074 : Int) := rfl
  obtain ⟨hlong, hshort⟩ := length_exactDecimal hx
  omega

/-- The exact decimal expansion of a double reads back. -/
theorem toDouble?_exactDecimal {x : Double} (hx : x.magnitude ≠ 0) :
    x.exactDecimal.toDouble? = some x := by
  obtain ⟨hhigh, hlow⟩ := ceiling_exactDecimal hx
  have hfive : ∀ e : Nat, 0 < Nat.pow 5 e := fun e => Nat.pow_pos (by decide)
  have hten : 0 < 10 ^ fractionBits := Nat.pow_pos (by decide)
  have hd : x.magnitude * Nat.pow 5 fractionBits ≠ 0 :=
    Nat.mul_ne_zero hx (Nat.ne_of_gt (hfive fractionBits))
  -- a power of five and a power of two make the power of ten that the exponent takes away
  have hnum : x.magnitude * Nat.pow 5 fractionBits * 10 ^ 0 * unit =
      10 ^ fractionBits * x.magnitude := by
    rw [unit, Nat.one_shiftLeft, Nat.pow_zero, Nat.mul_one, Nat.mul_assoc, Nat.pow_eq,
      ← Nat.mul_pow, Nat.mul_comm]
  have hscaled := nearest?_mul_mul hten x.negative x.magnitude 1
  rw [Nat.mul_one] at hscaled
  rw [exactDecimal] at hhigh hlow ⊢
  rw [Decimal.toDouble?_eq_nearest? _ _ _ 0 fractionBits (Int.zero_sub _) hd
    (Int.not_lt.mpr hlow) (Int.not_lt.mpr hhigh), hnum, hscaled, nearest?_magnitude]

/-! ## The shortest decimal -/

theorem eq_zero_of_significand {x : Double} (hx : x.significand = 0) : x = zero x.negative := by
  obtain ⟨negative, significand, shift, hlt, hle, hcanonical⟩ := x
  subst hx
  have hshift : shift = 0 := by
    rcases hcanonical with h | h
    · exact h
    · simp [Nat.one_shiftLeft] at h
  subst hshift
  rfl

theorem toDouble?_shortDecimal {x : Double} {d : Decimal} (h : x.shortDecimal? = some d) :
    d.toDouble? = some x := by
  obtain ⟨n, -, hfound⟩ := List.exists_of_findSome?_eq_some h
  simpa using List.find?_some hfound

/-- The shortest decimal of a double reads back. -/
theorem toDouble?_shortest (x : Double) : x.shortest.toDouble? = some x := by
  unfold shortest
  split
  · rename_i hzero
    rw [Decimal.toDouble?, if_pos rfl, ← eq_zero_of_significand hzero]
  · rename_i hpos
    cases hshort : x.shortDecimal? with
    | some d => exact toDouble?_shortDecimal hshort
    | none => exact toDouble?_exactDecimal fun h => hpos ((magnitude_eq_zero_iff x).mp h)

end JsonCollections.Double
