import JsonCollections.Json.Number
import JsonCollections.Proofs.Number.Rounding

set_option autoImplicit false

/-!
# Operands in integer form

The operand of a filter is a double, and it is cast to a signed word if it is integral and in range.
The range ends at the greatest signed word as a double, which is no signed word itself: it is rounded
up to `2 ^ 63` (`Double.scaled_signedCeiling`).  So the cast keeps every value that it is given
(`Double.toInt_toSigned`).  What is read back is the same double, except that a negative zero comes
back as zero (`Json.Number.toDouble_ofOperand`); so it is written in the same way again
(`Json.Number.ofOperand_plain`).
-/

namespace JsonCollections

namespace Double

/-- The double without the sign that zero may have. -/
def plain (x : Double) : Double := if x.scaled = 0 then zero false else x

theorem plain_of_ne_zero {x : Double} (h : x.scaled ≠ 0) : x.plain = x := if_neg h

theorem scaled_plain (x : Double) : x.plain.scaled = x.scaled := by
  unfold plain
  split
  · rename_i hzero
    rw [hzero, scaled_zero]
  · rfl

theorem natAbs_scaled (x : Double) : x.scaled.natAbs = x.magnitude := by
  unfold scaled
  split
  · rw [Int.natAbs_neg, Int.natAbs_natCast]
  · rw [Int.natAbs_natCast]

/-- Unless it is zero, the sign of a double is that of its value. -/
theorem negative_eq {x : Double} (h : x.scaled ≠ 0) : x.negative = decide (x.scaled < 0) := by
  have hpos : 0 < x.magnitude := by
    rw [← natAbs_scaled]
    exact Int.natAbs_pos.mpr h
  unfold scaled
  cases x.negative with
  | true => exact (decide_eq_true (by simp [hpos])).symm
  | false => exact (decide_eq_false (by simp)).symm

/-! ## Integral doubles -/

theorem truncated_of_scaled {x : Double} {i : Int} (h : x.scaled = i * unit) : x.truncated = i := by
  rw [truncated, h, Int.mul_tdiv_cancel i (Int.ne_of_gt natCast_unit_pos)]

theorem magnitude_of_scaled {x : Double} {i : Int} (h : x.scaled = i * unit) :
    x.magnitude = i.natAbs * unit := by
  rw [← natAbs_scaled, h, Int.natAbs_mul, Int.natAbs_natCast]

/-- A double with an integral value is the one nearest to the integer. -/
theorem ofInt?_of_scaled {x : Double} {i : Int} (h : x.scaled = i * unit) :
    ofInt? i = some x.plain := by
  by_cases hzero : x.scaled = 0
  · have hi : i = 0 := by
      rw [hzero] at h
      exact (Int.mul_eq_zero.mp h.symm).resolve_right (Int.ne_of_gt natCast_unit_pos)
    have hplain : x.plain = zero false := if_pos hzero
    rw [hi, hplain]
    exact nearest?_magnitude (zero false)
  · have hnegative : decide (i < 0) = x.negative := by
      rw [negative_eq hzero, h, decide_eq_decide]
      refine ⟨fun h => Int.mul_neg_of_neg_of_pos h natCast_unit_pos, fun h => ?_⟩
      exact Int.lt_of_mul_lt_mul_right ((Int.zero_mul _).symm ▸ h) (Int.le_of_lt natCast_unit_pos)
    rw [ofInt?, ← magnitude_of_scaled h, hnegative, plain_of_ne_zero hzero]
    exact nearest?_magnitude x

/-! ## The cast to a signed word -/

/-- The greatest signed word is no double, and the nearest one is above all signed words. -/
theorem scaled_signedCeiling : signedCeiling.scaled = (2 ^ 63 : Nat) * (unit : Int) := by
  decide +kernel

/-- What is cast is integral and in range. -/
theorem isSigned_iff {x : Double} :
    x.isSigned = true ↔ ∃ i : Int, x.scaled = i * unit ∧ i.natAbs < 2 ^ 63 := by
  have hrange : ∀ {i : Int}, x.scaled = i * unit →
      (x.abs.lt signedCeiling = true ↔ i.natAbs < 2 ^ 63) := by
    intro i hscaled
    rw [lt, decide_eq_true_iff, scaled_abs, magnitude_of_scaled hscaled, scaled_signedCeiling,
      ← Int.natCast_mul, Int.ofNat_lt]
    exact Nat.mul_lt_mul_right unit_pos
  rw [isSigned, Bool.and_eq_true, isIntegral_iff]
  constructor
  · rintro ⟨hvalue, hlt⟩
    exact ⟨x.truncated, hvalue.symm, (hrange hvalue.symm).mp hlt⟩
  · rintro ⟨i, hscaled, hi⟩
    rw [truncated_of_scaled hscaled]
    exact ⟨hscaled.symm, (hrange hscaled).mpr hi⟩

/-- What is in range is not moved. -/
theorem toInt_toSigned {x : Double} {i : Int} (hscaled : x.scaled = i * unit)
    (hi : i.natAbs < 2 ^ 63) : x.toSigned.toInt = i := by
  have hleast : Int64.minValue.toInt = -2 ^ 63 := rfl
  have hgreatest : Int64.maxValue.toInt = 2 ^ 63 - 1 := rfl
  rw [toSigned, truncated_of_scaled hscaled]
  exact Int64.toInt_ofIntClamp (by omega) (by omega)

end Double

namespace Json.Number

/-! ## The form of an operand -/

/-- An integral double in range is written in integer form. -/
theorem ofOperand_of_scaled {x : Double} {i : Int} (hscaled : x.scaled = i * Double.unit)
    (hi : i.natAbs < 2 ^ 63) : ∃ inRange, ofOperand x = .integer i inRange := by
  have hsigned : x.isSigned = true := Double.isSigned_iff.mpr ⟨i, hscaled, hi⟩
  refine ⟨by omega, ?_⟩
  rw [ofOperand, if_pos hsigned]
  simp only [ofSigned, Double.toInt_toSigned hscaled hi]

/-- The two forms of an operand. -/
theorem ofOperand_cases (x : Double) :
    (∃ i inRange, (x.scaled = i * Double.unit ∧ i.natAbs < 2 ^ 63) ∧
      ofOperand x = .integer i inRange) ∨ x.isSigned = false ∧ ofOperand x = .double x := by
  cases hsigned : x.isSigned with
  | true =>
    obtain ⟨i, hscaled, hi⟩ := Double.isSigned_iff.mp hsigned
    obtain ⟨inRange, hform⟩ := ofOperand_of_scaled hscaled hi
    exact .inl ⟨i, inRange, ⟨hscaled, hi⟩, hform⟩
  | false => exact .inr ⟨rfl, if_neg (Bool.eq_false_iff.mp hsigned)⟩

/-- Zero is cast. -/
theorem scaled_ne_zero_of_not_isSigned {x : Double} (h : x.isSigned = false) : x.scaled ≠ 0 := by
  intro hzero
  have hsigned := Double.isSigned_iff.mpr ⟨0, hzero.trans (Int.zero_mul _).symm, by decide⟩
  rw [h] at hsigned
  cases hsigned

/-- An operand is read back as it was, negative zero apart. -/
theorem toDouble_ofOperand (x : Double) : (ofOperand x).toDouble = x.plain := by
  rcases ofOperand_cases x with ⟨i, inRange, ⟨hscaled, -⟩, hform⟩ | ⟨hsigned, hform⟩
  · rw [hform, toDouble, Double.ofInt?_of_scaled hscaled, Option.getD_some]
  · rw [hform, toDouble, Double.plain_of_ne_zero (scaled_ne_zero_of_not_isSigned hsigned)]

theorem ofOperand_plain (x : Double) : ofOperand x.plain = ofOperand x := by
  by_cases hzero : x.scaled = 0
  · have hscaled : x.scaled = (0 : Int) * Double.unit := hzero.trans (Int.zero_mul _).symm
    obtain ⟨inRange, hform⟩ := ofOperand_of_scaled hscaled (by decide)
    obtain ⟨_, hplain⟩ := ofOperand_of_scaled (x.scaled_plain.trans hscaled) (by decide)
    rw [hplain, hform]
  · rw [Double.plain_of_ne_zero hzero]

end Json.Number

end JsonCollections
