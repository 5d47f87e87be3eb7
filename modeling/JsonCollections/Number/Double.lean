set_option autoImplicit false

/-!
# Number: finite double-precision numbers

A finite binary64 number is a sign, a significand below `2 ^ 53` and a shift: its value is
`± significand * 2 ^ shift` in units of `2 ^ -1074`, the least positive double.  The canonical form
is part of the type, so two doubles are equal exactly when their bits are; comparisons *by value*
go through `scaled`, the value counted in those units, where both zeros are `0`.

Rounding is done once, by `nearest?`, on an exact quotient of natural numbers.
-/

namespace JsonCollections

/-- A finite binary64 number. -/
structure Double where
  negative : Bool
  significand : Nat
  shift : Nat
  significand_lt : significand < 1 <<< 53
  shift_le : shift ≤ 2045
  canonical : shift = 0 ∨ 1 <<< 52 ≤ significand
  deriving DecidableEq, Repr

namespace Double

/-! ## Values -/

/-- The least positive double is `2 ^ -1074`. -/
def fractionBits : Nat := 1074

/-- How many units of `2 ^ -1074` make one. -/
def unit : Nat := 1 <<< fractionBits

theorem unit_pos : 0 < unit := by
  rw [unit, Nat.one_shiftLeft]
  exact Nat.two_pow_pos fractionBits

theorem natCast_unit_pos : (0 : Int) < unit := Int.natCast_pos.mpr unit_pos

/-- The absolute value in units of `2 ^ -1074`. -/
def magnitude (x : Double) : Nat := x.significand <<< x.shift

/-- The value in units of `2 ^ -1074`; both zeros are `0`. -/
def scaled (x : Double) : Int := if x.negative then -(x.magnitude : Int) else x.magnitude

/-- Zero with the given sign. -/
def zero (negative : Bool) : Double :=
  ⟨negative, 0, 0, by decide, by decide, .inl rfl⟩

instance : Inhabited Double := ⟨zero false⟩

theorem scaled_zero (negative : Bool) : (zero negative).scaled = 0 := by
  cases negative <;> simp [scaled, magnitude, zero]

/-- Equality of values: `-0.0` equals `0.0`. -/
def sameValue (x y : Double) : Bool := x.scaled == y.scaled

theorem sameValue_iff (x y : Double) : x.sameValue y = true ↔ x.scaled = y.scaled := by
  simp [sameValue]

/-- The order of values. -/
def lt (x y : Double) : Bool := decide (x.scaled < y.scaled)

/-- The order of values, equality included. -/
def le (x y : Double) : Bool := decide (x.scaled ≤ y.scaled)

/-- The value without its sign. -/
def abs (x : Double) : Double := { x with negative := false }

theorem scaled_abs (x : Double) : x.abs.scaled = x.magnitude := rfl

/-! ## Words -/

/-- The value without its fractional part. -/
def truncated (x : Double) : Int := x.scaled.tdiv unit

/-- Whether the value has no fractional part. -/
def isIntegral (x : Double) : Bool := x.scaled.tmod unit == 0

/-- What is integral loses nothing when it is truncated. -/
theorem isIntegral_iff {x : Double} : x.isIntegral = true ↔ x.truncated * unit = x.scaled := by
  have hparts := Int.mul_tdiv_add_tmod x.scaled unit
  rw [isIntegral, beq_iff_eq, truncated, Int.mul_comm]
  omega

/-- The word with the truncated value; below and above all words it is the least and the greatest
one. -/
def toWord (x : Double) : UInt64 := .ofNat (min x.truncated.toNat (UInt64.size - 1))

/-- The signed word with the truncated value; below and above all signed words it is the least and
the greatest one. -/
def toSigned (x : Double) : Int64 := .ofIntClamp x.truncated

/-! ## Bits -/

/-- The 64 bits of the interchange format, as a natural number. -/
def bits (x : Double) : Nat :=
  (if x.negative then 1 <<< 63 else 0) +
    if x.significand < 1 <<< 52 then x.significand
    else ((x.shift + 1) <<< 52) + (x.significand - 1 <<< 52)

/-! ## Rounding -/

/-- The double with these parts, if they are in canonical form and in range. -/
def ofParts? (negative : Bool) (significand shift : Nat) : Option Double :=
  if h : significand < 1 <<< 53 ∧ shift ≤ 2045 ∧ (shift = 0 ∨ 1 <<< 52 ≤ significand) then
    some ⟨negative, significand, shift, h.1, h.2.1, h.2.2⟩
  else none

theorem ofParts?_self (x : Double) : ofParts? x.negative x.significand x.shift = some x :=
  dif_pos ⟨x.significand_lt, x.shift_le, x.canonical⟩

/-- The quotient rounded to the nearest natural number; of two equally near, the even one. -/
def roundDiv (num den : Nat) : Nat :=
  let quotient := num / den
  let rest := num % den
  if 2 * rest < den then quotient
  else if den < 2 * rest then quotient + 1
  else quotient + quotient % 2

theorem roundDiv_mul_self (q den : Nat) (h : 0 < den) : roundDiv (q * den) den = q := by
  simp [roundDiv, Nat.mul_div_cancel _ h, h]

/-- The double nearest to `± num / den` units, ties going to the even significand; `none` if that
is beyond the largest double. -/
def nearest? (negative : Bool) (num den : Nat) : Option Double :=
  let shift := (num / den).log2 - 52
  let significand := roundDiv num (den <<< shift)
  if significand < 1 <<< 53 then ofParts? negative significand shift
  else ofParts? negative (1 <<< 52) (shift + 1)

/-- The double nearest to an integer. -/
def ofInt? (i : Int) : Option Double := nearest? (decide (i < 0)) (i.natAbs * unit) 1

/-- The greatest signed word as a double, that is, the double nearest to it. -/
def signedCeiling : Double := (ofInt? Int64.maxValue.toInt).getD default

/-- Whether the double is integral and, without its sign, less than the greatest signed word as a
double. -/
def isSigned (x : Double) : Bool := x.isIntegral && x.abs.lt signedCeiling

end Double

end JsonCollections
