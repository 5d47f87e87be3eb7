import JsonCollections.Proofs.Query.Document

set_option autoImplicit false

/-!
# Operands that are written exactly

Writing an operand chooses between the two forms of numbers, and reading it takes the nearest double
of either form.  The integer form is chosen only where the cast keeps the value
(`Json.Number.ofOperand_eq_integer_iff`), so all that can be lost is the sign of a zero.  An operand
matches exactly the documents from which an equal operand is read (`Primitive.matchesJson_iff`); the
document that it is written as is one of these (`Primitive.exactOperands`).
-/

namespace JsonCollections

/-! ## Zeros -/

namespace Double

theorem eq_zero_of_scaled {x : Double} (h : x.scaled = 0) : x = zero x.negative := by
  have hmagnitude : x.significand * 2 ^ x.shift = 0 := by
    rw [← Nat.shiftLeft_eq, ← magnitude, ← natAbs_scaled, h, Int.natAbs_zero]
  have hsignificand : x.significand = 0 :=
    (Nat.mul_eq_zero.mp hmagnitude).resolve_right (Nat.ne_of_gt (Nat.two_pow_pos _))
  have hshift : x.shift = 0 :=
    x.canonical.resolve_right fun hfull => absurd (hsignificand ▸ hfull) (by decide)
  obtain ⟨negative, significand, shift, _, _, _⟩ := x
  cases hsignificand
  cases hshift
  rfl

/-- A negative zero is the only double with a sign to lose. -/
theorem plain_eq (x : Double) : x.plain = if x = zero true then zero false else x := by
  unfold plain
  by_cases hzero : x.scaled = 0
  · have hx := eq_zero_of_scaled hzero
    rw [if_pos hzero]
    cases hsign : x.negative with
    | true => rw [if_pos (hsign ▸ hx)]
    | false =>
      rw [hsign] at hx
      rw [hx, if_neg (by decide)]
  · have hne : x ≠ zero true := by
      rintro rfl
      exact hzero (scaled_zero true)
    rw [if_neg hzero, if_neg hne]

end Double

/-! ## Writing -/

namespace Json.Number

theorem scaled_ofOperand (x : Double) : (ofOperand x).scaled = x.scaled := by
  rcases ofOperand_cases x with ⟨i, inRange, ⟨hscaled, -⟩, hform⟩ | ⟨-, hform⟩
  · rw [hform, hscaled, scaled]
  · rw [hform, scaled]

/-- Integer form is chosen for integral doubles in range. -/
theorem ofOperand_eq_integer_iff {x : Double} {i : Int}
    {inRange : -0x8000000000000000 ≤ i ∧ i < 0x10000000000000000} :
    ofOperand x = .integer i inRange ↔ x.scaled = i * Double.unit ∧ i.natAbs < 2 ^ 63 := by
  constructor
  · intro hform
    rcases ofOperand_cases x with ⟨j, _, hj, hinteger⟩ | ⟨-, hdouble⟩
    · cases hinteger.symm.trans hform
      exact hj
    · cases hdouble.symm.trans hform
  · rintro ⟨hscaled, hi⟩
    obtain ⟨_, hinteger⟩ := ofOperand_of_scaled hscaled hi
    exact hinteger

/-- The number `n` is what the double `x` is written as. -/
structure Writes (n : Number) (x : Double) : Prop where
  /-- it has the same exact value -/
  scaled_eq : n.scaled = x.scaled
  /-- and it is read back as the double, except that a negative zero loses its sign -/
  toDouble_eq : n.toDouble = if x = .zero true then .zero false else x
  /-- it is in integer form if the double is integral and less than `2 ^ 63` without its sign -/
  integer_iff : (∃ i inRange, n = .integer i inRange) ↔
    ∃ i : Int, x.scaled = i * Double.unit ∧ i.natAbs < 2 ^ 63
  /-- the integer is the signed word to which the double is cast, and nothing is cut off or moved -/
  cast : ∀ i inRange, n = .integer i inRange →
    x.toSigned.toInt = i ∧ i * (Double.unit : Int) = x.scaled
  /-- any other double is left as it is -/
  double : ∀ y, n = .double y → y = x

theorem writes_ofOperand (x : Double) : (ofOperand x).Writes x where
  scaled_eq := scaled_ofOperand x
  toDouble_eq := by rw [toDouble_ofOperand, Double.plain_eq]
  integer_iff := by
    constructor
    · rintro ⟨i, inRange, hform⟩
      exact ⟨i, ofOperand_eq_integer_iff.mp hform⟩
    · rintro ⟨i, hscaled, hi⟩
      exact ⟨i, ofOperand_of_scaled hscaled hi⟩
  cast i inRange hform := by
    obtain ⟨hscaled, hi⟩ := ofOperand_eq_integer_iff.mp hform
    exact ⟨Double.toInt_toSigned hscaled hi, hscaled.symm⟩
  double y hform := by
    rcases ofOperand_cases x with ⟨i, inRange, -, hinteger⟩ | ⟨-, hdouble⟩
    · cases hinteger.symm.trans hform
    · cases hdouble.symm.trans hform
      rfl

/-- The least double above `-2 ^ 63` is cast, and `2 ^ 63` itself is not. -/
example : ofOperand ⟨true, 2 ^ 53 - 1, 1084, by decide, by decide, by decide⟩ =
      .integer (-(2 ^ 63 - 1024)) (by decide) ∧
    ofOperand Double.signedCeiling = .double Double.signedCeiling := by decide +kernel

end Json.Number

/-! ## Reading -/

namespace Primitive

theorem Equal.refl (p : Primitive) : p.Equal p := by
  cases p with
  | null => exact .null
  | bool b => exact .bool b
  | number x => exact .number ((Double.sameValue_iff x x).mpr rfl)
  | string s => exact .string s

/-- An operand matches the documents from which an equal operand is read. -/
theorem matchesJson_iff {p : Primitive} {v : Json} :
    p.matchesJson v = true ↔ ∃ q, ofJson? v = some q ∧ p.Equal q := by
  constructor
  · unfold matchesJson
    split
    · exact fun _ => ⟨_, rfl, .null⟩
    · intro h
      cases eq_of_beq h
      exact ⟨_, rfl, .bool _⟩
    · intro h
      have hvalue := (Double.sameValue_iff _ _).mp h
      exact ⟨_, rfl, .number ((Double.sameValue_iff _ _).mpr hvalue.symm)⟩
    · intro h
      cases eq_of_beq h
      exact ⟨_, rfl, .string _⟩
    · exact nofun
  · rintro ⟨q, hread, hequal⟩
    rw [hequal.matchesJson_eq]
    cases v with
    | null =>
      cases hread
      rfl
    | bool | string =>
      cases hread
      exact beq_self_eq_true _
    | number n =>
      cases hread
      exact (Double.sameValue_iff _ _).mpr rfl
    | array | object => cases hread

theorem exists_ofJson?_iff {v : Json} : (∃ p, ofJson? v = some p) ↔ v.kind = .primitive := by
  cases v with
  | null | bool | number | string => exact ⟨fun _ => rfl, fun _ => ⟨_, rfl⟩⟩
  | array | object => exact ⟨nofun, nofun⟩

/-- What is read from the document `v` as an operand. -/
structure ReadFrom (v : Json) : Prop where
  /-- primitives are operands, and nothing else is -/
  exists_iff : (∃ p, ofJson? v = some p) ↔ v.kind = .primitive
  /-- an operand matches the document from which it is read -/
  matched : ∀ p, ofJson? v = some p → p.matchesJson v = true
  /-- it matches the document that it is written as -/
  written : ∀ p, ofJson? v = some p → p.matchesJson p.toJson = true
  /-- and an equal operand is read from that -/
  reread : ∀ p, ofJson? v = some p → ∃ q, ofJson? p.toJson = some q ∧ p.Equal q

/-- Every double is written as a number without loss, and every primitive document is read as an
operand that matches it, that matches what it is written as, and that is read back. -/
theorem exactOperands :
    (∀ x : Double, ∃ n : Json.Number, (number x).toJson = .number n ∧ n.Writes x) ∧
      ∀ v : Json, ReadFrom v := by
  have hreread : ∀ p : Primitive, ∃ q, ofJson? p.toJson = some q ∧ p.Equal q :=
    fun p => ⟨p.plain, p.ofJson?_toJson, p.equal_plain⟩
  refine ⟨fun x => ⟨.ofOperand x, rfl, Json.Number.writes_ofOperand x⟩, fun v => ?_⟩
  exact {
    exists_iff := exists_ofJson?_iff
    matched := fun p hread => matchesJson_iff.mpr ⟨p, hread, Equal.refl p⟩
    written := fun p _ => matchesJson_iff.mpr (hreread p)
    reread := fun p _ => hreread p }

end Primitive

end JsonCollections
