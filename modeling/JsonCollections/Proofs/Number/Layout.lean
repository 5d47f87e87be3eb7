import JsonCollections.Proofs.Number.Shortest
import Mathlib.Data.List.Basic
import Mathlib.Data.List.TakeWhile

set_option autoImplicit false

/-!
# Written decimals keep their value

`Layout.write` cuts off zeros, moves the point and may add an exponent.  The parts of a written
number are collected in a `Spelling`; `exists_spelling` says that what is written is a spelling
whose parts have the value of the decimal.
-/

namespace JsonCollections

/-- A text of digits, at least one. -/
def AreDigits (s : List Char) : Prop := s ≠ [] ∧ ∀ c ∈ s, c.isDigit = true

theorem areDigits_toDigits (n : Nat) : AreDigits (Nat.toDigits 10 n) :=
  ⟨Nat.toDigits_ne_nil, fun _ hc => Nat.isDigit_of_mem_toDigits (by decide) (by decide) hc⟩

/-- The parts of a number as the strict grammar has them. -/
structure Spelling where
  negative : Bool
  whole : List Char
  fraction : Option (List Char)
  exponent : Option Int
  whole_areDigits : AreDigits whole
  whole_leads : whole = ['0'] ∨ whole.head? ≠ some '0'
  fraction_areDigits : ∀ f, fraction = some f → AreDigits f

namespace Spelling

/-- The text of the fraction part. -/
def fractionText : Option (List Char) → List Char
  | none => []
  | some digits => '.' :: digits

/-- The text of the exponent part. -/
def exponentText : Option Int → List Char
  | none => []
  | some e => 'e' :: (if e < 0 then '-' else '+') :: Nat.toDigits 10 e.natAbs

/-- The text of the number without its sign. -/
def body (sp : Spelling) : List Char :=
  sp.whole ++ fractionText sp.fraction ++ exponentText sp.exponent

/-- The text of the number. -/
def text (sp : Spelling) : List Char := if sp.negative then '-' :: sp.body else sp.body

/-- The decimal that the parts stand for. -/
def decimal (sp : Spelling) : Decimal :=
  .ofParts sp.negative sp.whole (sp.fraction.getD []) (sp.exponent.getD 0)

end Spelling

namespace Layout

/-! ## Significant digits -/

theorem exists_zeros (digits : List Char) :
    ∃ z, digits = significant digits ++ List.replicate z '0' := by
  refine ⟨(digits.reverse.takeWhile (· = '0')).length, ?_⟩
  have hzeros : digits.reverse.takeWhile (· = '0') =
      List.replicate (digits.reverse.takeWhile (· = '0')).length '0' := by
    rw [List.eq_replicate_iff]
    refine ⟨rfl, ?_⟩
    intro c hc
    simpa using List.mem_takeWhile_imp hc
  calc digits = digits.reverse.reverse := (List.reverse_reverse _).symm
    _ = (digits.reverse.takeWhile (· = '0') ++ digits.reverse.dropWhile (· = '0')).reverse := by
      rw [List.takeWhile_append_dropWhile]
    _ = significant digits ++ (digits.reverse.takeWhile (· = '0')).reverse := by
      rw [List.reverse_append, significant]
    _ = _ := by rw [hzeros, List.reverse_replicate, List.length_replicate]

/-- A positive number does not begin with a zero. -/
theorem head?_toDigits {n : Nat} (hn : n ≠ 0) : (Nat.toDigits 10 n).head? ≠ some '0' := by
  induction n using Nat.strongRecOn with
  | ind n ih =>
    by_cases hsmall : n < 10
    · have all : ∀ d : Fin 10, d.val ≠ 0 → Nat.digitChar d.val ≠ '0' := by decide
      rw [Nat.toDigits_of_lt_base hsmall]
      simpa using all ⟨n, hsmall⟩ hn
    · rw [Nat.toDigits_of_base_le (by decide) (by omega),
        List.head?_append_of_ne_nil _ Nat.toDigits_ne_nil]
      exact ih (n / 10) (by omega) (by omega)

/-- The digits that are written and the exponent of the first of them: they have the value of the
decimal, and they begin with a zero only for zero itself. -/
structure Leading (d : Decimal) (digits : List Char) (exponent : Int) : Prop where
  areDigits : AreDigits digits
  leads : (digits = ['0'] ∧ exponent = 0) ∨ digits.head? ≠ some '0'
  value : Decimal.toDouble?
    ⟨d.negative, Nat.ofDigitChars 10 digits 0, exponent + 1 - digits.length⟩ = d.toDouble?

theorem leading_zero {d : Decimal} (hd : d.digits = 0) : Leading d ['0'] 0 where
  areDigits := ⟨by simp, by simp⟩
  leads := .inl ⟨rfl, rfl⟩
  value := by
    have hzero : Nat.ofDigitChars 10 ['0'] 0 = 0 := by decide
    simp [Decimal.toDouble?, hd, hzero]

theorem leading_significant {d : Decimal} (hd : d.digits ≠ 0) :
    Leading d (significant (Nat.toDigits 10 d.digits))
      (d.exponent + (Nat.toDigits 10 d.digits).length - 1) := by
  obtain ⟨z, hz⟩ := exists_zeros (Nat.toDigits 10 d.digits)
  generalize hds : significant (Nat.toDigits 10 d.digits) = digits at hz
  have hne : digits ≠ [] := by
    rintro rfl
    have hhead := head?_toDigits hd
    rw [hz] at hhead
    cases z with
    | zero => exact Nat.toDigits_ne_nil hz
    | succ z => exact hhead rfl
  have hvalue : d.digits = Nat.ofDigitChars 10 digits 0 * 10 ^ z := by
    rw [Nat.mul_comm, ← Nat.ofDigitChars_replicate_zero, ← Nat.ofDigitChars_append, ← hz,
      Nat.ofDigitChars_ten_toDigits]
  constructor
  · refine ⟨hne, fun c hc => (areDigits_toDigits d.digits).2 c ?_⟩
    rw [hz]
    exact List.mem_append_left _ hc
  · right
    have hhead := head?_toDigits hd
    rwa [hz, List.head?_append_of_ne_nil _ hne] at hhead
  · have hexponent : d.exponent + (Nat.toDigits 10 d.digits).length - 1 + 1 - digits.length =
        d.exponent + z := by
      rw [hz, List.length_append, List.length_replicate]
      omega
    rw [hexponent, ← Decimal.toDouble?_scale, ← hvalue]

/-! ## Both layouts -/

/-- Digits with zeros after them, cut after the first ones, with a fraction of zero. -/
theorem exists_spelling_whole {d : Decimal} {digits : List Char} {exponent : Int}
    (h : Leading d digits exponent) {n : Nat} (hn : exponent + 1 = n) (hle : digits.length ≤ n) :
    ∃ sp : Spelling,
      sp.body = digits ++ List.replicate (n - digits.length) '0' ++ ['.', '0'] ∧
      sp.negative = d.negative ∧ sp.fraction.isSome ∧ sp.decimal.toDouble? = d.toDouble? := by
  obtain ⟨⟨hne, hdigits⟩, hleads, hvalue⟩ := h
  refine ⟨⟨d.negative, digits ++ List.replicate (n - digits.length) '0', some ['0'], none,
    ⟨by simp [hne], ?_⟩, ?_, ?_⟩, ?_, rfl, rfl, ?_⟩
  · intro c hc
    rcases List.mem_append.mp hc with hc | hc
    · exact hdigits c hc
    · rw [(List.mem_replicate.mp hc).2]
      decide
  · rcases hleads with ⟨rfl, rfl⟩ | hhead
    · left
      have : n = 1 := by omega
      simp [this]
    · right
      rwa [List.head?_append_of_ne_nil _ hne]
  · intro f hf
    cases hf
    exact ⟨by simp, by simp⟩
  · simp [Spelling.body, Spelling.fractionText, Spelling.exponentText]
  · have hscaled : Nat.ofDigitChars 10 (digits ++ List.replicate (n - digits.length) '0' ++ ['0']) 0
        = Nat.ofDigitChars 10 digits 0 * 10 ^ (n - digits.length + 1) := by
      rw [List.append_assoc, ← List.replicate_succ', Nat.ofDigitChars_append,
        Nat.ofDigitChars_replicate_zero, Nat.mul_comm]
    refine Eq.trans ?_ hvalue
    simp only [Spelling.decimal, Decimal.ofParts]
    simp only [Option.getD_some, Option.getD_none]
    rw [hscaled, Decimal.toDouble?_scale]
    congr 2
    simp only [List.length_cons, List.length_nil]
    omega

/-- Digits with a point among them. -/
theorem exists_spelling_split {d : Decimal} {digits : List Char} {exponent : Int}
    (h : Leading d digits exponent) {n : Nat} (hn : exponent + 1 = n + 1)
    (hlt : n + 1 < digits.length) :
    ∃ sp : Spelling,
      sp.body = digits.take (n + 1) ++ '.' :: digits.drop (n + 1) ∧
      sp.negative = d.negative ∧ sp.fraction.isSome ∧ sp.decimal.toDouble? = d.toDouble? := by
  obtain ⟨⟨hne, hdigits⟩, hleads, hvalue⟩ := h
  refine ⟨⟨d.negative, digits.take (n + 1), some (digits.drop (n + 1)), none,
    ⟨by simp [hne], fun c hc => hdigits c (List.mem_of_mem_take hc)⟩, ?_, ?_⟩, ?_, rfl, rfl, ?_⟩
  · rcases hleads with ⟨rfl, rfl⟩ | hhead
    · simp at hlt
    · right
      rwa [List.head?_take, if_neg (by omega)]
  · intro f hf
    cases hf
    exact ⟨by simp [hlt], fun c hc => hdigits c (List.mem_of_mem_drop hc)⟩
  · simp [Spelling.body, Spelling.fractionText, Spelling.exponentText]
  · refine Eq.trans ?_ hvalue
    simp only [Spelling.decimal, Decimal.ofParts]
    simp only [Option.getD_some, Option.getD_none, List.take_append_drop, List.length_drop]
    congr 2
    omega

/-- Digits after a point and zeros. -/
theorem exists_spelling_small {d : Decimal} {digits : List Char} {exponent : Int}
    (h : Leading d digits exponent) {n : Nat} (hn : exponent + 1 = -(n : Int)) :
    ∃ sp : Spelling,
      sp.body = '0' :: '.' :: List.replicate n '0' ++ digits ∧
      sp.negative = d.negative ∧ sp.fraction.isSome ∧ sp.decimal.toDouble? = d.toDouble? := by
  obtain ⟨⟨hne, hdigits⟩, hleads, hvalue⟩ := h
  refine ⟨⟨d.negative, ['0'], some (List.replicate n '0' ++ digits), none,
    ⟨by simp, by simp⟩, .inl rfl, ?_⟩, ?_, rfl, rfl, ?_⟩
  · intro f hf
    cases hf
    refine ⟨by simp [hne], ?_⟩
    intro c hc
    rcases List.mem_append.mp hc with hc | hc
    · rw [(List.mem_replicate.mp hc).2]
      decide
    · exact hdigits c hc
  · simp [Spelling.body, Spelling.fractionText, Spelling.exponentText]
  · have hzeros : Nat.ofDigitChars 10 (['0'] ++ (List.replicate n '0' ++ digits)) 0 =
        Nat.ofDigitChars 10 digits 0 := by
      rw [← List.append_assoc, ← List.replicate_one, List.replicate_append_replicate,
        Nat.ofDigitChars_append, Nat.ofDigitChars_replicate_zero, Nat.mul_zero]
    refine Eq.trans ?_ hvalue
    simp only [Spelling.decimal, Decimal.ofParts]
    simp only [Option.getD_some, Option.getD_none, hzeros, List.length_append,
      List.length_replicate]
    congr 2
    omega

theorem exists_spelling_positional {d : Decimal} {digits : List Char} {exponent : Int}
    (h : Leading d digits exponent) :
    ∃ sp : Spelling,
      sp.body = positional digits (exponent + 1) ∧ sp.negative = d.negative ∧
      sp.fraction.isSome ∧ sp.decimal.toDouble? = d.toDouble? := by
  by_cases hpos : 0 < exponent + 1
  · obtain ⟨n, hn⟩ : ∃ n : Nat, exponent + 1 = n + 1 := ⟨exponent.toNat, by omega⟩
    have hform : exponent + 1 = Int.ofNat (n + 1) := hn
    have htake : (digits ++ List.replicate (n + 1 - digits.length) '0').take (n + 1) =
        digits.take (n + 1) ++ List.replicate (n + 1 - digits.length) '0' := by
      rw [List.take_append, List.take_replicate, Nat.min_self]
    rw [hform, positional, htake]
    by_cases hle : digits.length ≤ n + 1
    · rw [List.take_of_length_le hle, List.drop_of_length_le hle, if_pos rfl]
      exact exists_spelling_whole h hn hle
    · have hdrop : digits.drop (n + 1) ≠ [] := by
        rw [ne_eq, List.drop_eq_nil_iff]
        exact hle
      rw [Nat.sub_eq_zero_of_le (by omega), List.replicate_zero, List.append_nil, if_neg hdrop]
      exact exists_spelling_split h hn (by omega)
  · obtain ⟨n, hn⟩ : ∃ n : Nat, exponent + 1 = -(n : Int) := ⟨(-(exponent + 1)).toNat, by omega⟩
    have hform : positional digits (-(n : Int)) =
        '0' :: '.' :: List.replicate n '0' ++ digits := by
      cases n with
      | zero => rfl
      | succ n => rfl
    rw [hn, hform]
    exact exists_spelling_small h hn

theorem exists_spelling_scientific {d : Decimal} {digits : List Char} {exponent : Int}
    (h : Leading d digits exponent) :
    ∃ sp : Spelling,
      sp.body = scientific digits exponent ∧ sp.negative = d.negative ∧
      sp.exponent.isSome ∧ sp.decimal.toDouble? = d.toDouble? := by
  obtain ⟨⟨hne, hdigits⟩, hleads, hvalue⟩ := h
  obtain ⟨c, rest, rfl⟩ := List.exists_cons_of_ne_nil hne
  have hc : c.isDigit = true := hdigits c List.mem_cons_self
  have hsingle : ([c] : List Char) = ['0'] ∨ ([c] : List Char).head? ≠ some '0' := by
    rcases hleads with ⟨heq, -⟩ | hhead
    · left
      rw [(List.cons.inj heq).1]
    · exact .inr hhead
  cases rest with
  | nil =>
    refine ⟨⟨d.negative, [c], none, some exponent, ⟨by simp, by simpa using hc⟩, hsingle,
      by simp⟩, ?_, rfl, rfl, ?_⟩
    · simp [Spelling.body, Spelling.fractionText, Spelling.exponentText, scientific]
    · refine Eq.trans ?_ hvalue
      simp only [Spelling.decimal, Decimal.ofParts]
      simp only [Option.getD_some, Option.getD_none, List.append_nil, List.length_cons,
        List.length_nil]
      congr 2
      omega
  | cons e rest =>
    refine ⟨⟨d.negative, [c], some (e :: rest), some exponent, ⟨by simp, by simpa using hc⟩,
      hsingle, ?_⟩, ?_, rfl, rfl, ?_⟩
    · intro f hf
      cases hf
      exact ⟨by simp, fun x hx => hdigits x (List.mem_cons_of_mem _ hx)⟩
    · simp [Spelling.body, Spelling.fractionText, Spelling.exponentText, scientific]
    · refine Eq.trans ?_ hvalue
      simp only [Spelling.decimal, Decimal.ofParts]
      simp only [Option.getD_some, List.cons_append, List.nil_append, List.length_cons]
      congr 2
      omega

/-- What a layout writes is a spelling in double form with the value of the decimal. -/
theorem exists_spelling (layout : Layout) (d : Decimal) :
    ∃ sp : Spelling,
      sp.text = layout.write d ∧ sp.negative = d.negative ∧
      (sp.fraction.isSome ∨ sp.exponent.isSome) ∧ sp.decimal.toDouble? = d.toDouble? := by
  obtain ⟨digits, exponent, hleading, hwrite⟩ : ∃ digits exponent, Leading d digits exponent ∧
      layout.write d =
        let body :=
          if layout.positionalFrom ≤ exponent ∧ exponent ≤ layout.positionalTo then
            positional digits (exponent + 1)
          else scientific digits exponent
        if d.negative then '-' :: body else body := by
    by_cases hd : d.digits = 0
    · exact ⟨_, _, leading_zero hd, by simp only [write, if_pos hd]⟩
    · exact ⟨_, _, leading_significant hd, by simp only [write, if_neg hd]⟩
  rw [hwrite]
  by_cases hrange : layout.positionalFrom ≤ exponent ∧ exponent ≤ layout.positionalTo
  · obtain ⟨sp, hbody, hneg, hfraction, hvalue⟩ := exists_spelling_positional hleading
    exact ⟨sp, by simp only [Spelling.text, hbody, hneg, if_pos hrange], hneg, .inl hfraction,
      hvalue⟩
  · obtain ⟨sp, hbody, hneg, hexponent, hvalue⟩ := exists_spelling_scientific hleading
    exact ⟨sp, by simp only [Spelling.text, hbody, hneg, if_neg hrange], hneg, .inr hexponent,
      hvalue⟩

end Layout

end JsonCollections
