import JsonCollections.Json.Reader
import JsonCollections.Proofs.Number.Layout

set_option autoImplicit false

/-!
# Reading numbers that were written

The reader takes a spelling apart into its parts (`number_text_append`), whatever follows it as long as
that does not go on with the number.  With the value of the parts kept by the writer this gives the
round trip of numbers in both forms (`number_text`).
-/

namespace JsonCollections.Json

/-- What follows a number does not go on with it. -/
def EndsNumber (rest : List Char) : Prop :=
  ∀ c, rest.head? = some c → c.isDigit = false ∧ c ≠ '.' ∧ c ≠ 'e' ∧ c ≠ 'E'

namespace Reader

/-! ## The parts of a number -/

/-- A run of digits is taken as a whole. -/
theorem digits_append {s rest : List Char} (hs : AreDigits s)
    (hrest : ∀ c, rest.head? = some c → c.isDigit = false) :
    digits (s ++ rest) = .ok (s, rest) := by
  have htake : rest.takeWhile Char.isDigit = [] := by
    cases rest with
    | nil => rfl
    | cons c rest => simp [hrest c rfl]
  have hdrop : rest.dropWhile Char.isDigit = rest := by
    cases rest with
    | nil => rfl
    | cons c rest => simp [hrest c rfl]
  have hfound : Numeral.digits (s ++ rest) = (s, rest) := by
    rw [Numeral.digits, List.takeWhile_append_of_pos hs.2, List.dropWhile_append_of_pos hs.2,
      htake, hdrop, List.append_nil]
  unfold digits
  rw [hfound]
  cases s with
  | nil => exact absurd rfl hs.1
  | cons c s => rfl

theorem whole_append {s rest : List Char} (hs : AreDigits s)
    (hleads : s = ['0'] ∨ s.head? ≠ some '0')
    (hrest : ∀ c, rest.head? = some c → c.isDigit = false) :
    whole (s ++ rest) = .ok (s, rest) := by
  simp only [whole, digits_append hs hrest, bind, Except.bind]
  split
  · rcases hleads with h | h
    · cases h
    · exact absurd rfl h
  · rfl

theorem fraction_append {f : Option (List Char)} {rest : List Char}
    (hf : ∀ s, f = some s → AreDigits s)
    (hrest : ∀ c, rest.head? = some c → c.isDigit = false ∧ c ≠ '.') :
    fraction (Spelling.fractionText f ++ rest) = .ok (f, rest) := by
  cases f with
  | some s =>
    have hdigits := digits_append (hf s rfl) fun c hc => (hrest c hc).1
    simp only [Spelling.fractionText, List.cons_append, fraction, hdigits, bind, Except.bind]
  | none =>
    rw [Spelling.fractionText, List.nil_append]
    unfold fraction
    split
    · exact absurd rfl (hrest _ rfl).2
    · rfl

theorem exponent_append (e : Option Int) {rest : List Char} (hrest : EndsNumber rest) :
    exponent (Spelling.exponentText e ++ rest) = .ok (e, rest) := by
  have hdigits : ∀ n, digits (Nat.toDigits 10 n ++ rest) = .ok (Nat.toDigits 10 n, rest) :=
    fun n => digits_append (areDigits_toDigits n) fun c hc => (hrest c hc).1
  cases e with
  | none =>
    rw [Spelling.exponentText, List.nil_append]
    cases rest with
    | nil => rfl
    | cons c rest =>
      obtain ⟨-, -, he, hE⟩ := hrest c rfl
      simp [exponent, he, hE]
  | some e =>
    by_cases hneg : e < 0
    · simp only [Spelling.exponentText, hneg, if_true, List.cons_append, exponent, true_or,
        Numeral.sign, hdigits, bind, Except.bind, Nat.ofDigitChars_ten_toDigits]
      congr 3
      omega
    · simp only [Spelling.exponentText, hneg, if_false, List.cons_append, exponent, true_or,
        if_true, Numeral.sign, hdigits, bind, Except.bind, Nat.ofDigitChars_ten_toDigits]
      congr 3
      simp only [Bool.false_eq_true, if_false]
      omega

/-! ## Whole numbers -/

theorem exponentText_ends (e : Option Int) {rest : List Char} (hrest : EndsNumber rest) (c : Char)
    (hc : (Spelling.exponentText e ++ rest).head? = some c) : c.isDigit = false ∧ c ≠ '.' := by
  cases e with
  | none => exact ⟨(hrest c hc).1, (hrest c hc).2.1⟩
  | some e =>
    cases hc
    exact ⟨by decide, by decide⟩

theorem fractionText_ends (f : Option (List Char)) {rest : List Char}
    (hrest : ∀ c, rest.head? = some c → c.isDigit = false ∧ c ≠ '.') (c : Char)
    (hc : (Spelling.fractionText f ++ rest).head? = some c) : c.isDigit = false := by
  cases f with
  | none => exact (hrest c hc).1
  | some s =>
    cases hc
    decide

/-- The text of a number begins with its sign or with a digit. -/
theorem head?_text (sp : Spelling) : ∃ c s, sp.text = c :: s ∧ (c = '-' ∨ c.isDigit = true) := by
  obtain ⟨hne, hdigits⟩ := sp.whole_areDigits
  obtain ⟨d, digits, hwhole⟩ := List.exists_cons_of_ne_nil hne
  cases hneg : sp.negative with
  | true => exact ⟨'-', sp.body, by rw [Spelling.text, hneg, if_pos rfl], .inl rfl⟩
  | false =>
    refine ⟨d, digits ++ Spelling.fractionText sp.fraction ++ Spelling.exponentText sp.exponent,
      ?_, .inr (hdigits d (hwhole ▸ List.mem_cons_self))⟩
    rw [Spelling.text, hneg, if_neg Bool.false_ne_true, Spelling.body, hwhole]
    rfl

/-- The number behind a sign, from the results of its parts. -/
theorem number_of_parts (sign : List Char) {negative : Bool} {body w r₁ r₂ r₃ : List Char}
    {f : Option (List Char)} {e : Option Int} {n : Number}
    (hsign : sign = ['-'] ∧ negative = true ∨
      sign = [] ∧ negative = false ∧ body.head? ≠ some '-')
    (hwhole : whole body = .ok (w, r₁)) (hfraction : fraction r₁ = .ok (f, r₂))
    (hexponent : exponent r₂ = .ok (e, r₃)) (hn : Number.ofNumeral? negative w f e = some n) :
    number (sign ++ body) = .ok (n, r₃) := by
  rcases hsign with ⟨rfl, rfl⟩ | ⟨rfl, rfl, hbody⟩
  · unfold number
    simp only [List.cons_append, List.nil_append, hwhole, hfraction, hexponent, hn, bind,
      Except.bind]
  · unfold number
    rw [List.nil_append]
    split
    rename_i heq
    split at heq
    · exact absurd rfl hbody
    · cases heq
      simp only [hwhole, hfraction, hexponent, hn, bind, Except.bind]

/-- A spelling is read as the number that its parts stand for. -/
theorem number_text_append (sp : Spelling) {rest : List Char} (hrest : EndsNumber rest)
    {n : Number} (hn : Number.ofNumeral? sp.negative sp.whole sp.fraction sp.exponent = some n) :
    number (sp.text ++ rest) = .ok (n, rest) := by
  have hexponent := exponent_append sp.exponent hrest
  have hfraction := fraction_append sp.fraction_areDigits (exponentText_ends sp.exponent hrest)
  have hwhole := whole_append sp.whole_areDigits sp.whole_leads
    (fractionText_ends sp.fraction (exponentText_ends sp.exponent hrest))
  have hbody : sp.body ++ rest = sp.whole ++ (Spelling.fractionText sp.fraction ++
      (Spelling.exponentText sp.exponent ++ rest)) := by
    simp only [Spelling.body, List.append_assoc]
  rw [← hbody] at hwhole
  cases hneg : sp.negative with
  | true =>
    rw [Spelling.text, hneg, if_pos rfl]
    exact number_of_parts ['-'] (.inl ⟨rfl, hneg⟩) hwhole hfraction hexponent hn
  | false =>
    have hminus : (sp.body ++ rest).head? ≠ some '-' := by
      obtain ⟨hne, hdigits⟩ := sp.whole_areDigits
      obtain ⟨d, digits, hd⟩ := List.exists_cons_of_ne_nil hne
      rw [hbody, hd]
      rintro heq
      cases heq
      exact absurd (hdigits '-' (hd ▸ List.mem_cons_self)) (by decide)
    rw [Spelling.text, hneg, if_neg Bool.false_ne_true]
    exact number_of_parts [] (.inr ⟨rfl, hneg, hminus⟩) hwhole hfraction hexponent hn

end Reader

namespace Number

/-! ## Both forms -/

/-- The digits of an integer are a spelling of it. -/
theorem exists_spelling_integer (i : Int) (h : -0x8000000000000000 ≤ i ∧ i < 0x10000000000000000) :
    ∃ sp : Spelling, sp.text = text (.integer i h) ∧
      ofNumeral? sp.negative sp.whole sp.fraction sp.exponent = some (.integer i h) := by
  refine ⟨⟨decide (i < 0), Nat.toDigits 10 i.natAbs, none, none, areDigits_toDigits _, ?_,
    by simp⟩, ?_, ?_⟩
  · by_cases hzero : i.natAbs = 0
    · left
      rw [hzero, Nat.toDigits_zero]
    · exact .inr (Layout.head?_toDigits hzero)
  · by_cases hneg : i < 0 <;>
      simp [Spelling.text, Spelling.body, Spelling.fractionText, Spelling.exponentText, text, hneg]
  · have hvalue : (if decide (i < 0) then -(i.natAbs : Int) else i.natAbs) = i := by
      by_cases hneg : i < 0
      · simp only [hneg, decide_true, if_true]
        omega
      · simp only [hneg, decide_false, Bool.false_eq_true, if_false]
        omega
    have hsigned : (decide (i < 0) && i.natAbs == 0) = false := by
      by_cases hneg : i < 0
      · simp only [hneg, decide_true, Bool.true_and, beq_eq_false_iff_ne]
        omega
      · simp [hneg]
    simp only [ofNumeral?, Nat.ofDigitChars_ten_toDigits, hsigned, Option.isNone_none,
      Bool.and_self, Bool.not_false, if_true, hvalue, ofInt?_of_inRange h]

/-- The text of a double is a spelling of it, in double form. -/
theorem exists_spelling_double (x : Double) :
    ∃ sp : Spelling, sp.text = text (.double x) ∧
      ofNumeral? sp.negative sp.whole sp.fraction sp.exponent = some (.double x) := by
  obtain ⟨sp, htext, hneg, hform, hvalue⟩ := Layout.exists_spelling layout x.shortest
  refine ⟨sp, htext, ?_⟩
  have hintegral : (sp.fraction.isNone && sp.exponent.isNone &&
      !(sp.negative && Nat.ofDigitChars 10 sp.whole 0 == 0)) = false := by
    rcases hform with h | h
    · simp [Option.isSome_iff_ne_none.mp h]
    · simp [Option.isSome_iff_ne_none.mp h]
  rw [Double.toDouble?_shortest, Spelling.decimal] at hvalue
  simp only [ofNumeral?, hintegral, Bool.false_eq_true, if_false, hvalue, Option.map_some]

theorem exists_spelling (n : Number) : ∃ sp : Spelling, sp.text = n.text ∧
    ofNumeral? sp.negative sp.whole sp.fraction sp.exponent = some n := by
  cases n with
  | integer i h => exact exists_spelling_integer i h
  | double x => exact exists_spelling_double x

/-- A number is read back in its form and with its value. -/
theorem number_text (n : Number) {rest : List Char} (hrest : EndsNumber rest) :
    Reader.number (n.text ++ rest) = .ok (n, rest) := by
  obtain ⟨sp, htext, hn⟩ := exists_spelling n
  rw [← htext]
  exact Reader.number_text_append sp hrest hn

end Number

end JsonCollections.Json
