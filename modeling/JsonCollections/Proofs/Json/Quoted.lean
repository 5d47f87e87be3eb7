import JsonCollections.Json.Reader
import JsonCollections.Json.Writer

set_option autoImplicit false

/-!
# Reading strings that were written

Every character is read back from its escape, whatever follows (`character_escape_append`), and so
a whole string is read back from between its quotes (`string_append`).
-/

namespace JsonCollections.Json

/-! ## Single characters -/

/-- Four hexadecimal digits are written for a control character, with its value. -/
theorem hexUnit_control {n : Nat} (hn : n < 0x20) :
    (hexUnit n).length = 4 ∧
      (hexUnit n).all (fun digit => (Text.hexDigit? digit).isSome) = true ∧
      Text.hexValue (hexUnit n) = n := by
  have all : ∀ n : Fin 0x20, (hexUnit n).length = 4 ∧
      (hexUnit n).all (fun digit => (Text.hexDigit? digit).isSome) = true ∧
      Text.hexValue (hexUnit n) = n := by decide
  exact all ⟨n, hn⟩

namespace Reader

theorem codeUnit_append {s : List Char} (rest : List Char) (hlength : s.length = 4)
    (hdigits : s.all (fun digit => (Text.hexDigit? digit).isSome) = true) :
    codeUnit (s ++ rest) = .ok (Text.hexValue s, rest) := by
  match s, hlength with
  | [a, b, c, d], _ =>
    simp only [List.cons_append, List.nil_append, codeUnit, hdigits, if_true]

theorem escapedUnit_of_lt {n : Nat} (hn : n < 0xD800) (s : List Char) :
    escapedUnit n s = .ok (Char.ofNat n, s) := by
  rw [escapedUnit, if_neg (by omega), if_pos (.inl hn)]

theorem character_control {c : Char} (hc : c.toNat < 0x20) (rest : List Char) :
    character ('\\' :: 'u' :: hexUnit c.toNat ++ rest) = .ok (some c, rest) := by
  obtain ⟨hlength, hdigits, hvalue⟩ := hexUnit_control hc
  have hunit := codeUnit_append rest hlength hdigits
  rw [hvalue] at hunit
  have hescaped : escaped ('u' :: hexUnit c.toNat ++ rest) = .ok (c, rest) := by
    simp only [List.cons_append, escaped, hunit, bind, Except.bind]
    rw [escapedUnit_of_lt (by omega), Char.ofNat_toNat]
  rw [List.cons_append, character, if_neg (by decide), if_pos rfl, hescaped]
  rfl

/-- A character is read back from its text inside quotes. -/
theorem character_escape_append (c : Char) (rest : List Char) :
    character (escape c ++ rest) = .ok (some c, rest) := by
  unfold escape
  split
  -- the seven characters with an escape of their own
  case h_1 => rfl
  case h_2 => rfl
  case h_3 => rfl
  case h_4 => rfl
  case h_5 => rfl
  case h_6 => rfl
  case h_7 => rfl
  case h_8 hquote hbackslash _ _ _ _ _ =>
    by_cases hcontrol : c.toNat < 0x20
    · rw [if_pos hcontrol]
      exact character_control hcontrol rest
    · rw [if_neg hcontrol, List.cons_append, List.nil_append, character, if_neg hquote,
        if_neg hbackslash, if_neg hcontrol]

/-! ## Strings -/

/-- The text of one character is not empty. -/
theorem length_escape_pos (c : Char) : 0 < (escape c).length := by
  unfold escape
  split
  all_goals try exact Nat.succ_pos _
  split <;> exact Nat.succ_pos _

theorem length_le_flatMap_escape (s : List Char) : s.length ≤ (s.flatMap escape).length := by
  induction s with
  | nil => exact Nat.le_refl 0
  | cons c s ih =>
    have hpos := length_escape_pos c
    rw [List.flatMap_cons, List.length_append, List.length_cons]
    omega

/-- The characters of a string are read back up to the quote that ends it. -/
theorem characters_append (s rest : List Char) {fuel : Nat} (hfuel : s.length < fuel) :
    characters fuel (s.flatMap escape ++ '"' :: rest) = .ok (s, rest) := by
  induction s generalizing fuel with
  | nil =>
    match fuel, hfuel with
    | fuel + 1, _ => rfl
  | cons c s ih =>
    match fuel, hfuel with
    | fuel + 1, hfuel =>
      have hrest := ih (Nat.lt_of_succ_lt_succ hfuel)
      rw [List.flatMap_cons, List.append_assoc]
      simp only [characters, character_escape_append, hrest, bind, Except.bind]

/-- A string is read back from what follows its opening quote. -/
theorem string_append (s : String) (rest : List Char) :
    string (s.toList.flatMap escape ++ '"' :: rest) = .ok (s, rest) := by
  have hfuel : s.toList.length < (s.toList.flatMap escape ++ '"' :: rest).length + 1 := by
    have := length_le_flatMap_escape s.toList
    rw [List.length_append]
    omega
  simp only [string, characters_append s.toList rest hfuel, bind, Except.bind, String.ofList_toList]

end Reader

end JsonCollections.Json
