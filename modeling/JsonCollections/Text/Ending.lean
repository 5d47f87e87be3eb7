set_option autoImplicit false

/-!
# Text: repeated endings

A text without an ending, however often the ending stands there.
-/

namespace JsonCollections.Text

/-- The text without the endings that repeat one text. -/
def trimEnd (ending s : List Char) : List Char :=
  if ending ≠ [] ∧ ending <:+ s then trimEnd ending (s.take (s.length - ending.length)) else s
termination_by s.length
decreasing_by
  rename_i h
  have hpositive := List.length_pos_iff.mpr h.1
  have hlength := h.2.length_le
  rw [List.length_take]
  omega

theorem trimEnd_of_not_suffix {ending s : List Char} (h : ¬ ending <:+ s) :
    trimEnd ending s = s := by
  rw [trimEnd, if_neg fun hs => h hs.2]

/-- An ending that is there goes away. -/
theorem trimEnd_append {ending : List Char} (h : ending ≠ []) (s : List Char) :
    trimEnd ending (s ++ ending) = trimEnd ending s := by
  have hlength : (s ++ ending).length - ending.length = s.length := by
    rw [List.length_append, Nat.add_sub_cancel]
  rw [trimEnd, if_pos ⟨h, List.suffix_append s ending⟩, hlength, List.take_left]

end JsonCollections.Text
