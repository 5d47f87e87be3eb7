set_option autoImplicit false

/-!
# Text: looking for a text inside another
-/

namespace JsonCollections.Text

/-- Whether the first text occurs in the second. -/
def occursIn (needle : List Char) : List Char → Bool
  | [] => needle.isEmpty
  | c :: rest => needle.isPrefixOf (c :: rest) || occursIn needle rest

theorem occursIn_iff {needle s : List Char} :
    occursIn needle s = true ↔ ∃ before after, s = before ++ needle ++ after := by
  induction s with
  | nil =>
    constructor
    · intro h
      rw [occursIn, List.isEmpty_iff] at h
      subst h
      exact ⟨[], [], rfl⟩
    · rintro ⟨before, after, h⟩
      rw [List.nil_eq, List.append_eq_nil_iff, List.append_eq_nil_iff] at h
      rw [occursIn, List.isEmpty_iff]
      exact h.1.2
  | cons c rest ih =>
    rw [occursIn, Bool.or_eq_true, List.isPrefixOf_iff_prefix, ih]
    constructor
    · rintro (⟨after, h⟩ | ⟨before, after, h⟩)
      · exact ⟨[], after, h.symm⟩
      · exact ⟨c :: before, after, by rw [h]; rfl⟩
    · rintro ⟨before, after, h⟩
      cases before with
      | nil => exact .inl ⟨after, h.symm⟩
      | cons b bs =>
        rw [List.cons_append, List.cons_append, List.cons.injEq] at h
        exact .inr ⟨bs, after, h.2⟩

end JsonCollections.Text
