set_option autoImplicit false

/-!
# Text: cutting at a separator

A text is cut at its first separator; `cut?_eq_some_iff` says that this is the only way in which
the part before holds no separator.
-/

namespace JsonCollections.Text

/-- The text before and after the first occurrence of a character. -/
def cut? (separator : Char) : List Char → Option (List Char × List Char)
  | [] => none
  | c :: rest =>
    if c = separator then some ([], rest)
    else (cut? separator rest).map fun (before, after) => (c :: before, after)

/-- A text is cut exactly at its first separator. -/
theorem cut?_eq_some_iff {separator : Char} {s before after : List Char} :
    cut? separator s = some (before, after) ↔
      s = before ++ separator :: after ∧ separator ∉ before := by
  induction s generalizing before with
  | nil => simp [cut?]
  | cons c rest ih =>
    by_cases hc : c = separator
    · subst hc
      cases before with
      | nil => simp [cut?, eq_comm]
      | cons b bs =>
        simp only [cut?, if_true, Option.some.injEq, Prod.mk.injEq, List.cons_append,
          List.cons.injEq, List.mem_cons, not_or]
        constructor
        · rintro ⟨h, -⟩
          cases h
        · rintro ⟨⟨h, -⟩, h', -⟩
          exact absurd h h'
    · simp only [cut?, if_neg hc, Option.map_eq_some_iff, Prod.exists, Prod.mk.injEq]
      constructor
      · rintro ⟨b, a, h, rfl, rfl⟩
        obtain ⟨h1, h2⟩ := ih.mp h
        exact ⟨by simp [h1], by simp [h2, Ne.symm hc]⟩
      · rintro ⟨h1, h2⟩
        cases before with
        | nil =>
          rw [List.nil_append, List.cons.injEq] at h1
          exact absurd h1.1 hc
        | cons b bs =>
          rw [List.cons_append, List.cons.injEq] at h1
          rw [List.mem_cons, not_or] at h2
          exact ⟨bs, after, ih.mpr ⟨h1.2, h2.2⟩, by rw [h1.1], rfl⟩

end JsonCollections.Text
