import JsonCollections.Text.Blank
import Mathlib.Data.List.TakeWhile

set_option autoImplicit false

/-!
# What is left of a text without its ends

Taking the characters of a class from both ends leaves a text that neither begins nor ends with one
of them (`exists_strip`), and only one text is left (`strip_append`).
-/

namespace JsonCollections.Text

/-- What is taken from the ends of a text is of the class, and what is left neither begins nor ends
with a character of it. -/
theorem exists_strip (p : Char → Bool) (s : List Char) :
    ∃ before after, s = before ++ strip p s ++ after ∧ (∀ c ∈ before, p c = true) ∧
      (∀ c ∈ after, p c = true) ∧ (∀ c, (strip p s).head? = some c → p c = false) ∧
        ∀ c, (strip p s).getLast? = some c → p c = false := by
  have hfirst : ∀ (t : List Char) c, (t.dropWhile p).head? = some c → p c = false := by
    intro t c hc
    have hnot := List.head?_dropWhile_not p t
    rw [hc] at hnot
    exact Bool.eq_false_iff.mpr (by simpa using hnot)
  let rest := s.dropWhile p
  have hrest : rest = strip p s ++ (rest.reverse.takeWhile p).reverse := by
    rw [strip, ← List.reverse_append, List.takeWhile_append_dropWhile, List.reverse_reverse]
  refine ⟨s.takeWhile p, (rest.reverse.takeWhile p).reverse, ?_,
    fun c hc => List.mem_takeWhile_imp hc,
    fun c hc => List.mem_takeWhile_imp (List.mem_reverse.mp hc), ?_, ?_⟩
  · rw [List.append_assoc, ← hrest, List.takeWhile_append_dropWhile]
  · intro c hc
    refine hfirst s c ?_
    change rest.head? = some c
    rw [hrest, List.head?_append, hc, Option.some_or]
  · intro c hc
    rw [strip, List.getLast?_reverse] at hc
    exact hfirst _ c hc

/-- A text that does not begin with a character of a class is left when such characters before it
are dropped. -/
theorem dropWhile_append_of_head? {p : Char → Bool} {before rest : List Char}
    (hbefore : ∀ c ∈ before, p c = true) (hrest : ∀ c, rest.head? = some c → p c = false) :
    (before ++ rest).dropWhile p = rest := by
  rw [List.dropWhile_append_of_pos hbefore]
  cases rest with
  | nil => rfl
  | cons c rest => exact List.dropWhile_cons_of_neg (Bool.eq_false_iff.mp (hrest c rfl))

/-- A text is left of any text that has it between characters of the class, if it neither begins nor
ends with one of them. -/
theorem strip_append {p : Char → Bool} {before body after : List Char}
    (hbefore : ∀ c ∈ before, p c = true) (hafter : ∀ c ∈ after, p c = true)
    (hhead : ∀ c, body.head? = some c → p c = false)
    (hlast : ∀ c, body.getLast? = some c → p c = false) :
    strip p (before ++ body ++ after) = body := by
  unfold strip
  cases body with
  | nil =>
    have hall : ∀ c ∈ before ++ [] ++ after, p c = true := by
      rw [List.append_nil]
      exact List.forall_mem_append.mpr ⟨hbefore, hafter⟩
    rw [List.dropWhile_eq_nil_iff.mpr hall]
    rfl
  | cons c body =>
    have hfront : (before ++ (c :: body) ++ after).dropWhile p = (c :: body) ++ after := by
      rw [List.append_assoc]
      exact dropWhile_append_of_head? hbefore hhead
    rw [hfront, List.reverse_append, dropWhile_append_of_head?, List.reverse_reverse]
    · exact fun d hd => hafter d (List.mem_reverse.mp hd)
    · intro d hd
      rw [List.head?_reverse] at hd
      exact hlast d hd

end JsonCollections.Text
