import JsonCollections.Entries
import Mathlib.Data.List.Nodup

set_option autoImplicit false

/-!
# Looking, setting and taking out of entries

What the changes of entries leave of their values and keys.  Entries set one after the other are
the entries themselves if no key repeats (`Entries.ofList_of_nodup`).  Lists of results come first,
since entries are read one by one (`mapM_eq_ok_iff`, `mapM_eq_error_iff`).
-/

namespace JsonCollections

/-- A result after another comes from both. -/
theorem bind_eq_ok {ε α β : Type} {x : Except ε α} {f : α → Except ε β} {b : β}
    (h : x.bind f = .ok b) : ∃ a, x = .ok a ∧ f a = .ok b := by
  cases x with
  | error fault => cases h
  | ok a => exact ⟨a, rfl, h⟩

section

variable {ε α β : Type} {f : α → Except ε β}

/-- All results of a list are there if each one is. -/
theorem mapM_eq_ok_iff {xs : List α} {ys : List β} :
    xs.mapM f = .ok ys ↔ List.Forall₂ (fun x y => f x = .ok y) xs ys := by
  induction xs generalizing ys with
  | nil =>
    rw [List.mapM_nil]
    constructor
    · rintro ⟨⟩
      exact .nil
    · rintro ⟨⟩
      rfl
  | cons x rest ih =>
    rw [List.mapM_cons]
    constructor
    · intro h
      obtain ⟨y, hy, h⟩ := bind_eq_ok h
      obtain ⟨others, hothers, h⟩ := bind_eq_ok h
      cases h
      exact .cons hy (ih.mp hothers)
    · intro h
      cases h with
      | cons hy hothers =>
        rw [hy, ih.mpr hothers]
        rfl

/-- The first bad result is the one that counts. -/
theorem mapM_eq_error_iff {xs : List α} {e : ε} :
    xs.mapM f = .error e ↔ ∃ before x after, xs = before ++ x :: after ∧
      (∀ y ∈ before, ∃ b, f y = .ok b) ∧ f x = .error e := by
  induction xs with
  | nil => exact ⟨nofun, fun ⟨before, x, after, h, _⟩ => by simp at h⟩
  | cons x rest ih =>
    rw [List.mapM_cons]
    cases hx : f x with
    | error fault =>
      constructor
      · intro h
        cases h
        exact ⟨[], x, rest, rfl, nofun, hx⟩
      · rintro ⟨before, y, after, hxs, hbefore, hy⟩
        cases before with
        | nil =>
          cases hxs
          rw [hx] at hy
          cases hy
          rfl
        | cons first more =>
          cases hxs
          obtain ⟨b, hb⟩ := hbefore x List.mem_cons_self
          rw [hx] at hb
          cases hb
    | ok b =>
      have hrest : (do let b ← Except.ok b; let bs ← rest.mapM f; pure (b :: bs)) =
          (.error e : Except ε (List β)) ↔ rest.mapM f = .error e := by
        cases rest.mapM f with
        | error fault => rfl
        | ok bs => exact ⟨nofun, nofun⟩
      refine hrest.trans (ih.trans ?_)
      constructor
      · rintro ⟨before, y, after, rfl, hbefore, hy⟩
        exact ⟨x :: before, y, after, rfl, List.forall_mem_cons.mpr ⟨⟨b, hx⟩, hbefore⟩, hy⟩
      · rintro ⟨before, y, after, hxs, hbefore, hy⟩
        cases before with
        | nil =>
          cases hxs
          rw [hx] at hy
          cases hy
        | cons first more =>
          cases hxs
          exact ⟨more, y, after, rfl, (List.forall_mem_cons.mp hbefore).2, hy⟩

end

/-- What is said of a result can be decided if it can be decided of its value. -/
instance decidableForallOk {ε α : Type} (x : Except ε α) (p : α → Prop) [DecidablePred p] :
    Decidable (∀ a, x = .ok a → p a) :=
  match x with
  | .error _ => .isTrue nofun
  | .ok a => decidable_of_iff (p a) ⟨fun h _ hb => Except.ok.inj hb ▸ h, fun h => h a rfl⟩

namespace Entries

variable {α : Type}

/-! ## Looking -/

theorem mem_of_get?_eq_some {entries : Entries α} {key : String} {value : α}
    (h : entries.get? key = some value) : (key, value) ∈ entries := by
  obtain ⟨before, after, rfl, -⟩ := List.lookup_eq_some_iff.mp h
  exact List.mem_append_right _ List.mem_cons_self

/-- A key that is not repeated has the value of its entry. -/
theorem get?_of_mem {entries : Entries α} (h : entries.keys.Nodup) {key : String} {value : α}
    (hmem : (key, value) ∈ entries) : entries.get? key = some value := by
  induction entries with
  | nil => cases hmem
  | cons entry rest ih =>
    obtain ⟨k, v⟩ := entry
    obtain ⟨hk, hrest⟩ := List.nodup_cons.mp h
    rw [get?_cons]
    rcases List.mem_cons.mp hmem with heq | hmem
    · cases heq
      exact if_pos rfl
    · have hkey : key ∈ keys rest := List.mem_map_of_mem hmem
      have hne : key ≠ k := fun heq => hk (heq ▸ hkey)
      rw [if_neg hne, ih hrest hmem]

theorem get?_eq_none_iff {entries : Entries α} {key : String} :
    entries.get? key = none ↔ key ∉ entries.keys := by
  simp only [get?, List.lookup_eq_none_iff, keys, List.mem_map, not_exists, not_and, bne_iff_ne]
  exact forall₂_congr fun _ _ => ne_comm

/-! ## Setting keys -/

/-- A key that is new comes last. -/
theorem insert_of_not_mem {entries : Entries α} {key : String} (hkey : key ∉ entries.keys)
    (value : α) : entries.insert key value = entries ++ [(key, value)] := by
  induction entries with
  | nil => rfl
  | cons entry rest ih =>
    obtain ⟨k, v⟩ := entry
    simp only [keys, List.map_cons, List.mem_cons, not_or] at hkey
    rw [insert, if_neg (Ne.symm hkey.1), ih hkey.2, List.cons_append]

/-- What is there after setting a key was set or was there before. -/
theorem mem_of_mem_insert {entries : Entries α} {key : String} {value : α} {e : String × α}
    (he : e ∈ entries.insert key value) : e = (key, value) ∨ e ∈ entries := by
  induction entries with
  | nil => exact .inl (List.mem_singleton.mp he)
  | cons entry rest ih =>
    obtain ⟨k, v⟩ := entry
    rw [insert] at he
    split at he
    · rename_i hk
      rcases List.mem_cons.mp he with rfl | he
      · exact .inl (by rw [hk])
      · exact .inr (List.mem_cons_of_mem _ he)
    · rcases List.mem_cons.mp he with rfl | he
      · exact .inr List.mem_cons_self
      · exact (ih he).imp_right (List.mem_cons_of_mem _)

/-- Entries that are set one after the other come from the list. -/
theorem mem_of_mem_ofList {entries : List (String × α)} {e : String × α}
    (he : e ∈ ofList entries) : e ∈ entries := by
  have keep : ∀ done : Entries α,
      e ∈ entries.foldl (fun done entry => insert done entry.1 entry.2) done →
      e ∈ done ∨ e ∈ entries := by
    clear he
    induction entries with
    | nil => exact fun _ h => .inl h
    | cons entry rest ih =>
      intro done h
      rcases ih _ h with h | h
      · rcases mem_of_mem_insert h with rfl | h
        · exact .inr List.mem_cons_self
        · exact .inl h
      · exact .inr (List.mem_cons_of_mem _ h)
  exact (keep [] he).resolve_left List.not_mem_nil

/-- Entries without repeated keys are what is left when they are set one after the other. -/
theorem ofList_of_nodup {entries : List (String × α)} (h : (keys entries).Nodup) :
    ofList entries = entries := by
  have keep : ∀ done : Entries α, (keys (done ++ entries)).Nodup →
      entries.foldl (fun done entry => insert done entry.1 entry.2) done = done ++ entries := by
    clear h
    induction entries with
    | nil => exact fun done _ => (List.append_nil done).symm
    | cons entry rest ih =>
      intro done hdone
      have hnew : entry.1 ∉ keys done := by
        simp only [keys, List.map_append, List.map_cons] at hdone
        have hdisjoint := (List.nodup_append.mp hdone).2.2
        exact fun hmem => hdisjoint _ hmem _ List.mem_cons_self rfl
      rw [List.foldl_cons, insert_of_not_mem hnew, ih, List.append_assoc, List.singleton_append]
      rwa [List.append_assoc, List.singleton_append]
  exact keep [] h

/-- A key keeps its value while others are set. -/
theorem get?_ofList_cons {entries : List (String × α)} {key : String} (h : key ∉ keys entries)
    (value : α) : get? (ofList ((key, value) :: entries)) key = some value := by
  have keep : ∀ done : Entries α, get? done key = some value →
      get? (entries.foldl (fun done entry => insert done entry.1 entry.2) done) key = some value := by
    induction entries with
    | nil => exact fun _ hdone => hdone
    | cons entry rest ih =>
      simp only [keys, List.map_cons, List.mem_cons, not_or] at h
      intro done hdone
      apply ih h.2
      rw [get?_insert, if_neg h.1, hdone]
  exact keep _ ((get?_cons key value [] key).trans (if_pos rfl))

/-! ## Taking keys out -/

/-- Taking a key out leaves entries that were there, and does not repeat a key. -/
theorem remove?_eq_some {entries left : Entries α} {key : String} {value : α}
    (h : entries.remove? key = some (value, left)) :
    (∀ e ∈ left, e ∈ entries) ∧ (entries.keys.Nodup → left.keys.Nodup) := by
  unfold remove? at h
  split at h
  · rename_i i last hi hlast
    obtain ⟨v, -, heq⟩ := Option.map_eq_some_iff.mp h
    obtain ⟨-, rfl⟩ := Prod.mk.inj heq
    obtain ⟨front, rfl⟩ : ∃ front, entries = front ++ [last] := by
      refine ⟨entries.dropLast, ?_⟩
      rw [List.dropLast_append_getLast?]
      exact hlast
    -- the last entry moves to the index, unless it is the one that goes
    by_cases hlt : i < front.length
    · rw [List.set_append_left _ _ hlt, List.dropLast_concat]
      constructor
      · intro e he
        rcases List.mem_or_eq_of_mem_set he with he | rfl
        · exact List.mem_append_left _ he
        · exact List.mem_append_right _ (List.mem_singleton_self _)
      · intro hnodup
        simp only [keys, List.map_append, List.map_cons, List.map_nil, List.map_set] at hnodup ⊢
        obtain ⟨hfront, -, hdisjoint⟩ := List.nodup_append.mp hnodup
        exact hfront.set fun hmem => hdisjoint _ hmem _ (List.mem_singleton_self _) rfl
    · have hset : (front ++ [last]).set i last = front ++ [last] := by
        rw [List.set_append_right _ _ (Nat.not_lt.mp hlt)]
        cases i - front.length <;> rfl
      rw [hset, List.dropLast_concat]
      refine ⟨fun e he => List.mem_append_left _ he, ?_⟩
      intro hnodup
      simp only [keys, List.map_append] at hnodup ⊢
      exact (List.nodup_append.mp hnodup).1
  · cases h

theorem get?_filter_ne (entries : Entries α) (key other : String) :
    get? (entries.filter (·.1 ≠ key)) other = if other = key then none else get? entries other := by
  induction entries with
  | nil => split <;> rfl
  | cons entry rest ih =>
    obtain ⟨k, v⟩ := entry
    by_cases hk : k = key
    · rw [List.filter_cons_of_neg (by simp [hk]), ih, get?_cons, hk]
      split <;> rfl
    · rw [List.filter_cons_of_pos (by simp [hk]), get?_cons, ih, get?_cons]
      by_cases ho : other = k
      · rw [if_pos ho, if_neg (ho ▸ hk), if_pos ho]
      · rw [if_neg ho, if_neg ho]

end Entries

end JsonCollections
