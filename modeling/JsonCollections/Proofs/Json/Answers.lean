import JsonCollections.Json.Reader
import JsonCollections.Proofs.Json.Shape

set_option autoImplicit false

/-!
# What the reader answers

A document that was read repeats no key and is nested no deeper than the room that the reader had
(`fits_of_read`).  The induction is on the fuel, with one statement for documents, one for items and
one for entries.
-/

namespace JsonCollections

namespace Json

/-! ## Documents that fit -/

/-- No key is repeated, and nothing is nested deeper than the room allows. -/
structure Fits (room : Nat) (v : Json) : Prop where
  wellFormed : v.WellFormed
  depth_le : v.depth ≤ room

theorem fits_array {room : Nat} {items : List Json} (h : ∀ v ∈ items, Fits room v) :
    Fits (room + 1) (.array items) :=
  ⟨wellFormed_array_iff.mpr fun v hv => (h v hv).wellFormed,
    Nat.succ_le_succ (depthItems_le_iff.mpr fun v hv => (h v hv).depth_le)⟩

theorem fits_object {room : Nat} {entries : List (String × Json)}
    (h : ∀ e ∈ entries, Fits room e.2) : Fits (room + 1) (.object (Entries.ofList entries)) :=
  ⟨wellFormed_object_ofList fun e he => (h e he).wellFormed,
    Nat.succ_le_succ (depthFields_le_iff.mpr fun e he =>
      (h e (Entries.mem_of_mem_ofList he)).depth_le)⟩

namespace Reader

/-! ## Readers -/

theorem word_eq_ok {α : Type} {cs : List Char} {a b : α} {s rest : List Char}
    (h : word cs a s = .ok (b, rest)) : b = a := by
  induction cs generalizing s with
  | nil =>
    cases h
    rfl
  | cons c cs ih =>
    obtain ⟨found, -, h⟩ := bind_eq_ok h
    exact ih h

/-- What a reader with some fuel answers fits into its room. -/
structure Fitting (fuel : Nat) : Prop where
  value : ∀ {room s v rest}, value fuel room s = .ok (v, rest) → Fits room v
  items : ∀ {room s vs rest}, items fuel room s = .ok (vs, rest) → ∀ v ∈ vs, Fits room v
  members : ∀ {room s es rest}, members fuel room s = .ok (es, rest) → ∀ e ∈ es, Fits room e.2

theorem fits_of_value {fuel : Nat} (ih : Fitting fuel) {room : Nat} {s : List Char} {v : Json}
    {rest : List Char} (h : value (fuel + 1) room s = .ok (v, rest)) : Fits room v := by
  rw [value] at h
  split at h
  case h_1 => cases h
  case h_2 | h_3 | h_4 =>
    obtain rfl := word_eq_ok h
    exact ⟨trivial, Nat.zero_le _⟩
  case h_5 =>
    obtain ⟨found, -, h⟩ := bind_eq_ok h
    cases h
    exact ⟨trivial, Nat.zero_le _⟩
  case h_6 =>
    split at h
    · cases h
    · split at h
      · cases h
        exact fits_array fun _ hv => absurd hv List.not_mem_nil
      · obtain ⟨⟨found, s⟩, hfound, h⟩ := bind_eq_ok h
        cases h
        exact fits_array (ih.items hfound)
  case h_7 =>
    split at h
    · cases h
    · split at h
      · cases h
        exact @fits_object _ [] fun _ he => absurd he List.not_mem_nil
      · obtain ⟨⟨found, s⟩, hfound, h⟩ := bind_eq_ok h
        cases h
        exact fits_object (ih.members hfound)
  case h_8 =>
    split at h
    · obtain ⟨found, -, h⟩ := bind_eq_ok h
      cases h
      exact ⟨trivial, Nat.zero_le _⟩
    · cases h

theorem fits_of_items {fuel : Nat} (ih : Fitting fuel) {room : Nat} {s : List Char}
    {vs : List Json} {rest : List Char} (h : items (fuel + 1) room s = .ok (vs, rest)) :
    ∀ v ∈ vs, Fits room v := by
  rw [items] at h
  obtain ⟨⟨v, s⟩, hv, h⟩ := bind_eq_ok h
  have hfirst := ih.value hv
  simp only at h
  split at h
  · obtain ⟨⟨found, s⟩, hfound, h⟩ := bind_eq_ok h
    cases h
    exact List.forall_mem_cons.mpr ⟨hfirst, ih.items hfound⟩
  · cases h
    exact List.forall_mem_singleton.mpr hfirst
  · cases h

theorem fits_of_members {fuel : Nat} (ih : Fitting fuel) {room : Nat} {s : List Char}
    {es : List (String × Json)} {rest : List Char}
    (h : members (fuel + 1) room s = .ok (es, rest)) : ∀ e ∈ es, Fits room e.2 := by
  rw [members] at h
  obtain ⟨⟨k, s⟩, -, h⟩ := bind_eq_ok h
  obtain ⟨⟨⟨⟩, s⟩, -, h⟩ := bind_eq_ok h
  obtain ⟨⟨v, s⟩, hv, h⟩ := bind_eq_ok h
  have hfirst := ih.value hv
  simp only at h
  split at h
  · obtain ⟨⟨found, s⟩, hfound, h⟩ := bind_eq_ok h
    cases h
    exact List.forall_mem_cons.mpr ⟨hfirst, ih.members hfound⟩
  · cases h
    exact List.forall_mem_singleton.mpr hfirst
  · cases h

theorem fitting (fuel : Nat) : Fitting fuel := by
  induction fuel with
  | zero => exact ⟨nofun, nofun, nofun⟩
  | succ fuel ih => exact ⟨fits_of_value ih, fits_of_items ih, fits_of_members ih⟩

end Reader

/-! ## Whole texts -/

theorem fits_of_read {text : String} {v : Json} (h : read text = .ok v) :
    Fits Reader.maxDepth v := by
  obtain ⟨⟨found, rest⟩, hfound, h⟩ := bind_eq_ok h
  simp only at h
  by_cases hrest : Reader.skipBlanks rest = []
  · rw [if_pos hrest] at h
    cases h
    exact (Reader.fitting _).value hfound
  · rw [if_neg hrest] at h
    cases h

theorem fits_of_readLeading {text : String} {v : Json} (h : readLeading text = .ok v) :
    Fits Reader.maxDepth v := by
  obtain ⟨⟨found, rest⟩, hfound, h⟩ := bind_eq_ok h
  cases h
  exact (Reader.fitting _).value hfound

end Json

end JsonCollections
