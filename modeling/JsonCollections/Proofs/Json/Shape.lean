import JsonCollections.Json.Basic
import JsonCollections.Proofs.Entries

set_option autoImplicit false

/-!
# The shape of documents

`WellFormed` and `depth` by membership, and what the changes of entries do to them.
-/

namespace JsonCollections

namespace Json

/-! ## Shape by membership -/

theorem wellFormedItems_iff {items : List Json} :
    WellFormedItems items ↔ ∀ v ∈ items, WellFormed v := by
  induction items with
  | nil => simp [WellFormedItems]
  | cons v rest ih => simp [WellFormedItems, ih]

theorem wellFormedFields_iff {fields : List (String × Json)} :
    WellFormedFields fields ↔ ∀ e ∈ fields, WellFormed e.2 := by
  induction fields with
  | nil => simp [WellFormedFields]
  | cons e rest ih => simp [WellFormedFields, ih]

theorem wellFormed_array_iff {items : List Json} :
    WellFormed (.array items) ↔ ∀ v ∈ items, WellFormed v := by
  rw [WellFormed, wellFormedItems_iff]

theorem wellFormed_object_iff {fields : List (String × Json)} :
    WellFormed (.object fields) ↔ (Entries.keys fields).Nodup ∧ ∀ e ∈ fields, WellFormed e.2 := by
  rw [WellFormed, wellFormedFields_iff]

theorem depthItems_le_iff {items : List Json} {n : Nat} :
    depthItems items ≤ n ↔ ∀ v ∈ items, v.depth ≤ n := by
  induction items with
  | nil => simp [depthItems]
  | cons v rest ih => simp only [depthItems, Nat.max_le, ih, List.forall_mem_cons]

theorem depthFields_le_iff {fields : List (String × Json)} {n : Nat} :
    depthFields fields ≤ n ↔ ∀ e ∈ fields, e.2.depth ≤ n := by
  induction fields with
  | nil => simp [depthFields]
  | cons e rest ih => simp only [depthFields, Nat.max_le, ih, List.forall_mem_cons]

/-- Entries that are set one after the other make a well-formed object of well-formed values. -/
theorem wellFormed_object_ofList {entries : List (String × Json)}
    (h : ∀ e ∈ entries, WellFormed e.2) : WellFormed (.object (Entries.ofList entries)) :=
  wellFormed_object_iff.mpr ⟨Entries.nodup_keys_ofList entries,
    fun e he => h e (Entries.mem_of_mem_ofList he)⟩

/-- Setting a key keeps an object well-formed. -/
theorem wellFormed_object_insert {fields : List (String × Json)} {value : Json}
    (hfields : WellFormed (.object fields)) (hvalue : WellFormed value) (key : String) :
    WellFormed (.object (Entries.insert fields key value)) := by
  obtain ⟨hnodup, hall⟩ := wellFormed_object_iff.mp hfields
  refine wellFormed_object_iff.mpr ⟨Entries.nodup_keys_insert hnodup key value, ?_⟩
  intro e he
  rcases Entries.mem_of_mem_insert he with rfl | he
  · exact hvalue
  · exact hall e he

theorem wellFormed_of_get? {fields : Entries Json} (h : WellFormed (.object fields)) {key : String}
    {v : Json} (hv : fields.get? key = some v) : WellFormed v :=
  (wellFormed_object_iff.mp h).2 (key, v) (Entries.mem_of_get?_eq_some hv)

end Json

end JsonCollections
