import JsonCollections.Json.Patch
import JsonCollections.Proofs.Json.Answers

set_option autoImplicit false

/-!
# Patches keep documents well-formed

No operation of a patch makes an object repeat a key, if the values that the patch carries repeat
none (`Patch.wellFormed_run`).  A value in a document is reached along a place, so the induction
follows the places of pointers.
-/

namespace JsonCollections.Json

/-! ## Places -/

theorem wellFormed_at? {v w : Json} {place : List String} (hv : v.WellFormed)
    (h : v.at? place = some w) : w.WellFormed := by
  induction place generalizing v with
  | nil =>
    rw [at?] at h
    exact Option.some.inj h ▸ hv
  | cons token rest ih =>
    cases v with
    | object fields =>
      rw [at?] at h
      split at h
      · exact ih (wellFormed_of_get? hv ‹_›) h
      · cases h
    | array items =>
      rw [at?] at h
      split at h
      · rename_i found hfound
        obtain ⟨i, -, hi⟩ := Option.bind_eq_some_iff.mp hfound
        exact ih (wellFormed_array_iff.mp hv found (List.mem_of_getElem? hi)) h
      · cases h
    | null | bool _ | number _ | string _ => cases h

/-- A change keeps documents well-formed. -/
def KeepsWellFormed (change : Json → Option Json) : Prop :=
  ∀ v w, v.WellFormed → change v = some w → w.WellFormed

theorem wellFormed_alter? {change : Json → Option Json} (hchange : KeepsWellFormed change)
    {v w : Json} {place : List String} (hv : v.WellFormed) (h : v.alter? change place = some w) :
    w.WellFormed := by
  induction place generalizing v w with
  | nil =>
    rw [alter?] at h
    exact hchange v w hv h
  | cons token rest ih =>
    cases v with
    | object fields =>
      rw [alter?] at h
      split at h
      · obtain ⟨changed, hchanged, rfl⟩ := Option.map_eq_some_iff.mp h
        exact wellFormed_object_insert hv (ih (wellFormed_of_get? hv ‹_›) hchanged) token
      · cases h
    | array items =>
      rw [alter?] at h
      split at h
      · cases h
      · split at h
        · rename_i i _ found hfound
          obtain ⟨changed, hchanged, rfl⟩ := Option.map_eq_some_iff.mp h
          have hitems := wellFormed_array_iff.mp hv
          have hnew := ih (hitems found (List.mem_of_getElem? hfound)) hchanged
          apply wellFormed_array_iff.mpr
          intro u hu
          rcases List.mem_or_eq_of_mem_set hu with hu | rfl
          · exact hitems u hu
          · exact hnew
        · cases h
    | null | bool _ | number _ | string _ => cases h

theorem keepsWellFormed_setChild? {value : Json} (hvalue : value.WellFormed) (token : String) :
    KeepsWellFormed (setChild? token value) := by
  intro v w hv h
  cases v with
  | object fields =>
    cases h
    exact wellFormed_object_insert hv hvalue token
  | array items =>
    have hitems := wellFormed_array_iff.mp hv
    simp only [setChild?] at h
    split at h
    · cases h
      apply wellFormed_array_iff.mpr
      intro u hu
      rcases List.mem_append.mp hu with hu | hu
      · exact hitems u hu
      · exact List.mem_singleton.mp hu ▸ hvalue
    · split at h
      · split at h
        · cases h
          apply wellFormed_array_iff.mpr
          intro u hu
          rcases (List.mem_insertIdx ‹_›).mp hu with rfl | hu
          · exact hvalue
          · exact hitems u hu
        · cases h
      · cases h
  | null | bool _ | number _ | string _ => cases h

theorem keepsWellFormed_takeChild? (token : String) : KeepsWellFormed (takeChild? token) := by
  intro v w hv h
  cases v with
  | object fields =>
    obtain ⟨⟨value, left⟩, hleft, rfl⟩ := Option.map_eq_some_iff.mp h
    obtain ⟨hnodup, hfields⟩ := wellFormed_object_iff.mp hv
    obtain ⟨hsubset, hkeys⟩ := Entries.remove?_eq_some hleft
    exact wellFormed_object_iff.mpr ⟨hkeys hnodup, fun e he => hfields e (hsubset e he)⟩
  | array items =>
    simp only [takeChild?] at h
    split at h
    · split at h
      · cases h
        exact wellFormed_array_iff.mpr fun u hu =>
          wellFormed_array_iff.mp hv u (List.mem_of_mem_eraseIdx hu)
      · cases h
    · cases h
  | null | bool _ | number _ | string _ => cases h

theorem wellFormed_put? {v w value : Json} {place : List String} (hv : v.WellFormed)
    (hvalue : value.WellFormed) (h : v.put? place value = some w) : w.WellFormed := by
  unfold put? at h
  split at h
  · exact Option.some.inj h ▸ hvalue
  · exact wellFormed_alter? (keepsWellFormed_setChild? hvalue _) hv h

theorem wellFormed_take? {v value rest : Json} {place : List String} (hv : v.WellFormed)
    (h : v.take? place = some (value, rest)) : value.WellFormed ∧ rest.WellFormed := by
  unfold take? at h
  split at h
  · cases h
  · obtain ⟨found, hfound, h⟩ := Option.bind_eq_some_iff.mp h
    obtain ⟨left, hleft, h⟩ := Option.bind_eq_some_iff.mp h
    cases h
    exact ⟨wellFormed_at? hv hfound, wellFormed_alter? (keepsWellFormed_takeChild? _) hv hleft⟩

/-! ## Operations -/

namespace Operation

/-- The value that the operation carries repeats no key. -/
def WellFormed : Operation → Prop
  | .add _ value | .replace _ value | .test _ value => value.WellFormed
  | .remove _ | .move _ _ | .copy _ _ => True

theorem orFault_eq_ok {α : Type} {fault : OperationFault} {found : Option α} {a : α}
    (h : orFault fault found = .ok a) : found = some a := by
  cases found with
  | none => cases h
  | some b =>
    cases h
    rfl

theorem wellFormed_putAt {document value w : Json} {path : String} (hdocument : document.WellFormed)
    (hvalue : value.WellFormed) (h : putAt document path value = .ok w) : w.WellFormed := by
  obtain ⟨place, -, hput⟩ := Option.bind_eq_some_iff.mp (orFault_eq_ok h)
  exact wellFormed_put? hdocument hvalue hput

theorem wellFormed_takeFrom {document value rest : Json} {path : String} {fault : OperationFault}
    (hdocument : document.WellFormed) (h : takeFrom document path fault = .ok (value, rest)) :
    value.WellFormed ∧ rest.WellFormed := by
  obtain ⟨place, -, htake⟩ := Option.bind_eq_some_iff.mp (orFault_eq_ok h)
  exact wellFormed_take? hdocument htake

theorem wellFormed_lookAt {document value : Json} {path : String} {fault : OperationFault}
    (hdocument : document.WellFormed) (h : lookAt document path fault = .ok value) :
    value.WellFormed := by
  obtain ⟨place, -, hat⟩ := Option.bind_eq_some_iff.mp (orFault_eq_ok h)
  exact wellFormed_at? hdocument hat

theorem wellFormed_run {op : Operation} (hop : op.WellFormed) {document w : Json}
    (hdocument : document.WellFormed) (h : op.run document = .ok w) : w.WellFormed := by
  cases op with
  | add path value => exact wellFormed_putAt hdocument hop h
  | remove path =>
    obtain ⟨⟨value, rest⟩, htake, h⟩ := bind_eq_ok h
    cases h
    exact (wellFormed_takeFrom hdocument htake).2
  | replace path value =>
    obtain ⟨place, -, halter⟩ := Option.bind_eq_some_iff.mp (orFault_eq_ok h)
    have hset : KeepsWellFormed fun _ => some value := fun _ _ _ h => Option.some.inj h ▸ hop
    exact wellFormed_alter? hset hdocument halter
  | move source path =>
    simp only [run] at h
    split at h
    · cases h
    · obtain ⟨⟨value, rest⟩, htake, h⟩ := bind_eq_ok h
      obtain ⟨hvalue, hrest⟩ := wellFormed_takeFrom hdocument htake
      exact wellFormed_putAt hrest hvalue h
  | copy source path =>
    obtain ⟨value, hvalue, h⟩ := bind_eq_ok h
    exact wellFormed_putAt hdocument (wellFormed_lookAt hdocument hvalue) h
  | test path value =>
    obtain ⟨found, -, h⟩ := bind_eq_ok h
    split at h
    · cases h
      exact hdocument
    · cases h

end Operation

/-! ## Patches -/

/-- The values that a patch carries repeat no key. -/
def Patch.WellFormed (patch : Patch) : Prop := ∀ op ∈ patch, op.WellFormed

theorem Patch.wellFormed_runFrom {patch : Patch} (hpatch : patch.WellFormed) {index : Nat}
    {document w : Json} (hdocument : document.WellFormed)
    (h : runFrom index document patch = .ok w) : w.WellFormed := by
  induction patch generalizing index document with
  | nil =>
    cases h
    exact hdocument
  | cons op rest ih =>
    obtain ⟨hop, hrest⟩ := List.forall_mem_cons.mp hpatch
    rw [runFrom] at h
    split at h
    · exact ih hrest (Operation.wellFormed_run hop hdocument ‹_›) h
    · cases h

/-- What a patch makes of a well-formed document is well-formed. -/
theorem Patch.wellFormed_run {patch : Patch} (hpatch : patch.WellFormed) {document w : Json}
    (hdocument : document.WellFormed) (h : patch.run document = .ok w) : w.WellFormed :=
  wellFormed_runFrom hpatch hdocument h

end JsonCollections.Json
