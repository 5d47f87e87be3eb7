import JsonCollections.Collection.Basic
import JsonCollections.Proofs.Json.Patching
import JsonCollections.Proofs.Json.RoundTrip

set_option autoImplicit false

/-!
# The text of a collection

Items are stored inside an array, which takes one of the levels that the reader has room for.  So
the text of items gives the items back exactly if each of them is nested at most
`Item.maxDepth` deep (`itemsOfText_textOfItems`), and the items of a text that was read are nested
so deep at most (`fits_of_itemsOfText`).

Changes keep items well-formed, and they leave the file of the collection and its limit alone.
-/

namespace JsonCollections

/-! ## Items inside the array -/

namespace Item

/-- How deep an item may be nested to be read back: the array around it takes a level. -/
def maxDepth : Nat := Json.Reader.maxDepth - 1

/-- The item repeats no key. -/
def WellFormed (item : Item) : Prop := (Json.object item).WellFormed

/-- The item is nested no deeper than the reader has room for. -/
def Readable (item : Item) : Prop := (Json.object item).depth ≤ maxDepth

instance (item : Item) : Decidable item.Readable := Nat.decLe _ _

theorem wellFormed_leadingId {item : Item} (h : item.WellFormed) (id : ItemId) :
    (item.leadingId id).WellFormed := by
  apply Json.wellFormed_object_ofList
  intro e he
  rcases List.mem_cons.mp he with rfl | he
  · trivial
  · exact (Json.wellFormed_object_iff.mp h).2 e he

theorem wellFormed_withId {item : Item} (h : item.WellFormed) (id : ItemId) :
    (item.withId id).WellFormed := by
  have hnumber : (Json.number (.ofNat id)).WellFormed := trivial
  exact Json.wellFormed_object_insert h hnumber idKey

theorem readable_iff {item : Item} :
    item.Readable ↔ ∀ e ∈ item, e.2.depth + 1 ≤ maxDepth := by
  change Json.depthFields item + 1 ≤ Json.Reader.maxDepth - 2 + 1 ↔ _
  rw [Nat.add_le_add_iff_right, Json.depthFields_le_iff]
  exact forall₂_congr fun e _ => (Nat.add_le_add_iff_right (n := 1)).symm

/-- An id takes no level. -/
theorem readable_cons_id {item : Item} (h : item.Readable) (id : ItemId) :
    Item.Readable ((idKey, .number (.ofNat id)) :: item) := by
  rw [readable_iff] at h ⊢
  rintro e he
  rcases List.mem_cons.mp he with rfl | he
  · exact Nat.succ_le_succ (Nat.zero_le _)
  · exact h e he

theorem readable_withId {item : Item} (h : item.Readable) (id : ItemId) :
    (item.withId id).Readable := by
  rw [readable_iff] at h ⊢
  intro e he
  rcases Entries.mem_of_mem_insert he with rfl | he
  · exact Nat.succ_le_succ (Nat.zero_le _)
  · exact h e he

end Item

theorem mapM_fields?_eq_some {documents : List Json} {items : List Item} :
    documents.mapM Json.fields? = some items ↔ documents = items.map .object := by
  constructor
  · intro h
    induction documents generalizing items with
    | nil =>
      cases h
      rfl
    | cons v rest ih =>
      rw [List.mapM_cons] at h
      obtain ⟨item, hitem, h⟩ := Option.bind_eq_some_iff.mp h
      obtain ⟨others, hothers, h⟩ := Option.bind_eq_some_iff.mp h
      cases h
      rw [List.map_cons, ih hothers, Json.fields?_eq_some_iff.mp hitem]
  · rintro rfl
    induction items with
    | nil => rfl
    | cons item rest ih =>
      rw [List.map_cons, List.mapM_cons, ih]
      rfl

namespace Collection

/-- No item repeats a key. -/
def AreWellFormed (items : List Item) : Prop := ∀ item ∈ items, item.WellFormed

/-- Every item is nested no deeper than the reader has room for. -/
def AreReadable (items : List Item) : Prop := ∀ item ∈ items, item.Readable

instance (items : List Item) : Decidable (AreReadable items) :=
  inferInstanceAs (Decidable (∀ item ∈ items, item.Readable))

/-- The text of items gives the items back if they are not nested too deep, and nothing if one
of them is. -/
theorem itemsOfText_textOfItems {items : List Item} (h : AreWellFormed items) :
    itemsOfText (textOfItems items) =
      if AreReadable items then .ok items else .error (.notJson .malformed) := by
  have hshape : (Json.array (items.map .object)).WellFormed := by
    rw [Json.wellFormed_array_iff]
    intro v hv
    obtain ⟨item, hitem, rfl⟩ := List.mem_map.mp hv
    exact h item hitem
  have hdepth : (Json.array (items.map .object)).depth ≤ Json.Reader.maxDepth ↔
      AreReadable items := by
    change Json.depthItems (items.map .object) + 1 ≤ Item.maxDepth + 1 ↔ _
    rw [Nat.add_le_add_iff_right, Json.depthItems_le_iff, List.forall_mem_map]
    rfl
  rw [itemsOfText, textOfItems, Json.read_indented hshape]
  by_cases hreadable : AreReadable items
  · rw [if_pos (hdepth.mpr hreadable), if_pos hreadable]
    have hobjects : (Json.array (items.map .object)).objects? = some items :=
      mapM_fields?_eq_some.mpr rfl
    simp only [hobjects]
  · rw [if_neg (mt hdepth.mp hreadable), if_neg hreadable]

/-- The items of a text that was read repeat no key and are not nested too deep. -/
theorem fits_of_itemsOfText {text : String} {items : List Item}
    (h : itemsOfText text = .ok items) : AreWellFormed items ∧ AreReadable items := by
  unfold itemsOfText at h
  split at h
  · cases h
  · rename_i document hread
    split at h
    · rename_i found hfound
      cases h
      cases document with
      | array documents =>
        obtain rfl := mapM_fields?_eq_some.mp hfound
        obtain ⟨hshape, hdepth⟩ := Json.fits_of_read hread
        rw [Json.wellFormed_array_iff, List.forall_mem_map] at hshape
        have hdepth := Nat.le_of_succ_le_succ hdepth
        rw [Json.depthItems_le_iff, List.forall_mem_map] at hdepth
        exact ⟨hshape, hdepth⟩
      | null | bool _ | number _ | string _ | object _ => cases hfound
    · cases h

end Collection

/-! ## Changes -/

/-- The documents that a change carries repeat no key.  What the reader accepts is so. -/
def Mutation.WellFormed : Mutation → Prop
  | .insert item | .update _ item => item.WellFormed
  | .patch _ operations => operations.WellFormed
  | .delete _ => True

namespace Collection

theorem mem_of_find?_eq_some {c : Collection} {id : ItemId} {item : Item}
    (h : c.find? id = some item) : item ∈ c.items := List.mem_of_find?_eq_some h

/-- What a change that succeeds makes of a collection, and the item it answers. -/
inductive Applied (c : Collection) : Mutation → Collection → Item → Prop where
  | insert {item : Item} {id : ItemId} (hfree : item.get? Item.idKey = none)
      (hroom : c.items.length < c.maxItems) (hid : nextId? c.lastId = some id) :
      Applied c (.insert item)
        { c with lastId := some id, items := c.items ++ [item.leadingId id] } (item.leadingId id)
  | update {id : ItemId} {item : Item} {i : Nat} (hplace : c.position? id = some i) :
      Applied c (.update id item) { c with items := c.items.set i (item.withId id) }
        (item.withId id)
  | patch {id : ItemId} {operations : Json.Patch} {i : Nat} {old item : Item}
      (hplace : c.position? id = some i) (hold : c.find? id = some old)
      (hrun : operations.run (.object old) = .ok (.object item)) :
      Applied c (.patch id operations) { c with items := c.items.set i item } item
  | delete {id : ItemId} {i : Nat} {old : Item} (hplace : c.position? id = some i)
      (hold : c.find? id = some old) :
      Applied c (.delete id) { c with items := c.items.eraseIdx i } old

theorem applied_of_apply {c d : Collection} {m : Mutation} {answer : Item}
    (h : c.apply m = .ok (d, answer)) : Applied c m d answer := by
  cases m with
  | insert item =>
    simp only [apply] at h
    split at h
    · cases h
    · rename_i hfree
      split at h
      · cases h
      · rename_i hroom
        split at h
        · cases h
        · cases h
          exact .insert (Option.not_isSome_iff_eq_none.mp hfree) (Nat.not_le.mp hroom) ‹_›
  | update id item =>
    simp only [apply] at h
    split at h
    · cases h
    · cases h
      exact .update ‹_›
  | patch id operations =>
    simp only [apply] at h
    split at h
    · split at h
      · cases h
      · cases h
        exact .patch ‹_› ‹_› ‹_›
      · cases h
    · cases h
  | delete id =>
    simp only [apply] at h
    split at h
    · cases h
      exact .delete ‹_› ‹_›
    · cases h

/-- The collection is the same but for its items and the greatest id. -/
structure SameFile (c d : Collection) : Prop where
  filePath : d.filePath = c.filePath
  urlPath : d.urlPath = c.urlPath
  maxItems : d.maxItems = c.maxItems

theorem SameFile.refl (c : Collection) : SameFile c c := ⟨rfl, rfl, rfl⟩

theorem SameFile.trans {c d e : Collection} (h : SameFile c d) (h' : SameFile d e) :
    SameFile c e :=
  ⟨h'.filePath.trans h.filePath, h'.urlPath.trans h.urlPath, h'.maxItems.trans h.maxItems⟩

/-- A change concerns the items and the greatest id only. -/
theorem Applied.sameFile {c d : Collection} {m : Mutation} {answer : Item}
    (h : Applied c m d answer) : SameFile c d := by
  cases h <;> exact ⟨rfl, rfl, rfl⟩

/-- A change keeps the items well-formed. -/
theorem Applied.areWellFormed {c d : Collection} {m : Mutation} {answer : Item}
    (h : Applied c m d answer) (hc : AreWellFormed c.items) (hm : m.WellFormed) :
    AreWellFormed d.items := by
  have hset : ∀ (i : Nat) (item : Item), item.WellFormed → AreWellFormed (c.items.set i item) := by
    intro i item hitem other hother
    rcases List.mem_or_eq_of_mem_set hother with hother | rfl
    · exact hc other hother
    · exact hitem
  cases h with
  | insert =>
    intro other hother
    rcases List.mem_append.mp hother with hother | hother
    · exact hc other hother
    · rw [List.mem_singleton.mp hother]
      exact Item.wellFormed_leadingId hm _
  | update => exact hset _ _ (Item.wellFormed_withId hm _)
  | patch hplace hold hrun =>
    exact hset _ _ (Json.Patch.wellFormed_run hm (hc _ (mem_of_find?_eq_some hold)) hrun)
  | delete => exact fun other hother => hc other (List.mem_of_mem_eraseIdx hother)

section

variable {σ : Type} [Storage σ]

/-- How a change of a collection and its store ends: it cannot be made, or it is made, and then
the write succeeds or fails. -/
inductive Mutated (c : Collection) (store : σ) (m : Mutation) :
    σ × Collection × Except WriteError Item → Prop where
  | refused (error : WriteError) (happly : c.apply m = .error error) :
      Mutated c store m (store, c, .error error)
  | stored {store' : σ} {d : Collection} {answer : Item} (happlied : Applied c m d answer)
      (hwrite : Storage.write store c.filePath (textOfItems d.items) = (store', .ok ())) :
      Mutated c store m (store', d, .ok answer)
  | unstored {store' : σ} {d : Collection} {answer : Item} {fault : WriteFault}
      (happlied : Applied c m d answer)
      (hwrite : Storage.write store c.filePath (textOfItems d.items) = (store', .error fault)) :
      Mutated c store m (store', d, .error (.store fault))

theorem mutated (c : Collection) (store : σ) (m : Mutation) :
    Mutated c store m (c.mutate store m) := by
  unfold mutate
  split
  · exact .refused _ ‹_›
  · rename_i d answer happly
    have happlied := applied_of_apply happly
    split
    all_goals
      rename_i hwrite
      unfold storeIn at hwrite
      rw [happlied.sameFile.filePath] at hwrite
    · exact .stored happlied hwrite
    · exact .unstored happlied hwrite

/-- Whatever becomes of a change, the collection keeps its file. -/
theorem sameFile_mutate (c : Collection) (store : σ) (m : Mutation) :
    SameFile c (c.mutate store m).2.1 := by
  have h := mutated c store m
  generalize c.mutate store m = after at h
  cases h with
  | refused error => exact SameFile.refl c
  | stored happlied hwrite => exact happlied.sameFile
  | unstored happlied hwrite => exact happlied.sameFile

end

end Collection

end JsonCollections
