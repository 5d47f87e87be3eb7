import JsonCollections.Proofs.Collection.Location
import JsonCollections.Proofs.Collection.Stored

set_option autoImplicit false

/-!
# Loading what was stored

`Edited` says which collections come of loading one and changing it, each change stored.  Such a
collection is loaded again as it is, under the same URL path, exactly if its items are readable;
otherwise the file that was written is refused (`load_of_edited`).

An item may be nested as deep as the reader allows and is then stored a level deeper, so a change
that is accepted can leave a file that is not (`not_forall_load_of_insert`).
-/

namespace JsonCollections.Collection

/-! ## The file behind a collection -/

section

variable {σ : Type} [Storage σ]

/-- The file behind a URL path holds the items of a collection, or a text that the reader refuses
if they are not readable. -/
structure Backed (library : Library) (urlPath : String) (store : σ) (c : Collection) : Prop where
  resolve : Location.resolve store library.base urlPath = some c.filePath
  urlPath_eq : c.urlPath = urlPath
  maxItems_eq : c.maxItems = library.maxItems
  areWellFormed : AreWellFormed c.items
  read : ∃ text, Storage.read store c.filePath = .ok text ∧
    itemsOfText text = if AreReadable c.items then .ok c.items else .error (.notJson .malformed)

/-- The steps of loading that succeeds. -/
theorem load_eq_ok {library : Library} {urlPath : String} {store : σ} {c : Collection}
    (h : load store library urlPath = .ok c) :
    ∃ text, Location.resolve store library.base urlPath = some c.filePath ∧
      Storage.read store c.filePath = .ok text ∧ itemsOfText text = .ok c.items ∧
      c = { filePath := c.filePath, urlPath, lastId := greatestId c.items,
            maxItems := library.maxItems, items := c.items } := by
  unfold load at h
  split at h
  · cases h
  · split at h
    · cases h
    · obtain ⟨items, hitems, h⟩ := bind_eq_ok h
      cases h
      exact ⟨_, ‹_›, ‹_›, hitems, rfl⟩

/-- A file that holds the text of items is loaded as these items. -/
theorem load_eq_of_text {store : σ} {library : Library} {urlPath : String} {file : Path}
    {items : List Item} (hresolve : Location.resolve store library.base urlPath = some file)
    (hread : Storage.read store file = .ok (textOfItems items)) (hitems : AreWellFormed items)
    (hreadable : AreReadable items) : load store library urlPath =
      .ok { filePath := file, urlPath, lastId := greatestId items, maxItems := library.maxItems,
            items } := by
  have htext := itemsOfText_textOfItems hitems
  rw [if_pos hreadable] at htext
  simp only [load, hresolve, hread, htext]
  rfl

theorem lastId_of_load {library : Library} {urlPath : String} {store : σ} {c : Collection}
    (h : load store library urlPath = .ok c) : c.lastId = greatestId c.items := by
  obtain ⟨text, -, -, -, hc⟩ := load_eq_ok h
  rw [hc]

theorem maxItems_of_load {library : Library} {urlPath : String} {store : σ} {c : Collection}
    (h : load store library urlPath = .ok c) : c.maxItems = library.maxItems := by
  obtain ⟨text, -, -, -, hc⟩ := load_eq_ok h
  rw [hc]

theorem areReadable_of_load {library : Library} {urlPath : String} {store : σ} {c : Collection}
    (h : load store library urlPath = .ok c) : AreReadable c.items := by
  obtain ⟨text, -, -, hitems, -⟩ := load_eq_ok h
  exact (fits_of_itemsOfText hitems).2

theorem backed_of_load {library : Library} {urlPath : String} {store : σ} {c : Collection}
    (h : load store library urlPath = .ok c) : Backed library urlPath store c := by
  obtain ⟨text, hresolve, hread, hitems, hc⟩ := load_eq_ok h
  obtain ⟨hwellFormed, hreadable⟩ := fits_of_itemsOfText hitems
  refine ⟨hresolve, by rw [hc], by rw [hc], hwellFormed, text, hread, ?_⟩
  rw [if_pos hreadable, hitems]

/-- A collection is loaded as it is from the file behind it, if it is readable. -/
theorem Backed.load_eq {library : Library} {urlPath : String} {store : σ} {c : Collection}
    (h : Backed library urlPath store c) : load store library urlPath =
      if AreReadable c.items then .ok { c with lastId := greatestId c.items }
      else .error (.notJson .malformed) := by
  obtain ⟨text, hread, hitems⟩ := h.read
  simp only [load, h.resolve, hread, hitems]
  by_cases hreadable : AreReadable c.items
  · rw [if_pos hreadable, if_pos hreadable, ← h.urlPath_eq, ← h.maxItems_eq]
    rfl
  · rw [if_neg hreadable, if_neg hreadable]
    rfl

/-- The steps of a change that is made and stored. -/
theorem mutate_eq_ok {store store' : σ} {c d : Collection} {m : Mutation} {answer : Item}
    (h : c.mutate store m = (store', d, .ok answer)) :
    Applied c m d answer ∧
      Storage.write store c.filePath (textOfItems d.items) = (store', .ok ()) := by
  have hmutated := mutated c store m
  rw [h] at hmutated
  cases hmutated with
  | stored happlied hwrite => exact ⟨happlied, hwrite⟩

/-- A change that is made and stored leaves the new items in the file. -/
theorem Backed.mutate [Storage.Lawful σ] {library : Library} {urlPath : String}
    {store store' : σ} {c d : Collection} {m : Mutation} {answer : Item}
    (hc : Backed library urlPath store c) (hm : m.WellFormed)
    (h : c.mutate store m = (store', d, .ok answer)) : Backed library urlPath store' d := by
  obtain ⟨happlied, hwrite⟩ := mutate_eq_ok h
  obtain ⟨text, hread, -⟩ := hc.read
  have hdirectory := fun q => Storage.Lawful.isDirectory_write q hread hwrite
  have hfile := happlied.sameFile
  have hwellFormed := happlied.areWellFormed hc.areWellFormed hm
  constructor
  · rw [Location.resolve_congr hdirectory, hc.resolve, hfile.filePath]
  · rw [hfile.urlPath, hc.urlPath_eq]
  · rw [hfile.maxItems, hc.maxItems_eq]
  · exact hwellFormed
  · refine ⟨_, ?_, itemsOfText_textOfItems hwellFormed⟩
    rw [hfile.filePath]
    exact Storage.Lawful.read_write hread hwrite

/-! ## Collections that are loaded and changed -/

/-- The stores and collections that come of loading a collection and changing it, where every
change is made and stored. -/
inductive Edited (library : Library) (urlPath : String) : σ → Collection → Prop where
  | load {store : σ} {c : Collection} (h : load store library urlPath = .ok c) :
      Edited library urlPath store c
  | change {store store' : σ} {c d : Collection} {m : Mutation} {answer : Item}
      (hc : Edited library urlPath store c) (hm : m.WellFormed)
      (h : c.mutate store m = (store', d, .ok answer)) : Edited library urlPath store' d

theorem Edited.backed [Storage.Lawful σ] {library : Library} {urlPath : String} {store : σ}
    {c : Collection} (h : Edited library urlPath store c) : Backed library urlPath store c := by
  induction h with
  | load h => exact backed_of_load h
  | change _ hm h ih => exact ih.mutate hm h

/-- A collection that was loaded and changed is loaded again as it is exactly if its items are
nested no deeper than the reader has room for inside the array; otherwise its file is refused. -/
theorem load_of_edited [Storage.Lawful σ] {library : Library} {urlPath : String} {store : σ}
    {c : Collection} (h : Edited library urlPath store c) :
    load store library urlPath =
      if AreReadable c.items then .ok { c with lastId := greatestId c.items }
      else .error (.notJson .malformed) := h.backed.load_eq

end

/-! ## An item that is too deep inside the array -/

/-- Arrays around an empty array. -/
def nested : Nat → Json
  | 0 => .array []
  | n + 1 => .array [nested n]

theorem depth_nested (n : Nat) : (nested n).depth = n + 1 := by
  induction n with
  | zero => rfl
  | succ n ih =>
    change max (nested n).depth 0 + 1 = _
    rw [Nat.max_zero, ih]

theorem wellFormed_nested (n : Nat) : (nested n).WellFormed := by
  induction n with
  | zero => trivial
  | succ n ih => exact ⟨ih, trivial⟩

/-- An item as deep as the reader allows. -/
def deepItem : Item := [("deep", nested 125)]

theorem depth_deepItem : (Json.object deepItem).depth = Json.Reader.maxDepth := by
  change max (nested 125).depth 0 + 1 = _
  rw [Nat.max_zero, depth_nested]
  rfl

theorem wellFormed_deepItem : deepItem.WellFormed :=
  ⟨List.nodup_singleton _, wellFormed_nested 125, trivial⟩

theorem wellFormed_insert_deepItem : (Mutation.insert deepItem).WellFormed := wellFormed_deepItem

/-- With an id it is too deep for a place inside the array. -/
theorem not_areReadable_deepItem : ¬ AreReadable [deepItem.leadingId 0] := by
  intro h
  have hitem := h _ List.mem_cons_self
  rw [Item.Readable, Json.depth] at hitem
  have hentry : ("deep", nested 125) ∈ deepItem.leadingId 0 :=
    List.mem_cons_of_mem _ List.mem_cons_self
  have hdepth := Json.depthFields_le_iff.mp (Nat.le_refl _) _ hentry
  rw [depth_nested] at hdepth
  have hroom : Item.maxDepth = 126 := rfl
  omega

/-- A library of which one collection is used. -/
def sampleLibrary : Library := { base := .ofText "data" }

/-- A store with one empty collection. -/
def sampleStore : Memory := { files := [(.ofText "data/api/notes.json", "[]")] }

/-- The empty collection. -/
def sampleCollection : Collection where
  filePath := .ofText "data/api/notes.json"
  urlPath := "/api/notes"
  lastId := none
  maxItems := 1000
  items := []

/-- The collection after the item is inserted. -/
def deepCollection : Collection :=
  { sampleCollection with lastId := some 0, items := [deepItem.leadingId 0] }

/-- The store after the item is inserted. -/
def deepStore : Memory where
  files := [(.ofText "data/api/notes.json", textOfItems deepCollection.items)]
  writes := 1

theorem load_sampleStore : load sampleStore sampleLibrary "/api/notes" = .ok sampleCollection := rfl

theorem mutate_sampleCollection : sampleCollection.mutate sampleStore (.insert deepItem) =
    (deepStore, deepCollection, .ok (deepItem.leadingId 0)) := rfl

/-- The collection with the item in it is not loaded again. -/
theorem load_of_edited_deepItem : load deepStore sampleLibrary "/api/notes" =
    .error (.notJson .malformed) := by
  have hedited := Edited.change (.load load_sampleStore) wellFormed_insert_deepItem
    mutate_sampleCollection
  rw [load_of_edited hedited]
  exact if_neg not_areReadable_deepItem

/-- Not every insertion of an item that the reader accepts leaves a file that loads. -/
theorem not_forall_load_of_insert :
    ¬ ∀ (library : Library) (urlPath text : String) (store store' : Memory) (c d : Collection)
      (item answer : Item), load store library urlPath = .ok c →
        Json.read text = .ok (.object item) →
        c.mutate store (.insert item) = (store', d, .ok answer) →
        ∃ e, load store' library urlPath = .ok e := by
  intro h
  have hread : Json.read (Json.object deepItem).compact = .ok (.object deepItem) := by
    rw [Json.read_compact wellFormed_deepItem, if_pos depth_deepItem.le]
  obtain ⟨e, he⟩ := h sampleLibrary "/api/notes" _ sampleStore deepStore sampleCollection
    deepCollection deepItem _ load_sampleStore hread mutate_sampleCollection
  have hbacked := (backed_of_load load_sampleStore).mutate wellFormed_insert_deepItem
    mutate_sampleCollection
  have hrefused := hbacked.load_eq.trans (if_neg not_areReadable_deepItem)
  rw [hrefused] at he
  cases he

end JsonCollections.Collection
