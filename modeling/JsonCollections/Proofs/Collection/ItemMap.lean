import JsonCollections.Proofs.Collection.Stored

set_option autoImplicit false

/-!
# Items as an ordered map

`ItemMap` is a map from ids to items in which every item has its place; an item without an id has a
place and no key.  Changing a collection by id is changing the map of its items, as long as no id
is there twice: `apply_insert`, `apply_update` and `apply_delete` say what the changes make of the
items, and `ofItems_concat`, `ofItems_map` and `ofItems_filter` what that is for the map.
-/

namespace JsonCollections

/-- An ordered map from ids to items; an item without an id has no key. -/
structure ItemMap where
  entries : List (Option ItemId × Item)

namespace ItemMap

/-! ## Maps -/

/-- The map of items under their ids. -/
def ofItems (items : List Item) : ItemMap := ⟨items.map fun item => (item.id?, item)⟩

/-- The items in order. -/
def items (m : ItemMap) : List Item := m.entries.map Prod.snd

/-- The ids in order. -/
def keys (m : ItemMap) : List ItemId := m.entries.filterMap Prod.fst

/-- No id is there twice. -/
def Distinct (m : ItemMap) : Prop := m.keys.Nodup

instance (m : ItemMap) : Decidable m.Distinct := inferInstanceAs (Decidable m.keys.Nodup)

/-- The item under an id. -/
def lookup (m : ItemMap) (k : ItemId) : Option Item := m.entries.lookup (some k)

/-- The map with an item at its end. -/
def append (m : ItemMap) (k : ItemId) (item : Item) : ItemMap := ⟨m.entries ++ [(some k, item)]⟩

/-- The map with another item in the place of an id. -/
def replace (m : ItemMap) (k : ItemId) (item : Item) : ItemMap :=
  ⟨m.entries.map fun entry => if entry.1 = some k then (some k, item) else entry⟩

/-- The map without an id. -/
def remove (m : ItemMap) (k : ItemId) : ItemMap :=
  ⟨m.entries.filter fun entry => entry.1 ≠ some k⟩

/-- One more than the highest numeric id, or `0` if there is none. -/
def nextId (m : ItemMap) : ItemId :=
  match (m.items.filterMap Item.numericId?).max? with
  | some n => n + 1
  | none => 0

@[simp] theorem items_ofItems (items : List Item) : (ofItems items).items = items := by
  rw [ofItems, ItemMap.items, List.map_map]
  exact List.map_id items

@[simp] theorem keys_ofItems (items : List Item) :
    (ofItems items).keys = items.filterMap Item.id? := by
  rw [ofItems, keys, List.filterMap_map]
  rfl

theorem items_append (m : ItemMap) (k : ItemId) (item : Item) :
    (m.append k item).items = m.items ++ [item] := List.map_append

theorem items_replace (items : List Item) (k : ItemId) (item : Item) :
    ((ofItems items).replace k item).items =
      items.map fun old => if old.id? = some k then item else old := by
  rw [ofItems, replace, ItemMap.items, List.map_map, List.map_map]
  apply List.map_congr_left
  intro old _
  simp only [Function.comp_apply]
  split <;> rfl

theorem items_remove (items : List Item) (k : ItemId) :
    ((ofItems items).remove k).items = items.filter fun item => item.id? ≠ some k := by
  rw [ofItems, remove, ItemMap.items, List.filter_map, List.map_map]
  exact List.map_id _

/-! ## Looking after a change -/

theorem lookup_cons (key : Option ItemId) (item : Item) (rest : List (Option ItemId × Item))
    (k : ItemId) : lookup ⟨(key, item) :: rest⟩ k =
      if key = some k then some item else lookup ⟨rest⟩ k := by
  unfold lookup
  rw [List.lookup_cons]
  split
  · rename_i hkey
    rw [if_pos (beq_iff_eq.mp hkey).symm]
  · rename_i hkey
    rw [if_neg (Ne.symm (beq_eq_false_iff_ne.mp hkey))]

theorem lookup_ofItems (items : List Item) (k : ItemId) :
    (ofItems items).lookup k = items.find? fun item => item.id? == some k := by
  induction items with
  | nil => rfl
  | cons item rest ih =>
    rw [ofItems, List.map_cons, lookup_cons, List.find?_cons]
    split
    · rename_i hkey
      rw [beq_iff_eq.mpr hkey]
    · rename_i hkey
      rw [beq_eq_false_iff_ne.mpr hkey]
      exact ih

theorem mem_keys_iff {m : ItemMap} {k : ItemId} : k ∈ m.keys ↔ ∃ item, m.lookup k = some item := by
  rw [← Option.isSome_iff_exists, lookup, List.lookup_isSome_iff, keys, List.mem_filterMap]
  refine exists_congr fun entry => and_congr_right fun _ => ?_
  rw [beq_iff_eq, eq_comm]

theorem lookup_append {m : ItemMap} {k : ItemId} (hk : k ∉ m.keys) (item : Item) (j : ItemId) :
    (m.append k item).lookup j = if j = k then some item else m.lookup j := by
  have happend : (m.append k item).lookup j = (m.lookup j).or (lookup ⟨[(some k, item)]⟩ j) :=
    List.lookup_append
  rw [happend, lookup_cons]
  by_cases hj : j = k
  · subst hj
    have hnone : m.lookup j = none := by
      rw [Option.eq_none_iff_forall_ne_some]
      intro old hold
      exact hk (mem_keys_iff.mpr ⟨old, hold⟩)
    rw [if_pos rfl, if_pos rfl, hnone, Option.none_or]
  · have hother : ¬ some k = some j := fun h => hj (Option.some.inj h).symm
    rw [if_neg hj, if_neg hother]
    exact Option.or_none

theorem lookup_replace (m : ItemMap) (k : ItemId) (item : Item) (j : ItemId) :
    (m.replace k item).lookup j =
      if j = k then (m.lookup k).map fun _ => item else m.lookup j := by
  obtain ⟨entries⟩ := m
  induction entries with
  | nil => exact (ite_self none).symm
  | cons entry rest ih =>
    obtain ⟨key, old⟩ := entry
    unfold replace at ih ⊢
    rw [List.map_cons]
    by_cases hkey : key = some k
    · rw [if_pos hkey, lookup_cons, ih, lookup_cons, lookup_cons, hkey]
      by_cases hj : j = k
      · simp [hj]
      · simp [hj, Ne.symm hj]
    · rw [if_neg hkey, lookup_cons, ih, lookup_cons, lookup_cons, if_neg hkey]
      by_cases hj : j = k
      · simp [hj, hkey]
      · simp [hj]

theorem lookup_remove (m : ItemMap) (k j : ItemId) :
    (m.remove k).lookup j = if j = k then none else m.lookup j := by
  obtain ⟨entries⟩ := m
  induction entries with
  | nil => exact (ite_self none).symm
  | cons entry rest ih =>
    obtain ⟨key, old⟩ := entry
    unfold remove at ih ⊢
    by_cases hkey : key = some k
    · rw [List.filter_cons_of_neg (by simp [hkey]), ih, lookup_cons, hkey]
      by_cases hj : j = k
      · simp [hj]
      · simp [hj, Ne.symm hj]
    · rw [List.filter_cons_of_pos (by simp [hkey]), lookup_cons, ih, lookup_cons]
      by_cases hj : j = k
      · simp [hj, hkey]
      · simp [hj]

/-- Every other item, with an id or without one, is as before. -/
theorem remove_replace (m : ItemMap) (k : ItemId) (item : Item) :
    (m.replace k item).remove k = m.remove k := by
  unfold remove replace
  congr 1
  induction m.entries with
  | nil => rfl
  | cons entry rest ih =>
    rw [List.map_cons]
    by_cases hkey : entry.1 = some k
    · rw [if_pos hkey, List.filter_cons_of_neg (by simp), List.filter_cons_of_neg (by simp [hkey]),
        ih]
    · rw [if_neg hkey, List.filter_cons_of_pos (by simp [hkey]),
        List.filter_cons_of_pos (by simp [hkey]), ih]

theorem remove_remove (m : ItemMap) (k : ItemId) : (m.remove k).remove k = m.remove k := by
  unfold remove
  rw [List.filter_filter]
  simp only [Bool.and_self]

/-! ## Items under their own ids -/

/-- Every item stands under its own id. -/
def Keyed (m : ItemMap) : Prop := ∀ entry ∈ m.entries, entry.2.id? = entry.1

theorem keyed_ofItems (items : List Item) : (ofItems items).Keyed := by
  intro entry hentry
  obtain ⟨item, -, rfl⟩ := List.mem_map.mp hentry
  rfl

theorem Keyed.ofItems_items {m : ItemMap} (h : m.Keyed) : ofItems m.items = m := by
  unfold ofItems items
  congr 1
  rw [List.map_map]
  refine (List.map_congr_left ?_).trans (List.map_id m.entries)
  intro entry hentry
  rw [Function.comp_apply, h entry hentry]
  rfl

theorem Keyed.append {m : ItemMap} (h : m.Keyed) {k : ItemId} {item : Item}
    (hid : item.id? = some k) : (m.append k item).Keyed := by
  intro entry hentry
  rcases List.mem_append.mp hentry with hentry | hentry
  · exact h entry hentry
  · rw [List.mem_singleton.mp hentry]
    exact hid

theorem Keyed.replace {m : ItemMap} (h : m.Keyed) {k : ItemId} {item : Item}
    (hid : item.id? = some k) : (m.replace k item).Keyed := by
  intro entry hentry
  obtain ⟨old, hold, rfl⟩ := List.mem_map.mp hentry
  split
  · exact hid
  · exact h old hold

theorem Keyed.remove {m : ItemMap} (h : m.Keyed) (k : ItemId) : (m.remove k).Keyed := by
  intro entry hentry
  exact h entry (List.mem_of_mem_filter hentry)

/-! ## Distinct ids -/

theorem keys_append (m : ItemMap) (k : ItemId) (item : Item) :
    (m.append k item).keys = m.keys ++ [k] := List.filterMap_append

theorem keys_replace (m : ItemMap) (k : ItemId) (item : Item) :
    (m.replace k item).keys = m.keys := by
  unfold keys replace
  rw [List.filterMap_map]
  apply List.filterMap_congr
  intro entry _
  rw [Function.comp_apply]
  split
  · rename_i hkey
    exact hkey.symm
  · rfl

theorem Distinct.append {m : ItemMap} (h : m.Distinct) {k : ItemId} (hk : k ∉ m.keys)
    (item : Item) : (m.append k item).Distinct := by
  unfold Distinct
  rw [keys_append, List.nodup_append]
  refine ⟨h, List.nodup_singleton k, ?_⟩
  intro a ha b hb hab
  rw [List.mem_singleton.mp hb] at hab
  exact hk (hab ▸ ha)

theorem Distinct.replace {m : ItemMap} (h : m.Distinct) (k : ItemId) (item : Item) :
    (m.replace k item).Distinct := by
  unfold Distinct
  rw [keys_replace]
  exact h

theorem Distinct.remove {m : ItemMap} (h : m.Distinct) (k : ItemId) : (m.remove k).Distinct :=
  h.sublist (List.filter_sublist.filterMap Prod.fst)

end ItemMap

/-! ## New ids -/

/-- The greatest id is at least the numeric id of every item. -/
theorem Collection.exists_greatestId {items : List Item} {item : Item} (hitem : item ∈ items)
    {n : ItemId} (hn : item.numericId? = some n) :
    ∃ greatest, greatestId items = some greatest ∧ n ≤ greatest := by
  have hmem : n ∈ items.filterMap Item.numericId? := List.mem_filterMap.mpr ⟨item, hitem, hn⟩
  unfold greatestId
  cases hmax : (items.filterMap Item.numericId?).max? with
  | none =>
    rw [List.max?_eq_none_iff] at hmax
    rw [hmax] at hmem
    cases hmem
  | some greatest => exact ⟨greatest, rfl, (List.max?_eq_some_iff.mp hmax).2 n hmem⟩

namespace ItemMap

/-- The next id is greater than all numeric ids. -/
theorem lt_nextId {m : ItemMap} {item : Item} (hitem : item ∈ m.items) {n : ItemId}
    (hn : item.numericId? = some n) : n < m.nextId := by
  obtain ⟨greatest, hgreatest, hle⟩ := Collection.exists_greatestId hitem hn
  unfold Collection.greatestId at hgreatest
  unfold nextId
  rw [hgreatest]
  exact Nat.lt_succ_of_le hle

/-- No item has the next id. -/
theorem Keyed.nextId_not_mem_keys {m : ItemMap} (h : m.Keyed) : m.nextId ∉ m.keys := by
  intro hmem
  obtain ⟨entry, hentry, hkey⟩ := List.mem_filterMap.mp hmem
  have hid : entry.2.id? = some m.nextId := (h entry hentry).trans hkey
  have hlt := lt_nextId (List.mem_map_of_mem hentry) (Item.numericId?_of_id? hid)
  exact Nat.lt_irrefl _ hlt

end ItemMap

/-! ## The ids of items that are stored -/

namespace Item

theorem itemId?_ofNat {k : ItemId} (hk : k < ItemId.bound) :
    (Json.Number.ofNat k).itemId? = some k := by
  have hlow : -0x8000000000000000 ≤ (k : Int) := by omega
  have hhigh : (k : Int) < 0x10000000000000000 := Int.ofNat_lt.mpr hk
  rw [Json.Number.ofNat, Json.Number.ofInt?_of_inRange ⟨hlow, hhigh⟩]
  change (if 0 ≤ (k : Int) then some (k : Int).toNat else none) = some k
  rw [if_pos (Int.natCast_nonneg k), Int.toNat_natCast]

theorem id?_of_get? {item : Item} {k : ItemId} (hk : k < ItemId.bound)
    (h : item.get? idKey = some (.number (.ofNat k))) : item.id? = some k := by
  rw [id?, h]
  exact itemId?_ofNat hk

theorem id?_withId (item : Item) {k : ItemId} (hk : k < ItemId.bound) :
    (item.withId k).id? = some k :=
  id?_of_get? hk ((Entries.get?_insert _ _ _ _).trans (if_pos rfl))

/-- An item without an id gets it in front. -/
theorem leadingId_eq {item : Item} (hitem : item.WellFormed) (hfree : item.get? idKey = none)
    (k : ItemId) : item.leadingId k = (idKey, .number (.ofNat k)) :: item := by
  have hnodup := (Json.wellFormed_object_iff.mp hitem).1
  exact Entries.ofList_of_nodup (List.nodup_cons.mpr ⟨Entries.get?_eq_none_iff.mp hfree, hnodup⟩)

end Item

/-! ## Changes of a collection -/

namespace Collection

open ItemMap

theorem find?_eq_lookup (c : Collection) (k : ItemId) :
    c.find? k = (ofItems c.items).lookup k := (lookup_ofItems c.items k).symm

theorem nextId?_greatestId (items : List Item) : nextId? (greatestId items) =
    if (ofItems items).nextId < ItemId.bound then some (ofItems items).nextId else none := by
  unfold nextId? greatestId nextId
  rw [items_ofItems]
  cases (items.filterMap Item.numericId?).max? with
  | none => rfl
  | some n => rfl

/-- An item that is found by its id splits the items, if no id is there twice. -/
theorem exists_split {c : Collection} (hdistinct : (ofItems c.items).Distinct) {k : ItemId}
    {old : Item} (hold : c.find? k = some old) :
    ∃ before after, c.items = before ++ old :: after ∧ c.position? k = some before.length ∧
      old.id? = some k ∧ (∀ item ∈ before, item.id? ≠ some k) ∧
      ∀ item ∈ after, item.id? ≠ some k := by
  obtain ⟨hid, before, after, hitems, hbefore⟩ := List.find?_eq_some_iff_append.mp hold
  have hid := beq_iff_eq.mp hid
  have hbefore : ∀ item ∈ before, item.id? ≠ some k := by
    intro item hitem hitemId
    have hno := hbefore item hitem
    rw [hitemId, beq_self_eq_true] at hno
    cases hno
  refine ⟨before, after, hitems, ?_, hid, hbefore, ?_⟩
  · have hnone : before.findIdx? (fun item => item.id? == some k) = none := by
      rw [List.findIdx?_eq_none_iff]
      exact fun item hitem => beq_eq_false_iff_ne.mpr (hbefore item hitem)
    have hsome : (old.id? == some k) = true := beq_iff_eq.mpr hid
    rw [position?, hitems, List.findIdx?_append, hnone, List.findIdx?_cons, hsome]
    simp
  · intro item hitem hitemId
    unfold Distinct at hdistinct
    rw [keys_ofItems, hitems, List.filterMap_append, List.filterMap_cons_some hid] at hdistinct
    have hnodup := (List.nodup_cons.mp (List.nodup_append.mp hdistinct).2.1).1
    exact hnodup (List.mem_filterMap.mpr ⟨item, hitem, hitemId⟩)

theorem position?_eq_none {c : Collection} {k : ItemId} (h : c.find? k = none) :
    c.position? k = none := by
  unfold position?
  rw [List.findIdx?_eq_none_iff]
  exact fun item hitem => Bool.eq_false_iff.mpr (List.find?_eq_none.mp h item hitem)

/-- Inserting appends to the map, under an id that is new. -/
theorem apply_insert {c : Collection} (hlast : c.lastId = greatestId c.items) {item : Item}
    (hitem : item.WellFormed) : c.apply (.insert item) =
      if (item.get? Item.idKey).isSome then .error .extraId
      else if c.maxItems ≤ c.items.length then .error (.maxItems c.maxItems)
      else if (ofItems c.items).nextId < ItemId.bound then
        let id := (ofItems c.items).nextId
        let item := (Item.idKey, .number (.ofNat id)) :: item
        .ok ({ c with lastId := some id, items := ((ofItems c.items).append id item).items }, item)
      else .error .idExhausted := by
  simp only [apply]
  split
  · rfl
  · rename_i hfree
    split
    · rfl
    · have hfree := Option.not_isSome_iff_eq_none.mp hfree
      rw [hlast, nextId?_greatestId]
      split
      · rename_i hnext
        split at hnext
        · cases hnext
        · rename_i hbound
          rw [if_neg hbound]
      · rename_i id hnext
        split at hnext
        · rename_i hbound
          cases hnext
          rw [if_pos hbound, Item.leadingId_eq hitem hfree, items_append, items_ofItems]
        · cases hnext

/-- Updating replaces in the map. -/
theorem apply_update {c : Collection} (hdistinct : (ofItems c.items).Distinct) (k : ItemId)
    (item : Item) : c.apply (.update k item) =
      match (ofItems c.items).lookup k with
      | none => .error (.notFound k)
      | some _ =>
        let item := item.withId k
        .ok ({ c with items := ((ofItems c.items).replace k item).items }, item) := by
  rw [← find?_eq_lookup]
  cases hold : c.find? k with
  | none => simp only [apply, position?_eq_none hold]
  | some old =>
    obtain ⟨before, after, hitems, hplace, hid, hbefore, hafter⟩ := exists_split hdistinct hold
    have hsame : ∀ others : List Item, (∀ other ∈ others, other.id? ≠ some k) →
        others.map (fun old => if old.id? = some k then item.withId k else old) = others := by
      intro others hothers
      refine (List.map_congr_left ?_).trans (List.map_id others)
      intro other hother
      exact if_neg (hothers other hother)
    have hset : c.items.set before.length (item.withId k) =
        ((ofItems c.items).replace k (item.withId k)).items := by
      rw [items_replace, hitems, List.set_append_right _ _ (Nat.le_refl _), Nat.sub_self,
        List.set_cons_zero, List.map_append, List.map_cons, hsame before hbefore,
        hsame after hafter, if_pos hid]
    simp only [apply, hplace, hset]

/-- Deleting removes from the map. -/
theorem apply_delete {c : Collection} (hdistinct : (ofItems c.items).Distinct) (k : ItemId) :
    c.apply (.delete k) =
      match (ofItems c.items).lookup k with
      | none => .error (.notFound k)
      | some old => .ok ({ c with items := ((ofItems c.items).remove k).items }, old) := by
  rw [← find?_eq_lookup]
  cases hold : c.find? k with
  | none => simp only [apply, position?_eq_none hold]
  | some old =>
    obtain ⟨before, after, hitems, hplace, hid, hbefore, hafter⟩ := exists_split hdistinct hold
    have hsame : ∀ others : List Item, (∀ other ∈ others, other.id? ≠ some k) →
        others.filter (fun item => item.id? ≠ some k) = others := by
      intro others hothers
      rw [List.filter_eq_self]
      exact fun other hother => decide_eq_true (hothers other hother)
    have herase : c.items.eraseIdx before.length = ((ofItems c.items).remove k).items := by
      rw [items_remove, hitems, List.eraseIdx_append_of_length_le (Nat.le_refl _), Nat.sub_self,
        List.eraseIdx_cons_zero, List.filter_append, hsame before hbefore,
        List.filter_cons_of_neg (by simp [hid]), hsame after hafter]
    simp only [apply, hplace, hold, herase]

end Collection

end JsonCollections
