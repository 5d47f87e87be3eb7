import JsonCollections.Proofs.Collection.ExactIds
import JsonCollections.Proofs.Collection.Held
import JsonCollections.Proofs.Collection.ItemMap
import JsonCollections.Proofs.Collection.Reload

set_option autoImplicit false

/-!
# Ids of items

The last id of a collection is at least every numeric id of its items (`IdsUpTo`) and below the bound
of ids.  A change that leaves ids alone appends an item with the next id, puts an item in the place of
one with the same id, or takes one away (`Collection.Renumbered`); what holds of ids in a run of
changes is derived from these three shapes.

`idsSound_run` says that new ids are greater than all ids that any item ever had, items that were
deleted included, and that ids that are distinct stay so.
-/

namespace JsonCollections

/-! ## Ids of one item -/

namespace Item

theorem id?_lt_bound {item : Item} {k : ItemId} (h : item.id? = some k) : k < ItemId.bound := by
  obtain ⟨-, -, -, hk⟩ := id?_eq_some_iff.mp h
  exact hk

theorem numericId?_lt_bound {item : Item} {k : ItemId} (h : item.numericId? = some k) :
    k < ItemId.bound := by
  unfold numericId? at h
  split at h
  · obtain ⟨x, -, hx⟩ := Option.bind_eq_some_iff.mp h
    exact (Double.itemId?_eq_some_iff.mp hx).2
  · exact id?_lt_bound h

/-- Both ids go by the value under `id`. -/
theorem ids_congr {item other : Item} (h : item.get? idKey = other.get? idKey) :
    item.id? = other.id? ∧ item.numericId? = other.numericId? := by
  have hid : item.id? = other.id? := by rw [id?, h, id?]
  exact ⟨hid, by rw [numericId?, h, hid, numericId?]⟩

/-- The id in front counts. -/
theorem id?_leadingId {item : Item} {k : ItemId} (hfree : item.get? idKey = none)
    (hk : k < ItemId.bound) : (item.leadingId k).id? = some k :=
  id?_of_get? hk (Entries.get?_ofList_cons (Entries.get?_eq_none_iff.mp hfree) _)

end Item

/-! ## The last id -/

/-- No item has a numeric id above the last id; without a last id no item has one at all. -/
def IdsUpTo (lastId : Option ItemId) (items : List Item) : Prop :=
  ∀ item ∈ items, ∀ n, item.numericId? = some n → ∃ last, lastId = some last ∧ n ≤ last

namespace Collection

theorem idsUpTo_greatestId (items : List Item) : IdsUpTo (greatestId items) items :=
  fun _ hitem _ hn => exists_greatestId hitem hn

/-- The greatest id is the id of an item. -/
theorem exists_of_greatestId {items : List Item} {n : ItemId} (h : greatestId items = some n) :
    ∃ item ∈ items, item.numericId? = some n :=
  List.mem_filterMap.mp (List.max?_eq_some_iff.mp h).1

/-- The last id covers the ids of all items, and is an id itself. -/
structure Numbered (c : Collection) : Prop where
  idsUpTo : IdsUpTo c.lastId c.items
  lastId_lt : ∀ {n}, c.lastId = some n → n < ItemId.bound

theorem numbered_of_load {σ : Type} [Storage σ] {store : σ} {library : Library} {urlPath : String}
    {c : Collection} (h : load store library urlPath = .ok c) : c.Numbered := by
  have hlast := lastId_of_load h
  constructor
  · rw [hlast]
    exact idsUpTo_greatestId c.items
  · intro n hn
    rw [hlast] at hn
    obtain ⟨item, -, hid⟩ := exists_of_greatestId hn
    exact Item.numericId?_lt_bound hid

theorem nextId?_eq_some {lastId : Option ItemId} {k : ItemId} (h : nextId? lastId = some k) :
    k < ItemId.bound ∧ ∀ n, lastId = some n → n < k := by
  cases lastId with
  | none =>
    cases h
    exact ⟨by decide, nofun⟩
  | some n =>
    rw [nextId?] at h
    split at h
    · cases h
      refine ⟨‹_›, ?_⟩
      rintro m ⟨⟩
      exact Nat.lt_succ_self n
    · cases h

/-- The ids end with the greatest one that is an id. -/
theorem nextId?_eq_none_iff {lastId : Option ItemId} (h : ∀ n, lastId = some n → n < ItemId.bound) :
    nextId? lastId = none ↔ lastId = some (ItemId.bound - 1) := by
  cases lastId with
  | none => exact ⟨nofun, nofun⟩
  | some n =>
    have hn := h n rfl
    rw [nextId?, Option.some.injEq]
    split
    · rename_i hnext
      refine ⟨nofun, fun heq => ?_⟩
      rw [heq, Nat.sub_add_cancel (by decide)] at hnext
      exact absurd hnext (Nat.lt_irrefl _)
    · rename_i hnext
      exact ⟨fun _ => Nat.le_antisymm (Nat.le_sub_one_of_lt hn)
        (Nat.sub_le_of_le_add (Nat.not_lt.mp hnext)), fun _ => rfl⟩

end Collection

/-! ## Changes that leave ids alone -/

/-- A patch leaves the value under `id` as it is.  The other changes always leave ids alone. -/
def Mutation.KeepsId (c : Collection) : Mutation → Prop
  | .patch id operations => ∀ old item : Item, c.find? id = some old →
      operations.run (.object old) = .ok (.object item) →
        item.get? Item.idKey = old.get? Item.idKey
  | .insert _ | .update _ _ | .delete _ => True

namespace Collection

/-- What becomes of the items and of their ids. -/
inductive Renumbered (c : Collection) : Collection → Prop where
  | appended {item : Item} {k : ItemId} (hroom : c.items.length < c.maxItems)
      (hnext : nextId? c.lastId = some k) (hid : item.id? = some k) :
      Renumbered c { c with lastId := some k, items := c.items ++ [item] }
  | exchanged {old item : Item} {i : Nat} (hold : c.items[i]? = some old)
      (hid : item.id? = old.id?) (hnumeric : item.numericId? = old.numericId?) :
      Renumbered c { c with items := c.items.set i item }
  | removed (i : Nat) : Renumbered c { c with items := c.items.eraseIdx i }

/-- The item at the place of an id has the id. -/
theorem exists_of_position? {c : Collection} {k : ItemId} {i : Nat} (h : c.position? k = some i) :
    ∃ old, c.items[i]? = some old ∧ old.id? = some k := by
  obtain ⟨hi, hid, -⟩ := List.findIdx?_eq_some_iff_getElem.mp h
  exact ⟨c.items[i], List.getElem?_eq_getElem hi, beq_iff_eq.mp hid⟩

/-- The first item with an id, with those before it and after it. -/
structure FirstAt (c : Collection) (k : ItemId) (before : List Item) (old : Item)
    (after : List Item) : Prop where
  items_eq : c.items = before ++ old :: after
  id_eq : old.id? = some k
  absent : ∀ item ∈ before, item.id? ≠ some k

/-- The place of an id is that of the first item with it, so that one is changed or taken out. -/
theorem exists_firstAt {c : Collection} {k : ItemId} {i : Nat} (h : c.position? k = some i) :
    ∃ before old after, c.FirstAt k before old after ∧ c.items[i]? = some old ∧
      (∀ item, c.items.set i item = before ++ item :: after) ∧
      c.items.eraseIdx i = before ++ after := by
  obtain ⟨hi, hid, hbefore⟩ := List.findIdx?_eq_some_iff_getElem.mp h
  refine ⟨c.items.take i, c.items[i], c.items.drop (i + 1), ⟨?_, beq_iff_eq.mp hid, ?_⟩,
    List.getElem?_eq_getElem hi, fun item => ?_, List.eraseIdx_eq_take_drop_succ _ _⟩
  · rw [← List.drop_eq_getElem_cons hi, List.take_append_drop]
  · intro item hitem hitemId
    obtain ⟨j, hj, rfl⟩ := List.mem_take_iff_getElem.mp hitem
    exact hbefore j (Nat.lt_min.mp hj).1 (beq_iff_eq.mpr hitemId)
  · rw [List.set_eq_take_append_cons_drop, if_pos hi]

theorem getElem?_of_find? {c : Collection} {k : ItemId} {i : Nat} {old : Item}
    (hplace : c.position? k = some i) (hold : c.find? k = some old) : c.items[i]? = some old := by
  unfold find? at hold
  unfold position? at hplace
  rwa [List.find?_eq_bind_findIdx?_getElem?, hplace] at hold

theorem Applied.renumbered {c d : Collection} {m : Mutation} {answer : Item}
    (h : Applied c m d answer) (hkeeps : m.KeepsId c) : Renumbered c d := by
  cases h with
  | insert hfree hroom hnext =>
    exact .appended hroom hnext (Item.id?_leadingId hfree (nextId?_eq_some hnext).1)
  | @update k item i hplace =>
    obtain ⟨old, hold, hid⟩ := exists_of_position? hplace
    have hnew := Item.id?_withId item (Item.id?_lt_bound hid)
    refine .exchanged hold (hnew.trans hid.symm) ?_
    rw [Item.numericId?_of_id? hnew, Item.numericId?_of_id? hid]
  | patch hplace hold hrun =>
    obtain ⟨hid, hnumeric⟩ := Item.ids_congr (hkeeps _ _ hold hrun)
    exact .exchanged (getElem?_of_find? hplace hold) hid hnumeric
  | delete => exact .removed _

/-- What an item is exchanged for does not show in what both have in common. -/
theorem map_set_eq {α β : Type} {items : List α} {i : Nat} {old item : α} {f : α → β}
    (hold : items[i]? = some old) (hf : f item = f old) : (items.set i item).map f = items.map f := by
  obtain ⟨hi, rfl⟩ := List.getElem?_eq_some_iff.mp hold
  rw [List.map_set, hf, ← List.map_set, List.set_getElem_self]

theorem Renumbered.numbered {c d : Collection} (h : Renumbered c d) (hc : c.Numbered) :
    d.Numbered := by
  cases h with
  | @appended item k hroom hnext hid =>
    obtain ⟨hbound, hlt⟩ := nextId?_eq_some hnext
    constructor
    · intro other hother n hn
      refine ⟨k, rfl, ?_⟩
      rcases List.mem_append.mp hother with hother | hother
      · obtain ⟨last, hlast, hle⟩ := hc.idsUpTo other hother n hn
        exact hle.trans (hlt last hlast).le
      · rw [List.mem_singleton.mp hother, Item.numericId?_of_id? hid] at hn
        exact (Option.some.inj hn).ge
    · rintro n ⟨⟩
      exact hbound
  | @exchanged old item i hold hid hnumeric =>
    refine ⟨fun other hother n hn => ?_, hc.lastId_lt⟩
    rcases List.mem_or_eq_of_mem_set hother with hother | rfl
    · exact hc.idsUpTo other hother n hn
    · exact hc.idsUpTo old (List.mem_of_getElem? hold) n (hnumeric.symm.trans hn)
  | removed i =>
    exact ⟨fun other hother => hc.idsUpTo other (List.mem_of_mem_eraseIdx hother), hc.lastId_lt⟩

/-- The ids of a collection that comes of another one. -/
structure Follows (c d : Collection) : Prop where
  numbered : d.Numbered
  maxItems_eq : d.maxItems = c.maxItems
  lastId_le : ∀ {n}, c.lastId = some n → ∃ last, d.lastId = some last ∧ n ≤ last
  nodup : (c.items.filterMap Item.id?).Nodup → (d.items.filterMap Item.id?).Nodup
  length_le : d.items.length ≤ max c.items.length c.maxItems

theorem Follows.refl {c : Collection} (h : c.Numbered) : Follows c c :=
  ⟨h, rfl, fun hn => ⟨_, hn, Nat.le_refl _⟩, id, Nat.le_max_left _ _⟩

theorem Follows.trans {c d e : Collection} (h : Follows c d) (h' : Follows d e) : Follows c e where
  numbered := h'.numbered
  maxItems_eq := h'.maxItems_eq.trans h.maxItems_eq
  lastId_le := by
    intro n hn
    obtain ⟨m, hm, hnm⟩ := h.lastId_le hn
    obtain ⟨last, hlast, hle⟩ := h'.lastId_le hm
    exact ⟨last, hlast, hnm.trans hle⟩
  nodup hc := h'.nodup (h.nodup hc)
  length_le := by
    have hd := h.length_le
    have he := h'.length_le
    rw [h.maxItems_eq] at he
    omega

/-- The next id is new. -/
theorem Numbered.not_mem_of_nextId? {c : Collection} (h : c.Numbered) {k : ItemId}
    (hnext : nextId? c.lastId = some k) : k ∉ c.items.filterMap Item.id? := by
  intro hmem
  obtain ⟨item, hitem, hid⟩ := List.mem_filterMap.mp hmem
  obtain ⟨last, hlast, hle⟩ := h.idsUpTo item hitem k (Item.numericId?_of_id? hid)
  exact absurd ((nextId?_eq_some hnext).2 last hlast) (Nat.not_lt.mpr hle)

theorem Renumbered.follows {c d : Collection} (h : Renumbered c d) (hc : c.Numbered) :
    Follows c d := by
  have hnumbered := h.numbered hc
  cases h with
  | @appended item k hroom hnext hid =>
    refine ⟨hnumbered, rfl, fun hn => ⟨k, rfl, ((nextId?_eq_some hnext).2 _ hn).le⟩, ?_, ?_⟩
    · intro hnodup
      change ((c.items ++ [item]).filterMap Item.id?).Nodup
      rw [List.filterMap_append, List.filterMap_cons_some hid, List.filterMap_nil]
      refine List.nodup_append.mpr ⟨hnodup, List.nodup_singleton k, ?_⟩
      intro a ha b hb hab
      rw [List.mem_singleton.mp hb] at hab
      exact hc.not_mem_of_nextId? hnext (hab ▸ ha)
    · change (c.items ++ [item]).length ≤ _
      rw [List.length_append, List.length_singleton]
      omega
  | @exchanged old item i hold hid hnumeric =>
    refine ⟨hnumbered, rfl, fun hn => ⟨_, hn, Nat.le_refl _⟩, ?_, ?_⟩
    · have hids : ∀ items : List Item,
          items.filterMap Item.id? = (items.map Item.id?).filterMap id := by
        intro items
        rw [List.filterMap_map]
        rfl
      change _ → ((c.items.set i item).filterMap Item.id?).Nodup
      rw [hids, hids, map_set_eq hold hid]
      exact id
    · change (c.items.set i item).length ≤ _
      rw [List.length_set]
      exact Nat.le_max_left _ _
  | removed i =>
    have hsublist := List.eraseIdx_sublist c.items i
    exact ⟨hnumbered, rfl, fun hn => ⟨_, hn, Nat.le_refl _⟩,
      fun hnodup => hnodup.sublist (hsublist.filterMap _),
      hsublist.length_le.trans (Nat.le_max_left _ _)⟩

/-- Inserting fails for want of ids exactly if the greatest id was given away. -/
theorem Numbered.apply_insert_eq_idExhausted {c : Collection} (h : c.Numbered) {item : Item} :
    c.apply (.insert item) = .error .idExhausted ↔ item.get? Item.idKey = none ∧
      c.items.length < c.maxItems ∧ c.lastId = some (ItemId.bound - 1) := by
  rw [← nextId?_eq_none_iff fun _ => h.lastId_lt]
  simp only [apply]
  split
  · rename_i hid
    constructor
    · rintro ⟨⟩
    · rintro ⟨hfree, -⟩
      rw [hfree] at hid
      cases hid
  · rename_i hid
    have hfree := Option.not_isSome_iff_eq_none.mp hid
    split
    · rename_i hfull
      constructor
      · rintro ⟨⟩
      · rintro ⟨-, hroom, -⟩
        exact absurd hfull (Nat.not_le.mpr hroom)
    · rename_i hroom
      split
      · rename_i hnext
        exact ⟨fun _ => ⟨hfree, Nat.not_le.mp hroom, hnext⟩, fun _ => rfl⟩
      · rename_i k hnext
        constructor
        · rintro ⟨⟩
        · rintro ⟨-, -, hnone⟩
          rw [hnone] at hnext
          cases hnext

end Collection

/-! ## Runs -/

namespace Held

variable {σ : Type} [Storage σ]

/-- Every patch that is made leaves the value under `id` as it is. -/
def KeepsIds (h : Held σ) : List (Action σ) → Prop
  | [] => True
  | .change m :: rest => m.KeepsId h.collection ∧ (h.act (.change m)).KeepsIds rest
  | .outside change :: rest => (h.act (.outside change)).KeepsIds rest

theorem keepsIds_append {h : Held σ} {actions more : List (Action σ)} :
    h.KeepsIds (actions ++ more) ↔ h.KeepsIds actions ∧ (h.run actions).KeepsIds more := by
  induction actions generalizing h with
  | nil => exact ⟨fun hmore => ⟨trivial, hmore⟩, And.right⟩
  | cons action rest ih =>
    cases action with
    | change m => exact (and_congr_right fun _ => ih).trans and_assoc.symm
    | outside change => exact ih

theorem follows_act {h : Held σ} (hc : h.collection.Numbered) (action : Action σ)
    (hkeeps : ∀ m, action = .change m → m.KeepsId h.collection) :
    Collection.Follows h.collection (h.act action).collection := by
  rcases h.collection_act action with heq | ⟨m, answer, haction, happlied⟩
  · rw [heq]
    exact Collection.Follows.refl hc
  · exact (happlied.renumbered (hkeeps m haction)).follows hc

theorem follows_run {h : Held σ} (hc : h.collection.Numbered) {actions : List (Action σ)}
    (hkeeps : h.KeepsIds actions) : Collection.Follows h.collection (h.run actions).collection := by
  induction actions generalizing h with
  | nil => exact Collection.Follows.refl hc
  | cons action rest ih =>
    cases action with
    | change m =>
      obtain ⟨hm, hrest⟩ := hkeeps
      have hfirst := follows_act hc (.change m) fun m' heq => by
        cases heq
        exact hm
      exact hfirst.trans (ih hfirst.numbered hrest)
    | outside change => exact @ih (h.act (.outside change)) hc hkeeps

/-- What is known of ids after actions on a held collection. -/
structure IdsSound (h : Held σ) (actions : List (Action σ)) : Prop where
  /-- no item has a numeric id above the last id -/
  idsUpTo : IdsUpTo (h.run actions).collection.lastId (h.run actions).collection.items
  /-- the last id never decreases -/
  lastId_le : ∀ {before after n}, actions = before ++ after →
    (h.run before).collection.lastId = some n →
      ∃ last, (h.run actions).collection.lastId = some last ∧ n ≤ last
  /-- a new id is greater than all numeric ids that items ever had, and is an id -/
  lt_of_insert : ∀ {item d answer},
    (h.run actions).collection.apply (.insert item) = .ok (d, answer) →
      ∃ k, d.lastId = some k ∧ answer.id? = some k ∧ k < ItemId.bound ∧
        ∀ before after, actions = before ++ after →
          ∀ old ∈ (h.run before).collection.items, ∀ n, old.numericId? = some n → n < k
  /-- inserting fails for want of ids exactly if the greatest id was given away -/
  idExhausted_iff : ∀ {item},
    (h.run actions).collection.apply (.insert item) = .error .idExhausted ↔
      item.get? Item.idKey = none ∧
        (h.run actions).collection.items.length < (h.run actions).collection.maxItems ∧
          (h.run actions).collection.lastId = some (ItemId.bound - 1)
  /-- distinct ids stay distinct -/
  nodup : (h.collection.items.filterMap Item.id?).Nodup →
    ((h.run actions).collection.items.filterMap Item.id?).Nodup
  /-- no more items are added than there may be -/
  length_le : (h.run actions).collection.items.length ≤
    max h.collection.items.length h.collection.maxItems

/-- In all states that a held collection comes to, if no patch changes the value under `id`: no item
has a numeric id above the last one, new ids are greater than all that items ever had, ids that were
distinct stay so, and there are no more items than in the beginning or than there may be. -/
theorem idsSound_run {store : σ} {library : Library} {urlPath : String} {c : Collection}
    (hload : Collection.load store library urlPath = .ok c) {actions : List (Action σ)}
    (hkeeps : (⟨store, c⟩ : Held σ).KeepsIds actions) :
    (⟨store, c⟩ : Held σ).IdsSound actions := by
  have hc : (⟨store, c⟩ : Held σ).collection.Numbered := Collection.numbered_of_load hload
  have hnow := follows_run hc hkeeps
  -- the last state follows every one before it
  have hsince : ∀ before after, actions = before ++ after →
      (Collection.Numbered ((⟨store, c⟩ : Held σ).run before).collection) ∧
        Collection.Follows ((⟨store, c⟩ : Held σ).run before).collection
          ((⟨store, c⟩ : Held σ).run actions).collection := by
    rintro before after rfl
    obtain ⟨hbefore, hafter⟩ := keepsIds_append.mp hkeeps
    have hnumbered := (follows_run hc hbefore).numbered
    rw [run_append]
    exact ⟨hnumbered, follows_run hnumbered hafter⟩
  exact {
    idsUpTo := hnow.numbered.idsUpTo
    lastId_le := by
      intro before after n hactions hn
      exact (hsince before after hactions).2.lastId_le hn
    lt_of_insert := by
      intro item d answer happly
      cases Collection.applied_of_apply happly with
      | @insert _ k hfree hroom hnext =>
        obtain ⟨hbound, hlt⟩ := Collection.nextId?_eq_some hnext
        refine ⟨k, rfl, Item.id?_leadingId hfree hbound, hbound, ?_⟩
        intro before after hactions old hold n hn
        obtain ⟨hnumbered, hfollows⟩ := hsince before after hactions
        obtain ⟨last, hlast, hle⟩ := hnumbered.idsUpTo old hold n hn
        obtain ⟨greatest, hgreatest, hle'⟩ := hfollows.lastId_le hlast
        calc n ≤ last := hle
          _ ≤ greatest := hle'
          _ < k := hlt greatest hgreatest
    idExhausted_iff := hnow.numbered.apply_insert_eq_idExhausted
    nodup := hnow.nodup
    length_le := hnow.length_le }

/-! ## Ids in memory -/

/-- Items of which one has an id, one a text that counts as an id, and one nothing. -/
def cards : List Item :=
  [[("id", .number (.ofNat 3))], [("id", .string "7")], [("text", .string "none")]]

/-- A store with these items. -/
def cardStore : Memory :=
  { files := [(.ofText "data/api/cards.json", Collection.textOfItems cards)] }

/-- The collection as it is loaded. -/
def cardCollection : Collection where
  filePath := .ofText "data/api/cards.json"
  urlPath := "/api/cards"
  lastId := Collection.greatestId cards
  maxItems := 1000
  items := cards

theorem load_cardStore :
    Collection.load cardStore Collection.sampleLibrary "/api/cards" = .ok cardCollection := by
  have hresolve : Location.resolve cardStore Collection.sampleLibrary.base "/api/cards" =
      some cardCollection.filePath := by decide +kernel
  have hreadable : Collection.AreReadable cards := by decide +kernel
  refine Collection.load_eq_of_text hresolve rfl ?_ hreadable
  intro item hitem
  simp only [cards, List.mem_cons, List.not_mem_nil, or_false] at hitem
  rcases hitem with rfl | rfl | rfl <;> exact ⟨List.nodup_singleton _, trivial, trivial⟩

/-- An item is patched, one is inserted without being stored and deleted again, and one more comes. -/
def cardActions : List (Action Memory) :=
  [.change (.patch 3 [.add "/text" (.string "new")]), .outside (·.withDisabled true),
    .change (.insert [("text", .string "lost")]), .outside (·.withDisabled false),
    .change (.delete 8), .change (.insert [])]

theorem keepsIds_cardActions :
    (⟨cardStore, cardCollection⟩ : Held Memory).KeepsIds cardActions := by
  have hpatch : Mutation.KeepsId cardCollection (.patch 3 [.add "/text" (.string "new")]) := by
    intro old item hold hrun
    have hfind : cardCollection.find? 3 = some [("id", .number (.ofNat 3))] := rfl
    rw [hfind] at hold
    cases hold
    cases hrun
    rfl
  exact ⟨hpatch, trivial, trivial, trivial, trivial⟩

/-- The id of the item that was deleted is not given away again. -/
theorem idsSound_cardActions :
    (⟨cardStore, cardCollection⟩ : Held Memory).IdsSound cardActions ∧
      ((⟨cardStore, cardCollection⟩ : Held Memory).run cardActions).collection.lastId = some 9 :=
  ⟨idsSound_run load_cardStore keepsIds_cardActions, by decide +kernel⟩

end Held

end JsonCollections
