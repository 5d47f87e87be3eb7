import JsonCollections.Proofs.Collection.Outcomes
import JsonCollections.Proofs.Collection.RoundTrip

set_option autoImplicit false

/-!
# Holding a collection or loading it anew

A client can hold a collection through many changes, or load it anew before each of them.  The two
find the last id differently: a held collection carries it along from change to change, and loading
takes the greatest numeric id of the items in the file.  So a change is *settled* if it leaves ids
alone, deletes no item with the last id, and is stored as a file that can be read.

`load_act` is the step: after a settled change, loading gives what is held.  From it
`renewedTrace_eq_trace` says that both clients see the same states and get the same answers.
-/

namespace JsonCollections

namespace Collection

/-! ## The last id and the greatest one -/

/-- There is one greatest id. -/
theorem IsGreatestId.eq {lastId : Option ItemId} {items : List Item}
    (h : IsGreatestId lastId items) : lastId = greatestId items := by
  obtain ⟨hupTo, hexists⟩ := h
  symm
  unfold greatestId
  cases lastId with
  | none =>
    have hnone : items.filterMap Item.numericId? = [] := by
      rw [List.filterMap_eq_nil_iff]
      intro item hitem
      cases hn : item.numericId? with
      | none => rfl
      | some n =>
        obtain ⟨_, hlast, -⟩ := hupTo item hitem n hn
        cases hlast
    rw [hnone]
    rfl
  | some last =>
    obtain ⟨item, hitem, hid⟩ := hexists last rfl
    refine List.max?_eq_some_iff.mpr ⟨List.mem_filterMap.mpr ⟨item, hitem, hid⟩, ?_⟩
    intro n hn
    obtain ⟨other, hother, hid'⟩ := List.mem_filterMap.mp hn
    obtain ⟨_, hlast, hle⟩ := hupTo other hother n hid'
    rw [Option.some.inj hlast]
    exact hle

/-- A new item with a greater id has the greatest one. -/
theorem IsGreatestId.append {lastId : Option ItemId} {items : List Item}
    (h : IsGreatestId lastId items) {item : Item} {k : ItemId} (hid : item.id? = some k)
    (hlt : ∀ n, lastId = some n → n < k) : IsGreatestId (some k) (items ++ [item]) := by
  have hnumeric := Item.numericId?_of_id? hid
  constructor
  · intro other hother n hn
    refine ⟨k, rfl, ?_⟩
    rcases List.mem_append.mp hother with hother | hother
    · obtain ⟨last, hlast, hle⟩ := h.1 other hother n hn
      exact hle.trans (hlt last hlast).le
    · rw [List.mem_singleton.mp hother, hnumeric] at hn
      exact (Option.some.inj hn).ge
  · rintro n ⟨⟩
    exact ⟨item, List.mem_append_right _ List.mem_cons_self, hnumeric⟩

/-- An item in place of one with the same numeric id leaves the greatest id as it is. -/
theorem IsGreatestId.set {lastId : Option ItemId} {items : List Item}
    (h : IsGreatestId lastId items) {i : Nat} {old item : Item} (hold : items[i]? = some old)
    (hnumeric : item.numericId? = old.numericId?) : IsGreatestId lastId (items.set i item) := by
  have hids : (items.set i item).map Item.numericId? = items.map Item.numericId? :=
    map_set_eq hold hnumeric
  have hmem : ∀ n, (∃ other ∈ items.set i item, other.numericId? = n) ↔
      ∃ other ∈ items, other.numericId? = n := by
    intro n
    rw [← List.mem_map, hids, List.mem_map]
  constructor
  · intro other hother n hn
    obtain ⟨before, hbefore, hn'⟩ := (hmem _).mp ⟨other, hother, hn⟩
    exact h.1 before hbefore n hn'
  · intro n hn
    exact (hmem _).mpr (h.2 n hn)

/-- Without an item of another id the greatest id is the same. -/
theorem IsGreatestId.eraseIdx {lastId : Option ItemId} {items : List Item}
    (h : IsGreatestId lastId items) {i : Nat} {old : Item} (hold : items[i]? = some old)
    (hother : old.numericId? ≠ lastId) : IsGreatestId lastId (items.eraseIdx i) := by
  constructor
  · exact fun other hmem => h.1 other (List.mem_of_mem_eraseIdx hmem)
  · intro n hn
    obtain ⟨item, hitem, hid⟩ := h.2 n hn
    refine ⟨item, List.mem_eraseIdx_iff_getElem?.mpr ?_, hid⟩
    obtain ⟨j, hj⟩ := List.mem_iff_getElem?.mp hitem
    refine ⟨j, ?_, hj⟩
    -- the item that is taken away has another id
    rintro rfl
    rw [hj] at hold
    rw [← Option.some.inj hold, hid] at hother
    exact hother hn.symm

/-- A change that leaves ids alone and deletes no item with the last id carries the greatest id
along. -/
theorem Applied.isGreatestId {c d : Collection} {m : Mutation} {answer : Item}
    (h : Applied c m d answer) (hkeeps : m.KeepsId c)
    (hspares : ∀ id, m = .delete id → c.lastId ≠ some id) (hc : IsGreatestId c.lastId c.items) :
    IsGreatestId d.lastId d.items := by
  cases h with
  | insert hfree hroom hnext =>
    obtain ⟨hbound, hlt⟩ := nextId?_eq_some hnext
    exact hc.append (Item.id?_leadingId hfree hbound) hlt
  | @update id item i hplace =>
    obtain ⟨old, hold, hid⟩ := exists_of_position? hplace
    have hnew := Item.id?_withId item (Item.id?_lt_bound hid)
    exact hc.set hold ((Item.numericId?_of_id? hnew).trans (Item.numericId?_of_id? hid).symm)
  | patch hplace hold hrun =>
    exact hc.set (getElem?_of_find? hplace hold) (Item.ids_congr (hkeeps _ _ hold hrun)).2
  | @delete id i old hplace hold =>
    obtain ⟨found, hfound, hid⟩ := exists_of_position? hplace
    refine hc.eraseIdx hfound ?_
    rw [Item.numericId?_of_id? hid]
    exact (hspares id rfl).symm

end Collection

namespace Held

variable {σ : Type} [Storage σ]

/-! ## Two clients -/

/-- What is held after a change, and what is answered. -/
def step (h : Held σ) (m : Mutation) : Held σ × Except WriteError Item :=
  (h.act (.change m), (h.collection.mutate h.store m).2.2)

/-- What a client that holds a collection sees of changes in order. -/
def trace (h : Held σ) : List Mutation → List (Held σ × Except WriteError Item)
  | [] => []
  | m :: rest => h.step m :: (h.step m).1.trace rest

/-- What a client sees of a change that loads the collection for it. -/
def renew (library : Library) (urlPath : String) (store : σ) (m : Mutation) :
    Except LoadError (Held σ × Except WriteError Item) := do
  let c ← Collection.load store library urlPath
  .ok ((⟨store, c⟩ : Held σ).step m)

/-- What a client sees of changes in order that loads the collection for each of them, from the
store that the one before has left. -/
def renewedTrace (library : Library) (urlPath : String) :
    σ → List Mutation → Except LoadError (List (Held σ × Except WriteError Item))
  | _, [] => .ok []
  | store, m :: rest => do
    let first ← renew library urlPath store m
    let later ← renewedTrace library urlPath first.1.store rest
    .ok (first :: later)

/-! ## Settled changes -/

/-- What is asked of a change for the collection to be loaded as it is held. -/
structure Settles (h : Held σ) (m : Mutation) : Prop where
  /-- what the change carries repeats no key -/
  wellFormed : m.WellFormed
  /-- a patch leaves the value under `id` as it is -/
  keepsId : m.KeepsId h.collection
  /-- no item with the last id is deleted -/
  sparesLastId : ∀ id, m = .delete id → h.collection.lastId ≠ some id
  /-- the write succeeds if there is one -/
  written : ∀ fault, (h.step m).2 ≠ .error (.store fault)
  /-- no item that is stored is nested too deep -/
  readable : Collection.AreReadable (h.step m).1.collection.items

/-- Each of the changes is settled when it is made. -/
def SettlesAll (h : Held σ) : List Mutation → Prop
  | [] => True
  | m :: rest => h.Settles m ∧ (h.step m).1.SettlesAll rest

/-- If loading gives what is held, it does so after a settled change. -/
theorem load_act [Storage.Lawful σ] {h : Held σ} {library : Library} {urlPath : String}
    (hload : Collection.load h.store library urlPath = .ok h.collection) {m : Mutation}
    (hm : h.Settles m) :
    Collection.load (h.step m).1.store library urlPath = .ok (h.step m).1.collection := by
  obtain ⟨hwellFormed, hkeeps, hspares, hwritten, hreadable⟩ := hm
  simp only [step, act] at hwritten hreadable ⊢
  have hmutated := Collection.mutated h.collection h.store m
  generalize hafter : h.collection.mutate h.store m = after at hmutated hwritten hreadable ⊢
  cases hmutated with
  | refused error => exact hload
  | @stored store' d answer happlied =>
    have hgreatest : Collection.IsGreatestId h.collection.lastId h.collection.items := by
      rw [Collection.lastId_of_load hload]
      exact Collection.isGreatestId_greatestId _
    have hlast := (happlied.isGreatestId hkeeps hspares hgreatest).eq
    have hbacked := (Collection.backed_of_load hload).mutate hwellFormed hafter
    rw [hbacked.load_eq, if_pos hreadable, ← hlast]
  | unstored => exact absurd rfl (hwritten _)

/-- A client that holds the collection and one that loads it anew for every change see the same:
the same answers and, after every change, the same items, the same last id and the same store, and
with it the same text in the file. -/
theorem renewedTrace_eq_trace [Storage.Lawful σ] {store : σ} {library : Library}
    {urlPath : String} {c : Collection}
    (hload : Collection.load store library urlPath = .ok c) {changes : List Mutation}
    (hchanges : (⟨store, c⟩ : Held σ).SettlesAll changes) :
    renewedTrace library urlPath store changes = .ok ((⟨store, c⟩ : Held σ).trace changes) := by
  -- induction on the changes; what is held is what loading gives
  induction changes generalizing store c with
  | nil => rfl
  | cons m rest ih =>
    obtain ⟨hm, hrest⟩ := hchanges
    have hrenew : renew library urlPath store m = .ok ((⟨store, c⟩ : Held σ).step m) := by
      rw [renew, hload]
      rfl
    have hnext := @load_act σ _ _ ⟨store, c⟩ library urlPath hload m hm
    have hlater := ih hnext hrest
    rw [renewedTrace, hrenew, trace]
    simp only [bind, Except.bind, hlater]

/-! ## Two clients in memory -/

/-- In memory writes succeed as long as they are switched on. -/
theorem written_of_enabled {h : Held Memory} (hon : h.store.disabled = false) (m : Mutation)
    (fault : WriteFault) : (h.step m).2 ≠ .error (.store fault) := by
  intro hanswer
  have hanswered := answered (congrArg some hanswer)
  generalize h.act (.change m) = after at hanswered
  cases hanswered with
  | refused hcode => exact hcode rfl
  | unstored _ hdisabled =>
    rw [hon] at hdisabled
    cases hdisabled

/-- An item is patched and replaced, one that carries an id is refused, another is inserted, and the
first is deleted. -/
def cardChanges : List Mutation :=
  [.patch 3 [.add "/text" (.string "new")], .update 3 [("text", .number (.double (.zero true)))],
    .insert [("id", .null)], .insert [("text", .array [])], .delete 3]

theorem wellFormed_of_mem_cardChanges : ∀ m ∈ cardChanges, m.WellFormed := by
  simp only [cardChanges, List.forall_mem_cons]
  refine ⟨List.forall_mem_singleton.mpr trivial, ?_, ?_, ?_, trivial, nofun⟩
  all_goals exact ⟨List.nodup_singleton _, trivial, trivial⟩

theorem settlesAll_cardChanges :
    (⟨cardStore, cardCollection⟩ : Held Memory).SettlesAll cardChanges := by
  have hall := wellFormed_of_mem_cardChanges
  simp only [cardChanges, List.forall_mem_cons] at hall
  obtain ⟨hpatch, hupdate, hrefused, hinsert, hdelete, -⟩ := hall
  refine ⟨⟨hpatch, keepsIds_cardActions.1, nofun, written_of_enabled rfl _, by decide +kernel⟩,
    ⟨hupdate, trivial, nofun, written_of_enabled (by decide +kernel) _, by decide +kernel⟩,
    ⟨hrefused, trivial, nofun, written_of_enabled (by decide +kernel) _, by decide +kernel⟩,
    ⟨hinsert, trivial, nofun, written_of_enabled (by decide +kernel) _, by decide +kernel⟩,
    ⟨hdelete, trivial, ?_, written_of_enabled (by decide +kernel) _, by decide +kernel⟩,
    trivial⟩
  rintro id ⟨⟩
  decide +kernel

/-- The item that is inserted has the id after that of a text in both. -/
theorem renewedTrace_cardChanges :
    renewedTrace Collection.sampleLibrary "/api/cards" cardStore cardChanges =
        .ok ((⟨cardStore, cardCollection⟩ : Held Memory).trace cardChanges) ∧
      ((⟨cardStore, cardCollection⟩ : Held Memory).trace cardChanges).map
        (fun s => (s.1.collection.lastId, s.1.collection.items.length)) =
          [(some 7, 3), (some 7, 3), (some 7, 3), (some 8, 4), (some 8, 3)] :=
  ⟨renewedTrace_eq_trace load_cardStore settlesAll_cardChanges, by decide +kernel⟩

end Held

end JsonCollections
