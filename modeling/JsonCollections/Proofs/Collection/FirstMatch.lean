import JsonCollections.Proofs.Collection.Renewed

set_option autoImplicit false

/-!
# Changes by id touch the first item with it

Ids may be there twice, since files are edited by hand.  Replacing and patching then change the first
item with the id and leave all others where they are.  Deleting takes it away, so that the next one
is the first: one delete after the other answers the items with the id in stored order, and what is
left are all other items (`Held.touchesFirst`).
-/

namespace JsonCollections

/-! ## Setting the id of an item -/

theorem Entries.insert_append {α : Type} {before : Entries α} {key : String}
    (h : key ∉ before.keys) (old value : α) (after : Entries α) :
    insert (before ++ (key, old) :: after) key value = before ++ (key, value) :: after := by
  induction before with
  | nil => exact if_pos rfl
  | cons entry rest ih =>
    simp only [keys, List.map_cons, List.mem_cons, not_or] at h
    rw [List.cons_append, insert, if_neg (Ne.symm h.1), ih h.2, List.cons_append]

namespace Item

/-- The second item is the first one with the id set: in the place of the value under `id`, or behind
all other entries. -/
inductive HasIdSet (k : ItemId) : Item → Item → Prop where
  | overwritten {before after : Item} {old : Json} (hfirst : idKey ∉ Entries.keys before) :
      HasIdSet k (before ++ (idKey, old) :: after) (before ++ (idKey, .number (.ofNat k)) :: after)
  | appended {item : Item} (hfree : idKey ∉ Entries.keys item) :
      HasIdSet k item (item ++ [(idKey, .number (.ofNat k))])

theorem hasIdSet_withId (item : Item) (k : ItemId) : HasIdSet k item (item.withId k) := by
  unfold withId
  cases hget : item.get? idKey with
  | none =>
    have hfree := Entries.get?_eq_none_iff.mp hget
    rw [Entries.insert_of_not_mem hfree]
    exact .appended hfree
  | some old =>
    obtain ⟨before, after, rfl, hbefore⟩ := List.lookup_eq_some_iff.mp hget
    have hfirst : idKey ∉ Entries.keys before := by
      intro hmem
      obtain ⟨entry, hentry, hkey⟩ := List.mem_map.mp hmem
      exact bne_iff_ne.mp (hbefore entry hentry) hkey.symm
    rw [Entries.insert_append hfirst]
    exact .overwritten hfirst

end Item

namespace Collection

/-! ## The first item with an id -/

theorem FirstAt.find?_eq {c : Collection} {k : ItemId} {before after : List Item} {old : Item}
    (h : c.FirstAt k before old after) : c.find? k = some old := by
  refine List.find?_eq_some_iff_append.mpr ⟨beq_iff_eq.mpr h.id_eq, before, after, h.items_eq, ?_⟩
  intro item hitem
  simp [h.absent item hitem]

/-- The second collection is the first one with another item in the place of the first with an id. -/
structure Exchanged (c : Collection) (k : ItemId) (item : Item) (d : Collection) : Prop where
  items : ∃ before old after, c.FirstAt k before old after ∧ d.items = before ++ item :: after
  length : d.items.length = c.items.length
  lastId : d.lastId = c.lastId
  sameFile : SameFile c d

theorem exchanged_set {c : Collection} {k : ItemId} {i : Nat} (h : c.position? k = some i)
    (item : Item) : Exchanged c k item { c with items := c.items.set i item } := by
  obtain ⟨before, old, after, hfirst, -, hset, -⟩ := exists_firstAt h
  exact ⟨⟨before, old, after, hfirst, hset item⟩, List.length_set, rfl, ⟨rfl, rfl, rfl⟩⟩

/-! ## Items with an id and all others -/

/-- The items with an id, in stored order. -/
def bearers (c : Collection) (k : ItemId) : List Item := c.items.filter fun item => item.id? = some k

/-- The items without the id, in stored order. -/
def others (c : Collection) (k : ItemId) : List Item := c.items.filter fun item => item.id? ≠ some k

theorem bearers_eq_nil_iff {c : Collection} {k : ItemId} :
    c.bearers k = [] ↔ ∀ item ∈ c.items, item.id? ≠ some k := by
  simp only [bearers, List.filter_eq_nil_iff, decide_eq_true_eq, ne_eq]

theorem others_of_bearers_eq_nil {c : Collection} {k : ItemId} (h : c.bearers k = []) :
    c.others k = c.items :=
  List.filter_eq_self.mpr fun item hitem => decide_eq_true (bearers_eq_nil_iff.mp h item hitem)

/-- Without an item with the id there is no place for it. -/
theorem places_eq_none {c : Collection} {k : ItemId} (h : c.bearers k = []) :
    c.find? k = none ∧ c.position? k = none := by
  have hnone : c.find? k = none := List.find?_eq_none.mpr fun item hitem =>
    beq_iff_eq.not.mpr (bearers_eq_nil_iff.mp h item hitem)
  exact ⟨hnone, position?_eq_none hnone⟩

/-- The first of the items with the id has its place. -/
theorem exists_places {c : Collection} {k : ItemId} (h : c.bearers k ≠ []) :
    ∃ i old, c.position? k = some i ∧ c.find? k = some old := by
  cases hplace : c.position? k with
  | none =>
    refine absurd (bearers_eq_nil_iff.mpr fun item hitem => ?_) h
    exact beq_eq_false_iff_ne.mp (List.findIdx?_eq_none_iff.mp hplace item hitem)
  | some i =>
    obtain ⟨before, old, after, hfirst, -⟩ := exists_firstAt hplace
    exact ⟨i, old, rfl, hfirst.find?_eq⟩

/-- Without the first item with the id there is one item less with it, and the others are the same. -/
theorem FirstAt.split {c d : Collection} {k : ItemId} {before after : List Item} {old : Item}
    (h : c.FirstAt k before old after) (hd : d.items = before ++ after) :
    c.bearers k = old :: d.bearers k ∧ d.others k = c.others k := by
  have hbefore : before.filter (fun item => decide (item.id? = some k)) = [] :=
    List.filter_eq_nil_iff.mpr fun item hitem => by simp [h.absent item hitem]
  constructor
  · simp only [bearers, hd, h.items_eq, List.filter_append, List.filter_cons, hbefore, h.id_eq,
      decide_true, if_true, List.nil_append]
  · simp only [others, hd, h.items_eq, List.filter_append, List.filter_cons, h.id_eq, ne_eq,
      not_true_eq_false, decide_false, Bool.false_eq_true, if_false]

/-- A delete answers the first item with the id and takes it away. -/
theorem Applied.deleted {c d : Collection} {k : ItemId} {answer : Item}
    (h : Applied c (.delete k) d answer) :
    c.bearers k = answer :: d.bearers k ∧ d.others k = c.others k ∧ d.lastId = c.lastId := by
  cases h with
  | @delete _ i _ hplace hold =>
    obtain ⟨before, old, after, hfirst, -, -, herase⟩ := exists_firstAt hplace
    obtain rfl : old = answer := Option.some.inj (hfirst.find?_eq.symm.trans hold)
    obtain ⟨hbearers, hothers⟩ :=
      @FirstAt.split c { c with items := c.items.eraseIdx i } k _ _ _ hfirst herase
    exact ⟨hbearers, hothers, rfl⟩

end Collection

namespace Held

open Collection (Applied)

variable {σ : Type} [Storage σ]

/-! ## One change by id -/

/-- A change is refused and nothing happens, or it is made; then the item is answered unless it
cannot be stored. -/
theorem step_cases (h : Held σ) (m : Mutation) :
    (∃ error, h.collection.apply m = .error error ∧ h.step m = (h, .error error)) ∨
      ∃ answer, Applied h.collection m (h.step m).1.collection answer ∧
        ((h.step m).2 = .ok answer ∨ ∃ fault, (h.step m).2 = .error (.store fault)) := by
  have hmutated := Collection.mutated h.collection h.store m
  simp only [step, act]
  generalize h.collection.mutate h.store m = after at hmutated
  cases hmutated with
  | refused error happly => exact .inl ⟨error, happly, rfl⟩
  | stored happlied => exact .inr ⟨_, happlied, .inl rfl⟩
  | unstored happlied => exact .inr ⟨_, happlied, .inr ⟨_, rfl⟩⟩

theorem applied_of_step {h : Held σ} {m : Mutation} {answer : Item}
    (hanswer : (h.step m).2 = .ok answer) :
    Applied h.collection m (h.step m).1.collection answer := by
  rcases h.step_cases m with ⟨error, -, hstep⟩ | ⟨item, happlied, hitem | ⟨fault, hfault⟩⟩
  · rw [hstep] at hanswer
    cases hanswer
  · rw [hitem] at hanswer
    cases hanswer
    exact happlied
  · rw [hfault] at hanswer
    cases hanswer

/-- Without an item with the id a change of one is refused. -/
theorem step_of_bearers_eq_nil {h : Held σ} {k : ItemId} (hnone : h.collection.bearers k = [])
    {m : Mutation} (hm : m = .delete k ∨ (∃ body, m = .update k body) ∨ ∃ ops, m = .patch k ops) :
    h.step m = (h, .error (.notFound k)) := by
  obtain ⟨hfind, hplace⟩ := Collection.places_eq_none hnone
  have happly : h.collection.apply m = .error (.notFound k) := by
    rcases hm with rfl | ⟨body, rfl⟩ | ⟨ops, rfl⟩ <;> simp only [Collection.apply, hfind, hplace]
  rcases h.step_cases m with ⟨error, herror, hstep⟩ | ⟨answer, happlied, -⟩
  · rw [happly] at herror
    cases herror
    exact hstep
  · rw [Collection.apply_eq_ok_iff.mpr happlied] at happly
    cases happly

/-- A change that can be made is made, and the item is answered unless it cannot be stored. -/
theorem step_of_applied {h : Held σ} {m : Mutation} {d : Collection} {answer : Item}
    (happlied : Applied h.collection m d answer) : (h.step m).1.collection = d ∧
      ((h.step m).2 = .ok answer ∨ ∃ fault, (h.step m).2 = .error (.store fault)) := by
  have happly := Collection.apply_eq_ok_iff.mpr happlied
  rcases h.step_cases m with ⟨error, herror, -⟩ | ⟨item, hitem, hanswer⟩
  · rw [happly] at herror
    cases herror
  · have heq := happly.symm.trans (Collection.apply_eq_ok_iff.mpr hitem)
    cases heq
    exact ⟨rfl, hanswer⟩

/-! ## Deletes in order -/

/-- The deletes of an id, one after the other. -/
def deletes (k : ItemId) (n : Nat) : List Mutation := List.replicate n (.delete k)

/-- What is held after the deletes of an id. -/
def deleted (h : Held σ) (k : ItemId) (n : Nat) : Held σ := h.run ((deletes k n).map .change)

theorem deleted_succ (h : Held σ) (k : ItemId) (n : Nat) :
    h.deleted k (n + 1) = (h.step (.delete k)).1.deleted k n := rfl

/-- A delete takes the first item with the id, and nothing where there is none. -/
theorem bearers_step_delete (h : Held σ) (k : ItemId) :
    (h.step (.delete k)).1.collection.bearers k = (h.collection.bearers k).drop 1 ∧
      (h.step (.delete k)).1.collection.others k = h.collection.others k ∧
      (h.step (.delete k)).1.collection.lastId = h.collection.lastId := by
  by_cases hnone : h.collection.bearers k = []
  · rw [step_of_bearers_eq_nil hnone (.inl rfl), hnone]
    exact ⟨rfl, rfl, rfl⟩
  · obtain ⟨i, old, hplace, hold⟩ := Collection.exists_places hnone
    have happlied := Applied.delete hplace hold
    obtain ⟨hbearers, hothers, hlast⟩ := happlied.deleted
    rw [(step_of_applied happlied).1, hbearers]
    exact ⟨rfl, hothers, hlast⟩

/-- Deletes take the first items with the id and leave all others. -/
theorem bearers_deleted (h : Held σ) (k : ItemId) (n : Nat) :
    (h.deleted k n).collection.bearers k = (h.collection.bearers k).drop n ∧
      (h.deleted k n).collection.others k = h.collection.others k ∧
      (h.deleted k n).collection.lastId = h.collection.lastId := by
  induction n generalizing h with
  | zero => exact ⟨rfl, rfl, rfl⟩
  | succ n ih =>
    obtain ⟨hbearers, hothers, hlast⟩ := h.bearers_step_delete k
    obtain ⟨hbearers', hothers', hlast'⟩ := ih (h.step (.delete k)).1
    rw [deleted_succ, hbearers', hothers', hlast', hbearers, hothers, hlast, List.drop_drop,
      Nat.add_comm]
    exact ⟨rfl, rfl, rfl⟩

/-- While the items can be stored, deletes answer the items with the id in order. -/
theorem answers_deletes {h : Held σ} {k : ItemId} {n : Nat}
    (hn : n ≤ (h.collection.bearers k).length)
    (hwritten : ∀ s ∈ h.trace (deletes k n), ∀ fault, s.2 ≠ .error (.store fault)) :
    (h.trace (deletes k n)).map Prod.snd = ((h.collection.bearers k).take n).map .ok := by
  induction n generalizing h with
  | zero => rfl
  | succ n ih =>
    obtain ⟨hfirst, hrest⟩ := List.forall_mem_cons.mp hwritten
    have hsome : h.collection.bearers k ≠ [] := List.ne_nil_of_length_pos (by omega)
    obtain ⟨i, old, hplace, hold⟩ := Collection.exists_places hsome
    have happlied := Applied.delete hplace hold
    have hanswer : (h.step (.delete k)).2 = .ok old :=
      (step_of_applied happlied).2.resolve_right fun ⟨fault, hfault⟩ => hfirst fault hfault
    have hbearers : h.collection.bearers k =
        old :: (h.step (.delete k)).1.collection.bearers k := by
      rw [(step_of_applied happlied).1]
      exact happlied.deleted.1
    rw [hbearers] at hn ⊢
    have hlater := ih (Nat.le_of_succ_le_succ hn) hrest
    exact congrArg₂ List.cons hanswer hlater

/-! ## All changes by id -/

/-- Changes by an id touch the first item with it and nothing else. -/
structure TouchesFirst (h : Held σ) (k : ItemId) : Prop where
  /-- a replacement that is answered is in the place of the first item with the id, and is found
  there; it is what was given with the id set -/
  updated : ∀ {body answer}, (h.step (.update k body)).2 = .ok answer →
    Collection.Exchanged h.collection k answer (h.step (.update k body)).1.collection ∧
      (h.step (.update k body)).1.collection.find? k = some answer ∧ Item.HasIdSet k body answer
  /-- a patched item is in the place of the first item with the id -/
  patched : ∀ {operations answer}, (h.step (.patch k operations)).2 = .ok answer →
    Collection.Exchanged h.collection k answer (h.step (.patch k operations)).1.collection ∧
      ∃ old, h.collection.find? k = some old ∧
        operations.run (.object old) = .ok (.object answer)
  /-- while the items can be stored, deletes answer the items with the id in stored order -/
  answered : ∀ n ≤ (h.collection.bearers k).length,
    (∀ s ∈ h.trace (deletes k n), ∀ fault, s.2 ≠ .error (.store fault)) →
      (h.trace (deletes k n)).map Prod.snd = ((h.collection.bearers k).take n).map .ok
  /-- on the way there all other items stay in their order -/
  kept : ∀ n, (h.deleted k n).collection.bearers k = (h.collection.bearers k).drop n ∧
    (h.deleted k n).collection.others k = h.collection.others k ∧
      (h.deleted k n).collection.lastId = h.collection.lastId
  /-- and after as many deletes as there are items with the id they are all that is left; one more
  is refused -/
  exhausted : (h.deleted k (h.collection.bearers k).length).collection.items =
      h.collection.others k ∧
    (h.deleted k (h.collection.bearers k).length).step (.delete k) =
      (h.deleted k (h.collection.bearers k).length, .error (.notFound k))
  /-- a change is refused where there is no item with the id -/
  missing : (∀ item ∈ h.collection.items, item.id? ≠ some k) → ∀ m,
    (m = .delete k ∨ (∃ body, m = .update k body) ∨ ∃ operations, m = .patch k operations) →
      h.step m = (h, .error (.notFound k))
  /-- and where there is one a replacement that can be stored is answered -/
  found : (∃ item ∈ h.collection.items, item.id? = some k) → ∀ body,
    (∀ fault, (h.step (.update k body)).2 ≠ .error (.store fault)) →
      ∃ answer, (h.step (.update k body)).2 = .ok answer

theorem updated_of_step {h : Held σ} {k : ItemId} {body answer : Item}
    (hanswer : (h.step (.update k body)).2 = .ok answer) :
    Collection.Exchanged h.collection k answer (h.step (.update k body)).1.collection ∧
      (h.step (.update k body)).1.collection.find? k = some answer ∧
      Item.HasIdSet k body answer := by
  have happlied := applied_of_step hanswer
  generalize (h.step (.update k body)).1.collection = d at happlied ⊢
  cases happlied with
  | @update _ _ i hplace =>
    have hexchanged := Collection.exchanged_set hplace (body.withId k)
    refine ⟨hexchanged, ?_, body.hasIdSet_withId k⟩
    obtain ⟨before, old, after, hfirst, hitems⟩ := hexchanged.items
    obtain ⟨_, -, hid⟩ := Collection.exists_of_position? hplace
    -- the new item has the id and no item before it has it
    have hnew : ({ h.collection with items := h.collection.items.set i (body.withId k) } :
        Collection).FirstAt k before (body.withId k) after :=
      ⟨hitems, Item.id?_withId body (Item.id?_lt_bound hid), hfirst.absent⟩
    exact hnew.find?_eq

/-- Whatever is held and whatever the id, changes by the id touch the first item with it and nothing
else. -/
theorem touchesFirst (h : Held σ) (k : ItemId) : h.TouchesFirst k where
  updated := updated_of_step
  patched := by
    intro operations answer hanswer
    have happlied := applied_of_step hanswer
    generalize (h.step (.patch k operations)).1.collection = d at happlied ⊢
    cases happlied with
    | patch hplace hold hrun => exact ⟨Collection.exchanged_set hplace answer, _, hold, hrun⟩
  answered _ hn hwritten := answers_deletes hn hwritten
  kept := h.bearers_deleted k
  exhausted := by
    obtain ⟨hbearers, hothers, -⟩ := h.bearers_deleted k (h.collection.bearers k).length
    rw [List.drop_length] at hbearers
    rw [← hothers, Collection.others_of_bearers_eq_nil hbearers]
    exact ⟨rfl, step_of_bearers_eq_nil hbearers (.inl rfl)⟩
  missing hnone _ hm := step_of_bearers_eq_nil (Collection.bearers_eq_nil_iff.mpr hnone) hm
  found := by
    rintro ⟨item, hitem, hid⟩ body hwritten
    have hsome : h.collection.bearers k ≠ [] :=
      fun hnil => Collection.bearers_eq_nil_iff.mp hnil item hitem hid
    obtain ⟨i, old, hplace, -⟩ := Collection.exists_places hsome
    rcases (step_of_applied (Applied.update hplace)).2 with hanswer | ⟨fault, hfault⟩
    · exact ⟨_, hanswer⟩
    · exact absurd hfault (hwritten fault)

/-- Items in memory, three of them with the id `3`. -/
def pile : Held Memory where
  store := { files := [] }
  collection := {
    filePath := .ofText "data/api/pile.json"
    urlPath := "/api/pile"
    lastId := some 7
    maxItems := 1000
    items := [[("id", .number (.ofNat 3)), ("text", .string "first")], [("id", .string "3")],
      [("id", .number (.double ⟨false, 0x18000000000000, 1023, by decide, by decide,
        .inr (by decide)⟩))],
      [("id", .number (.ofNat 7))], [("text", .null), ("id", .number (.ofNat 3))]] }

/-- All three are deleted in order, and a text that looks like the id stays. -/
theorem touchesFirst_pile :
    (pile.trace (deletes 3 3)).map Prod.snd = ((pile.collection.bearers 3).take 3).map .ok ∧
      (pile.collection.bearers 3).length = 3 ∧
      (pile.deleted 3 3).collection.items =
        [[("id", .string "3")], [("id", .number (.ofNat 7))]] := by
  have hlength : (pile.collection.bearers 3).length = 3 := by decide +kernel
  have hwritten : ∀ s ∈ pile.trace (deletes 3 3), ∀ fault, s.2 ≠ .error (.store fault) := by
    refine List.forall_mem_cons.mpr ⟨written_of_enabled rfl _, List.forall_mem_cons.mpr
      ⟨written_of_enabled ?_ _, List.forall_mem_singleton.mpr (written_of_enabled ?_ _)⟩⟩
    · decide +kernel
    · decide +kernel
  have hothers : pile.collection.others 3 =
      [[("id", .string "3")], [("id", .number (.ofNat 7))]] := by
    refine (List.filter_cons_of_neg (by decide +kernel)).trans ?_
    refine (List.filter_cons_of_pos (by decide +kernel)).trans (congrArg _ ?_)
    refine (List.filter_cons_of_neg (by decide +kernel)).trans ?_
    refine (List.filter_cons_of_pos (by decide +kernel)).trans (congrArg _ ?_)
    exact List.filter_cons_of_neg (by decide +kernel)
  have hexhausted := (touchesFirst pile 3).exhausted.1
  rw [hlength, hothers] at hexhausted
  exact ⟨(touchesFirst pile 3).answered 3 hlength.ge hwritten, hlength, hexhausted⟩

end Held

end JsonCollections
