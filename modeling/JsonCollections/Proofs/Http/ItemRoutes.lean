import JsonCollections.Proofs.Http.ItemAnswers

set_option autoImplicit false

/-!
# The routes of items answer like a map

The service answers requests on a collection and its items as `ItemMap.handle` answers them, though
every request loads the collection anew.  `Service.Shows` says that the file of the collection holds
the items of a map.  A request keeps it (`Service.Shows.handle`), and so does every sequence of
requests (`Service.handleAll_itemRequests`).
-/

namespace JsonCollections.Http

/-- No query string asks for everything. -/
theorem ofQueryString_empty : Query.ofQueryString "" = .ok {} := rfl

theorem run_unrestricted (items : List Item) : Query.run {} items = items := by
  have hkeeps : items.filter (Query.keeps {}) = items := List.filter_eq_self.mpr fun _ _ => rfl
  have hshows : items.map (Query.shows {}) = items := List.map_id items
  rw [Query.run, hkeeps, hshows]
  rfl

namespace Service

variable {σ : Type} [Storage σ] {urlPath : String}

/-- A request on items is answered by its command; only the counters change besides. -/
theorem handle_itemRequest (s : Service σ) (r : ItemRequest urlPath) :
    ∃ counters, s.handle r.request =
      ({ (s.perform (Command.ofTarget r.request (.under urlPath r.id?))).1 with counters },
        (respond (s.perform (Command.ofTarget r.request (.under urlPath r.id?))).2).withHeader
          "access-control-allow-origin" "*") := by
  obtain ⟨path, decoded, hroute, hdecoded, htarget⟩ := Request.target?_eq_some r.target_eq
  obtain ⟨counters, hanswer⟩ := answerResource_eq s r.request (String.ofList decoded)
  rw [Command.ofRequest, htarget] at hanswer
  refine ⟨counters, ?_⟩
  have hmethod := r.method_mem
  simp only [List.mem_cons, List.not_mem_nil, or_false] at hmethod
  rcases hmethod with hmethod | hmethod | hmethod | hmethod
  all_goals
    simp only [handle, hmethod, hroute, Route.takes, answerRoute, hdecoded, hanswer, if_true,
      reduceCtorEq, if_false]

/-! ## The file and the map -/

/-- The file of the collection holds the items of a map in which no id is there twice. -/
structure Shows (s : Service σ) (urlPath : String) (file : Path) (m : ItemMap) : Prop where
  load : ∃ c, Collection.load s.store s.library urlPath = .ok c ∧ c.filePath = file ∧
    ItemMap.ofItems c.items = m
  distinct : m.Distinct

/-- The service has answered as the map does, and its file holds the items of the map. -/
structure Agrees (library : Library) (urlPath : String) (file : Path)
    (after : Service σ × Except Failure Reply) (expected : ItemMap × Except Failure Reply) :
    Prop where
  result_eq : after.2 = expected.2
  library_eq : after.1.library = library
  shows : after.1.Shows urlPath file expected.1

/-- The service answers a request as the map does. -/
def AnswersAs (s : Service σ) (file : Path) (m : ItemMap) (r : ItemRequest urlPath) : Prop :=
  Agrees s.library urlPath file (s.perform (Command.ofTarget r.request (.under urlPath r.id?)))
    (m.answer s.library.maxItems r)

variable {s : Service σ} {file : Path} {m : ItemMap}

theorem Shows.keyed (h : s.Shows urlPath file m) : m.Keyed := by
  obtain ⟨c, -, -, rfl⟩ := h.load
  exact ItemMap.keyed_ofItems c.items

/-- A request that changes neither the file nor the map. -/
theorem Shows.agrees (h : s.Shows urlPath file m) (result : Except Failure Reply) :
    Agrees s.library urlPath file (s, result) (m, result) := ⟨rfl, rfl, h⟩

theorem execute_find {c : Collection}
    (hload : Collection.load s.store s.library urlPath = .ok c) (k : ItemId) :
    s.execute (.find urlPath k) =
      match (ItemMap.ofItems c.items).lookup k with
      | none => (s, .error (.noItem urlPath k))
      | some item => (s, .ok ⟨200, .object item⟩) := by
  simp only [execute, hload, ← Collection.find?_eq_lookup]
  cases c.find? k <;> rfl

/-- A change that cannot be made changes neither. -/
theorem Shows.agrees_refused (h : s.Shows urlPath file m) {c : Collection}
    (hload : Collection.load s.store s.library urlPath = .ok c) {change : Mutation}
    {e : WriteError} (happly : c.apply change = .error e) :
    Agrees s.library urlPath file (s.execute (.mutate urlPath change))
      (m, .error (.ofWriteError urlPath e)) := by
  rw [execute_mutate_error hload happly]
  exact h.agrees _

/-- A change that can be made changes the file and the map in the same way. -/
theorem Shows.agrees_mutate [Storage.Lawful σ] {c d : Collection} {m' : ItemMap}
    (hload : Collection.load s.store s.library urlPath = .ok c)
    (hwrite : ∀ text, (Storage.write s.store c.filePath text).2 = .ok ()) {change : Mutation}
    {item : Item} (happly : c.apply change = .ok (d, item)) (hchange : change.WellFormed)
    (hitems : d.items = m'.items) (hreadable : Collection.AreReadable m'.items)
    (hkeyed : m'.Keyed) (hdistinct : m'.Distinct) :
    Agrees s.library urlPath c.filePath (s.execute (.mutate urlPath change))
      (m', .ok (.ofMutation change item)) := by
  obtain ⟨store, hexecute, hloads⟩ :=
    execute_mutate_ok hload hwrite happly hchange (hitems ▸ hreadable)
  have hfile := (Collection.applied_of_apply happly).sameFile.filePath
  rw [hexecute]
  refine ⟨rfl, rfl, ⟨_, hloads, hfile, ?_⟩, hdistinct⟩
  exact (congrArg ItemMap.ofItems hitems).trans hkeyed.ofItems_items

/-- An insertion agrees with appending to the map. -/
theorem Shows.answersAs_insert [Storage.Lawful σ] (h : s.Shows urlPath file m)
    (hwrite : ∀ text, (Storage.write s.store file text).2 = .ok ()) (r : ItemRequest urlPath)
    (hmethod : r.request.method = .post) (hid : r.id? = none) :
    s.AnswersAs file m r := by
  obtain ⟨c, hload, rfl, hmap⟩ := h.load
  unfold AnswersAs Command.ofTarget ItemMap.answer
  simp only [hid, Target.under, hmethod]
  cases hbody : Command.objectOf r.request with
  | error fault => exact h.agrees _
  | ok body =>
    have hwellFormed := Command.wellFormed_of_objectOf hbody
    have hitems : c.items = m.items := by rw [← hmap, ItemMap.items_ofItems]
    have happly := Collection.apply_insert (Collection.lastId_of_load hload) hwellFormed
    rw [hmap, hitems, Collection.maxItems_of_load hload] at happly
    simp only [Except.mapError, Except.map, perform]
    split
    · rename_i hextra
      rw [if_pos hextra] at happly
      exact h.agrees_refused hload happly
    · rename_i hfree
      rw [if_neg hfree] at happly
      split
      · rename_i hfull
        rw [if_pos hfull] at happly
        exact h.agrees_refused hload happly
      · rename_i hroom
        rw [if_neg hroom] at happly
        split
        · rename_i hbound
          rw [if_pos hbound] at happly
          have hkey : Item.id? ((Item.idKey, .number (.ofNat m.nextId)) :: body) = some m.nextId :=
            Item.id?_of_get? hbound ((Entries.get?_cons _ _ _ _).trans (if_pos rfl))
          have hreadable : Collection.AreReadable
              (m.append m.nextId ((Item.idKey, .number (.ofNat m.nextId)) :: body)).items := by
            intro item hitem
            rw [ItemMap.items_append, List.mem_append, List.mem_singleton] at hitem
            rcases hitem with hitem | rfl
            · exact Collection.areReadable_of_load hload item (hitems ▸ hitem)
            · exact Item.readable_cons_id (r.readable body hbody) m.nextId
          exact Shows.agrees_mutate hload hwrite happly hwellFormed rfl hreadable
            (h.keyed.append hkey) (h.distinct.append h.keyed.nextId_not_mem_keys _)
        · rename_i hexhausted
          rw [if_neg hexhausted] at happly
          exact h.agrees_refused hload happly

/-- An update agrees with replacing in the map. -/
theorem Shows.answersAs_update [Storage.Lawful σ] (h : s.Shows urlPath file m)
    (hwrite : ∀ text, (Storage.write s.store file text).2 = .ok ()) (r : ItemRequest urlPath)
    (hmethod : r.request.method = .put) {k : ItemId} (hid : r.id? = some k) :
    s.AnswersAs file m r := by
  obtain ⟨c, hload, rfl, hmap⟩ := h.load
  unfold AnswersAs Command.ofTarget ItemMap.answer
  simp only [hid, Target.under, hmethod]
  cases hbody : Command.objectOf r.request with
  | error fault => exact h.agrees _
  | ok body =>
    have happly := Collection.apply_update (hmap.symm ▸ h.distinct) k body
    rw [hmap] at happly
    simp only [Except.mapError, Except.map, perform]
    cases hold : m.lookup k with
    | none =>
      rw [hold] at happly
      exact h.agrees_refused hload happly
    | some old =>
      rw [hold] at happly
      have hreadable : Collection.AreReadable (m.replace k (body.withId k)).items := by
        intro item hitem
        rw [← hmap, ItemMap.items_replace] at hitem
        obtain ⟨other, hother, rfl⟩ := List.mem_map.mp hitem
        split
        · exact Item.readable_withId (r.readable body hbody) k
        · exact Collection.areReadable_of_load hload other hother
      have hwellFormed := Command.wellFormed_of_objectOf hbody
      exact Shows.agrees_mutate hload hwrite happly hwellFormed rfl hreadable
        (h.keyed.replace (Item.id?_withId body (r.lt_bound hid))) (h.distinct.replace k _)

/-- A deletion agrees with removing from the map. -/
theorem Shows.answersAs_delete [Storage.Lawful σ] (h : s.Shows urlPath file m)
    (hwrite : ∀ text, (Storage.write s.store file text).2 = .ok ()) (r : ItemRequest urlPath)
    (hmethod : r.request.method = .delete) {k : ItemId} (hid : r.id? = some k) :
    s.AnswersAs file m r := by
  obtain ⟨c, hload, rfl, hmap⟩ := h.load
  have happly := Collection.apply_delete (hmap.symm ▸ h.distinct) k
  rw [hmap] at happly
  unfold AnswersAs Command.ofTarget ItemMap.answer
  simp only [hid, Target.under, hmethod, perform]
  cases hold : m.lookup k with
  | none =>
    rw [hold] at happly
    exact h.agrees_refused hload happly
  | some old =>
    rw [hold] at happly
    have hreadable : Collection.AreReadable (m.remove k).items := by
      intro item hitem
      rw [← hmap, ItemMap.items_remove] at hitem
      exact Collection.areReadable_of_load hload item (List.mem_of_mem_filter hitem)
    exact Shows.agrees_mutate hload hwrite happly trivial rfl hreadable (h.keyed.remove k)
      (h.distinct.remove k)

/-- A request that only looks agrees with looking into the map. -/
theorem Shows.answersAs_get (h : s.Shows urlPath file m) (r : ItemRequest urlPath)
    (hmethod : r.request.method = .get) : s.AnswersAs file m r := by
  obtain ⟨c, hload, rfl, hmap⟩ := h.load
  cases hid : r.id? with
  | some k =>
    unfold AnswersAs Command.ofTarget ItemMap.answer
    simp only [hid, Target.under, hmethod, perform, execute_find hload, hmap]
    cases m.lookup k with
    | none => exact h.agrees _
    | some item => exact h.agrees _
  | none =>
    unfold AnswersAs Command.ofTarget ItemMap.answer
    simp only [hid, Target.under, hmethod, ← hmap, ItemMap.items_ofItems]
    split
    · rename_i hempty
      rw [hempty, ofQueryString_empty]
      simp only [Except.mapError, Except.map, perform, execute_query hload, run_unrestricted]
      exact Shows.agrees ⟨⟨c, hload, rfl, rfl⟩, hmap ▸ h.distinct⟩ _
    · cases Query.ofQueryString r.request.queryString with
      | error e => exact Shows.agrees ⟨⟨c, hload, rfl, rfl⟩, hmap ▸ h.distinct⟩ _
      | ok q =>
        simp only [Except.mapError, Except.map, perform, execute_query hload]
        exact Shows.agrees ⟨⟨c, hload, rfl, rfl⟩, hmap ▸ h.distinct⟩ _

theorem Shows.answersAs [Storage.Lawful σ] (h : s.Shows urlPath file m)
    (hwrite : ∀ text, (Storage.write s.store file text).2 = .ok ()) (r : ItemRequest urlPath) :
    s.AnswersAs file m r := by
  have hmethod := r.method_mem
  simp only [List.mem_cons, List.not_mem_nil, or_false] at hmethod
  rcases hmethod with hmethod | hmethod | hmethod | hmethod
  · exact h.answersAs_get r hmethod
  · cases hid : r.id? with
    | none => exact h.answersAs_insert hwrite r hmethod hid
    | some k =>
      unfold AnswersAs Command.ofTarget ItemMap.answer
      simp only [hid, Target.under, hmethod]
      exact h.agrees _
  · cases hid : r.id? with
    | none =>
      unfold AnswersAs Command.ofTarget ItemMap.answer
      simp only [hid, Target.under, hmethod]
      exact h.agrees _
    | some k => exact h.answersAs_update hwrite r hmethod hid
  · cases hid : r.id? with
    | none =>
      unfold AnswersAs Command.ofTarget ItemMap.answer
      simp only [hid, Target.under, hmethod]
      exact h.agrees _
    | some k => exact h.answersAs_delete hwrite r hmethod hid

/-! ## Requests in order -/

/-- One request is answered as by the map, and the file goes on holding the items of the map. -/
theorem Shows.handle [Storage.Lawful σ] (h : s.Shows urlPath file m)
    (hwrite : ∀ text, (Storage.write s.store file text).2 = .ok ()) (r : ItemRequest urlPath) :
    (s.handle r.request).2 = (m.handle s.library.maxItems r).2 ∧
      (s.handle r.request).1.library = s.library ∧
      (s.handle r.request).1.Shows urlPath file (m.handle s.library.maxItems r).1 := by
  obtain ⟨counters, hhandle⟩ := handle_itemRequest s r
  obtain ⟨hresult, hlibrary, hshows⟩ := h.answersAs hwrite r
  rw [hhandle, ItemMap.handle, hresult]
  exact ⟨rfl, hlibrary, hshows.load, hshows.distinct⟩

/-- Whenever one of the requests is answered, the file can be written. -/
def WritesSucceed (file : Path) (s : Service σ) : List Request → Prop
  | [] => True
  | r :: rest => (∀ text, (Storage.write s.store file text).2 = .ok ()) ∧
      WritesSucceed file (s.handle r).1 rest

/-- Requests in order are answered as by the map. -/
theorem Shows.handleAll [Storage.Lawful σ] (h : s.Shows urlPath file m)
    (requests : List (ItemRequest urlPath))
    (hwrites : WritesSucceed file s (requests.map ItemRequest.request)) :
    (s.handleAll (requests.map ItemRequest.request)).2 =
        (m.handleAll s.library.maxItems requests).2 ∧
      (s.handleAll (requests.map ItemRequest.request)).1.library = s.library ∧
      (s.handleAll (requests.map ItemRequest.request)).1.Shows urlPath file
        (m.handleAll s.library.maxItems requests).1 := by
  induction requests generalizing s m with
  | nil => exact ⟨rfl, rfl, h⟩
  | cons r rest ih =>
    obtain ⟨hwrite, hwrites⟩ := hwrites
    obtain ⟨hresponse, hlibrary, hshows⟩ := h.handle hwrite r
    obtain ⟨hresponses, hlibraries, hall⟩ := ih hshows hwrites
    rw [hlibrary] at hresponses hlibraries hall
    refine ⟨?_, hlibraries, hall⟩
    exact congrArg₂ List.cons hresponse hresponses

/-- The requests on a collection and its items refine an ordered map.  If the collection loads and
no id is there twice, and while its file can be written, the responses are those of the map of its
items, and the file goes on holding the items of the map.  No id is there twice afterwards, and the
next id that the map assigns is greater than every numeric id. -/
theorem handleAll_itemRequests [Storage.Lawful σ] {c : Collection}
    (hload : Collection.load s.store s.library urlPath = .ok c)
    (hdistinct : (c.items.filterMap Item.id?).Nodup) (requests : List (ItemRequest urlPath))
    (hwrites : WritesSucceed c.filePath s (requests.map ItemRequest.request)) :
    let after := s.handleAll (requests.map ItemRequest.request)
    let expected := (ItemMap.ofItems c.items).handleAll s.library.maxItems requests
    after.2 = expected.2 ∧
      (∃ d, Collection.load after.1.store s.library urlPath = .ok d ∧ d.items = expected.1.items) ∧
      expected.1.Distinct ∧ expected.1.nextId ∉ expected.1.keys ∧
      ∀ item ∈ expected.1.items, ∀ n, item.numericId? = some n → n < expected.1.nextId := by
  have hshows : s.Shows urlPath c.filePath (ItemMap.ofItems c.items) := by
    refine ⟨⟨c, hload, rfl, rfl⟩, ?_⟩
    unfold ItemMap.Distinct
    rw [ItemMap.keys_ofItems]
    exact hdistinct
  obtain ⟨hresponses, hlibrary, hafter⟩ := hshows.handleAll requests hwrites
  obtain ⟨d, hd, -, hmap⟩ := hafter.load
  rw [hlibrary] at hd
  have hitems : d.items = _ := (ItemMap.items_ofItems d.items).symm.trans (congrArg _ hmap)
  refine ⟨hresponses, ⟨d, hd, hitems⟩, hafter.distinct, hafter.keyed.nextId_not_mem_keys, ?_⟩
  intro item hitem n hn
  exact ItemMap.lt_nextId hitem hn

end Service

/-! ## Requests in memory -/

theorem Service.writesSucceed_of_enabled {s : Service Memory} (h : s.store.disabled = false)
    (file : Path) (requests : List Request) : Service.WritesSucceed file s requests := by
  induction requests generalizing s with
  | nil => trivial
  | cons r rest ih =>
    have hwrite : ∀ (p : Path) (text : String), Storage.write s.store p text =
        ({ s.store.put p text with writes := s.store.writes + 1 }, .ok ()) := by
      intro p text
      rw [Memory.write_eq, if_neg (Bool.eq_false_iff.mp h)]
    refine ⟨fun text => congrArg Prod.snd (hwrite file text), ih ?_⟩
    rcases Service.atMostOneWrite_handle s r with hstore | ⟨p, text, hstore⟩
    · rw [hstore, h]
    · rw [hstore, hwrite]
      exact h

/-- The items of a collection: one has an id, and one has a text for an id. -/
def pens : List Item := [[("id", .number (.ofNat 3))], [("id", .string "7")]]

/-- A service with that collection. -/
def penService : Service Memory where
  store := { files := [(.ofText "data/api/pens.json", Collection.textOfItems pens)] }
  library := { base := .ofText "data" }

/-- The collection as it is loaded. -/
def penCollection : Collection where
  filePath := .ofText "data/api/pens.json"
  urlPath := "/api/pens"
  lastId := Collection.greatestId pens
  maxItems := 1000
  items := pens

theorem wellFormed_pens : Collection.AreWellFormed pens := by
  intro item hitem
  simp only [pens, List.mem_cons, List.not_mem_nil, or_false] at hitem
  rcases hitem with rfl | rfl
  · exact ⟨List.nodup_singleton _, trivial, trivial⟩
  · exact ⟨List.nodup_singleton _, trivial, trivial⟩

theorem load_pens :
    Collection.load penService.store penService.library "/api/pens" = .ok penCollection := by
  have hreadable : Collection.AreReadable pens := by decide +kernel
  have hresolve : Location.resolve penService.store penService.library.base "/api/pens" =
      some penCollection.filePath := by decide +kernel
  exact Collection.load_eq_of_text hresolve rfl wellFormed_pens hreadable

/-- The header of a body that is a document. -/
def jsonHeader : String × String := ("content-type", "application/json")

/-- Asks for a new item. -/
def postPen : ItemRequest "/api/pens" where
  request := ⟨.post, "/api/pens", [jsonHeader], "\x7b\"ink\":\"blue\"\x7d"⟩
  id? := none
  target_eq := by decide +kernel
  method_mem := by decide
  readable := by decide +kernel

/-- Replaces an item. -/
def putPen : ItemRequest "/api/pens" where
  request := ⟨.put, "/api/pens/3", [jsonHeader], "\x7b\"ink\":\"red\"\x7d"⟩
  id? := some 3
  target_eq := by decide +kernel
  method_mem := by decide
  readable := by decide +kernel

/-- Deletes the new item. -/
def deletePen : ItemRequest "/api/pens" where
  request := ⟨.delete, "/api/pens/8", [], ""⟩
  id? := some 8
  target_eq := by decide +kernel
  method_mem := by decide
  readable := by decide +kernel

/-- Asks for the item that was deleted. -/
def getPen : ItemRequest "/api/pens" where
  request := ⟨.get, "/api/pens/8", [], ""⟩
  id? := some 8
  target_eq := by decide +kernel
  method_mem := by decide
  readable := by decide +kernel

/-- The new item gets the id after the text that counts as `7`, and is gone in the end. -/
theorem status_penRequests :
    (penService.handleAll ([postPen, putPen, deletePen, getPen].map ItemRequest.request)).2.map
      Response.status = [201, 200, 200, 404] := by
  have hdistinct : (penCollection.items.filterMap Item.id?).Nodup := by decide +kernel
  have hwrites := Service.writesSucceed_of_enabled (s := penService) rfl penCollection.filePath
    ([postPen, putPen, deletePen, getPen].map ItemRequest.request)
  have hanswers := Service.handleAll_itemRequests load_pens hdistinct _ hwrites
  rw [hanswers.1]
  decide +kernel

end JsonCollections.Http
