import JsonCollections.Proofs.Collection.Ids
import JsonCollections.Proofs.Http.ItemAnswers
import JsonCollections.Proofs.Storage.Places

set_option autoImplicit false

/-!
# Responses tell the truth about files

A request that is refused leaves every file as it was, whatever refuses it: its path, its method,
its body, the file of the collection or the store.  A request that reads changes nothing.  A change
that is reported was made: the file of the collection holds the items that were loaded with one
change, which `Changes` describes, and all other files are as they were.

`Service.Truthful` says so of a response, and `truthful_handle` that it holds of every request to a
service with files in memory or on a disk, be it that writes succeed or fail.
-/

namespace JsonCollections.Http

/-! ## What a request may change -/

/-- The method asks for a change. -/
def Method.changes : Method → Bool
  | .post | .put | .patch | .delete => true
  | .get | .head | .options | .other => false

/-- The collection that a target is, or that it is in. -/
def Target.collectionPath : Target → String
  | .collection urlPath | .item urlPath _ => urlPath

/-- Only resources take changes. -/
theorem Route.exists_resource {route : Route} {method : Method} (h : route.takes method = true)
    (hchanges : method.changes = true) : ∃ path, route = .resource path := by
  cases route with
  | resource path => exact ⟨path, rfl⟩
  | health | counters | listing | assets path =>
    cases method with
    | get | head | options | other => cases hchanges
    | post | put | patch | delete => cases h

/-- The response is that of a request that succeeded. -/
def Response.Succeeds (r : Response) : Prop := 200 ≤ r.status ∧ r.status < 300

theorem Response.not_succeeds {r : Response} (h : 300 ≤ r.status) : ¬ r.Succeeds :=
  fun hsucceeds => Nat.not_lt.mpr h hsucceeds.2

/-- The one change that a request makes of the items of a collection that is loaded: the items after
it, and the data that are answered. -/
inductive Changes (r : Request) (c : Collection) : Target → List Item → Json → Prop where
  | inserted {urlPath : String} {body : Item} {id : ItemId} (hmethod : r.method = .post)
      (hbody : Command.objectOf r = .ok body) (hfree : body.get? Item.idKey = none)
      (hroom : c.items.length < c.maxItems)
      (hid : Collection.nextId? (Collection.greatestId c.items) = some id) :
      Changes r c (.collection urlPath) (c.items ++ [(Item.idKey, .number (.ofNat id)) :: body])
        (.object [("insertedId", .number (.ofNat id))])
  | updated {urlPath : String} {id : ItemId} {body old : Item} {before after : List Item}
      (hmethod : r.method = .put) (hbody : Command.objectOf r = .ok body)
      (hold : c.FirstAt id before old after) :
      Changes r c (.item urlPath id) (before ++ body.withId id :: after)
        (.object (body.withId id))
  | patched {urlPath : String} {id : ItemId} {patch : Json.Patch} {old item : Item}
      {before after : List Item} (hmethod : r.method = .patch)
      (hbody : Command.patchOf r = .ok patch) (hold : c.FirstAt id before old after)
      (hpatch : patch.run (.object old) = .ok (.object item)) :
      Changes r c (.item urlPath id) (before ++ item :: after) (.object item)
  | deleted {urlPath : String} {id : ItemId} {old : Item} {before after : List Item}
      (hmethod : r.method = .delete) (hold : c.FirstAt id before old after) :
      Changes r c (.item urlPath id) (before ++ after)
        (.object [("deletedId", .number (.ofNat id))])

theorem Changes.method {r : Request} {c : Collection} {target : Target} {items : List Item}
    {data : Json} (h : Changes r c target items data) : r.method.changes = true := by
  cases h with
  | inserted hmethod | updated hmethod | patched hmethod | deleted hmethod =>
    rw [hmethod]
    rfl

/-! ## Commands -/

namespace Command

/-- The change that a request asks for. -/
inductive Asks (r : Request) : Target → Mutation → Prop where
  | insert {urlPath : String} {body : Item} (hmethod : r.method = .post)
      (hbody : objectOf r = .ok body) : Asks r (.collection urlPath) (.insert body)
  | update {urlPath : String} {id : ItemId} {body : Item} (hmethod : r.method = .put)
      (hbody : objectOf r = .ok body) : Asks r (.item urlPath id) (.update id body)
  | patch {urlPath : String} {id : ItemId} {patch : Json.Patch} (hmethod : r.method = .patch)
      (hbody : patchOf r = .ok patch) : Asks r (.item urlPath id) (.patch id patch)
  | delete {urlPath : String} {id : ItemId} (hmethod : r.method = .delete) :
      Asks r (.item urlPath id) (.delete id)

/-- What a request on a target is read as. -/
inductive Directed (r : Request) (target : Target) : Except Failure Command → Prop where
  | refused {failure : Failure} (hfails : 400 ≤ failure.status) : Directed r target (.error failure)
  | query {urlPath : String} {q : Query} (hmethod : r.method.changes = false) :
      Directed r target (.ok (.query urlPath q))
  | find {urlPath : String} {id : ItemId} (hmethod : r.method.changes = false) :
      Directed r target (.ok (.find urlPath id))
  | mutate {m : Mutation} (hasks : Asks r target m) :
      Directed r target (.ok (.mutate target.collectionPath m))

theorem directed (r : Request) (target : Target) : Directed r target (ofTarget r target) := by
  have hbodyFault : ∀ fault : BodyFault, 400 ≤ (Failure.ofBodyFault fault).status :=
    fun _ => Nat.le_refl _
  have hreads : ∀ {method : Method}, r.method = method → method.changes = false →
      r.method.changes = false := fun hmethod hreads => hmethod ▸ hreads
  unfold ofTarget
  split
  · rename_i urlPath hmethod
    cases hbody : objectOf r with
    | error fault => exact .refused (hbodyFault fault)
    | ok body => exact @Directed.mutate r (.collection urlPath) _ (.insert hmethod hbody)
  · rename_i urlPath id hmethod
    cases hbody : objectOf r with
    | error fault => exact .refused (hbodyFault fault)
    | ok body => exact @Directed.mutate r (.item urlPath id) _ (.update hmethod hbody)
  · rename_i urlPath id hmethod
    cases hbody : patchOf r with
    | error fault => exact .refused (hbodyFault fault)
    | ok patch => exact @Directed.mutate r (.item urlPath id) _ (.patch hmethod hbody)
  · rename_i urlPath id hmethod
    exact @Directed.mutate r (.item urlPath id) _ (.delete hmethod)
  · rename_i hmethod
    cases Query.ofQueryString r.queryString with
    | error e => exact .refused (Nat.le_refl 400)
    | ok q => exact .query (hreads hmethod rfl)
  · rename_i hmethod
    cases Query.ofQueryString r.queryString with
    | error e => exact .refused (Nat.le_refl 400)
    | ok q => exact .query (hreads hmethod rfl)
  · rename_i hmethod
    exact .find (hreads hmethod rfl)
  · rename_i hmethod
    exact .find (hreads hmethod rfl)
  · exact .refused (by decide)

end Command

/-- A change that can be made is the one that the request describes, and its item or id is answered. -/
theorem Command.Asks.changes {r : Request} {target : Target} {m : Mutation} (h : Asks r target m)
    {c d : Collection} {item : Item} (hlast : c.lastId = Collection.greatestId c.items)
    (happlied : Collection.Applied c m d item) :
    Changes r c target d.items (Reply.ofMutation m item).data := by
  cases h with
  | insert hmethod hbody =>
    cases happlied with
    | insert hfree hroom hid =>
      rename_i id
      have hnew := Item.leadingId_eq (wellFormed_of_objectOf hbody) hfree id
      rw [hlast] at hid
      simp only [hnew]
      exact .inserted hmethod hbody hfree hroom hid
  | update hmethod hbody =>
    cases happlied with
    | update hplace =>
      obtain ⟨before, old, after, hfirst, -, hset, -⟩ := Collection.exists_firstAt hplace
      simp only [hset]
      exact .updated hmethod hbody hfirst
  | patch hmethod hbody =>
    cases happlied with
    | patch hplace hold hrun =>
      obtain ⟨before, found, after, hfirst, hfound, hset, -⟩ := Collection.exists_firstAt hplace
      rw [Collection.getElem?_of_find? hplace hold] at hfound
      cases hfound
      simp only [hset]
      exact .patched hmethod hbody hfirst hrun
  | delete hmethod =>
    cases happlied with
    | delete hplace hold =>
      obtain ⟨before, found, after, hfirst, -, -, herase⟩ := Collection.exists_firstAt hplace
      simp only [herase]
      exact .deleted hmethod hfirst

namespace Service

variable {σ : Type} [Storage σ]

/-! ## Requests -/

theorem le_status_notFound (message : String) : 400 ≤ (Failure.notFound message).status :=
  Nat.le_of_ble_eq_true rfl

theorem le_status_ofLoadError (urlPath : String) (e : LoadError) :
    400 ≤ (Failure.ofLoadError urlPath e).status := by
  cases e <;> exact Nat.le_of_ble_eq_true rfl

theorem le_status_ofWriteError (urlPath : String) (e : WriteError) :
    400 ≤ (Failure.ofWriteError urlPath e).status := by
  cases e <;> exact Nat.le_of_ble_eq_true rfl

theorem status_ofMutation (m : Mutation) (item : Item) :
    200 ≤ (Reply.ofMutation m item).status ∧ (Reply.ofMutation m item).status < 300 := by
  cases m <;> exact ⟨Nat.le_of_ble_eq_true rfl, Nat.lt_of_lt_of_le (Nat.lt_succ_self _)
    (Nat.le_of_ble_eq_true rfl)⟩

/-- How a request on a path below `/api/` ends: it is refused before anything is stored, or it reads,
or a change is made, and then the write fails or succeeds. -/
inductive Performed (s : Service σ) (r : Request) (target? : Option Target) :
    Service σ × Except Failure Reply → Prop where
  | refused {failure : Failure} (hfails : 400 ≤ failure.status) :
      Performed s r target? (s, .error failure)
  | looked {reply : Reply} (hmethod : r.method.changes = false) :
      Performed s r target? (s, .ok reply)
  | unstored {target : Target} {c : Collection} {items : List Item} {data : Json} {store : σ}
      {fault : WriteFault} {failure : Failure} (htarget : target? = some target)
      (hload : Collection.load s.store s.library target.collectionPath = .ok c)
      (hchanges : Changes r c target items data)
      (hwrite : Storage.write s.store c.filePath (Collection.textOfItems items) =
        (store, .error fault)) (hfails : 400 ≤ failure.status) :
      Performed s r target? ({ s with store }, .error failure)
  | stored {target : Target} {c : Collection} {items : List Item} {store : σ} {reply : Reply}
      (hsucceeds : 200 ≤ reply.status ∧ reply.status < 300) (htarget : target? = some target)
      (hload : Collection.load s.store s.library target.collectionPath = .ok c)
      (hchanges : Changes r c target items reply.data)
      (hwrite : Storage.write s.store c.filePath (Collection.textOfItems items) = (store, .ok ())) :
      Performed s r target? ({ s with store }, .ok reply)

theorem performed_mutate (s : Service σ) {r : Request} {target : Target} {m : Mutation}
    (hasks : Command.Asks r target m) :
    Performed s r (some target) (s.execute (.mutate target.collectionPath m)) := by
  cases hload : Collection.load s.store s.library target.collectionPath with
  | error e =>
    simp only [execute, hload]
    exact .refused (le_status_ofLoadError _ e)
  | ok c =>
    have hmutated := Collection.mutated c s.store m
    simp only [execute, hload]
    generalize c.mutate s.store m = after at hmutated
    have hlast := Collection.lastId_of_load hload
    cases hmutated with
    | refused error => exact .refused (le_status_ofWriteError _ error)
    | stored happlied hwrite =>
      exact .stored (status_ofMutation m _) rfl hload (hasks.changes hlast happlied) hwrite
    | unstored happlied hwrite =>
      exact .unstored rfl hload (hasks.changes hlast happlied) hwrite (le_status_ofWriteError _ _)

theorem performed (s : Service σ) (r : Request) (path : String) :
    Performed s r (Target.ofText? path) (s.perform (Command.ofRequest r path)) := by
  cases htarget : Target.ofText? path with
  | none =>
    simp only [Command.ofRequest, htarget, perform]
    exact .refused (le_status_notFound _)
  | some target =>
    have hdirected := Command.directed r target
    simp only [Command.ofRequest, htarget]
    generalize Command.ofTarget r target = command at hdirected
    cases hdirected with
    | refused hfails => exact .refused hfails
    | query hmethod =>
      simp only [perform, execute]
      split
      · exact .looked hmethod
      · exact .refused (le_status_ofLoadError _ _)
    | find hmethod =>
      simp only [perform, execute]
      split
      · split
        · exact .looked hmethod
        · exact .refused (le_status_notFound _)
      · exact .refused (le_status_ofLoadError _ _)
    | mutate hasks => exact performed_mutate s hasks

/-- How a request ends: it is answered without a look at a collection, or it is performed. -/
inductive Handled (s : Service σ) (r : Request) : Service σ × Response → Prop where
  | aside {after : Service σ} {response : Response} (hstore : after.store = s.store)
      (hfails : r.method.changes = true → ¬ response.Succeeds) : Handled s r (after, response)
  | performed {path : String} {counters : Counters} {response : Response}
      (htarget : r.target? = Target.ofText? path)
      (hstatus : response.status =
        (respond (s.perform (Command.ofRequest r path)).2).status)
      (hbody : r.method.changes = true → response.body =
        (respond (s.perform (Command.ofRequest r path)).2).body) :
      Handled s r ({ (s.perform (Command.ofRequest r path)).1 with counters }, response)

theorem handled (s : Service σ) (r : Request) : Handled s r (s.handle r) := by
  have hstatus : ∀ response : Response,
      (if r.method = .head then response.withoutBody else response).status = response.status := by
    intro response
    split <;> rfl
  have hbody : ∀ response : Response, r.method.changes = true →
      (if r.method = .head then response.withoutBody else response).body = response.body := by
    intro response hchanges
    split
    · rename_i hhead
      rw [hhead] at hchanges
      cases hchanges
    · rfl
  -- whoever is answered aside did not ask for a change, or is told that it failed
  have haside : ∀ (after : Service σ) (response : Response), after.store = s.store →
      (r.method.changes = true → ¬ response.Succeeds) →
      Handled s r (after, if r.method = .head then response.withoutBody else response) := by
    intro after response hstore hfails
    refine .aside hstore fun hchanges => ?_
    rw [Response.Succeeds, hstatus]
    exact hfails hchanges
  simp only [handle]
  split
  · rename_i hmethod
    refine haside s _ rfl fun hchanges => ?_
    rw [hmethod] at hchanges
    cases hchanges
  · exact haside s _ rfl fun _ => Response.not_succeeds (Nat.le_of_ble_eq_true rfl)
  · rename_i route hroute _
    split
    · rename_i htakes
      cases route with
      | health | counters | listing | assets path =>
        refine haside _ _ rfl fun hchanges => ?_
        obtain ⟨path, hpath⟩ := Route.exists_resource htakes hchanges
        cases hpath
      | resource path =>
        simp only [answerRoute]
        split
        · rename_i decoded hdecoded
          obtain ⟨counters, hanswer⟩ := answerResource_eq s r (String.ofList decoded)
          rw [hanswer]
          refine .performed ?_ ?_ ?_
          · rw [Request.target?, hroute]
            simp only [hdecoded, Option.bind_some]
          · exact hstatus _
          · exact hbody _
        · exact haside s _ rfl fun _ => Response.not_succeeds (Nat.le_of_ble_eq_true rfl)
    · exact haside s _ rfl fun _ => Response.not_succeeds (Nat.le_of_ble_eq_true rfl)

/-! ## What responses tell -/

open Storage.Places

variable [Storage.Places σ]

/-- The place of the file of the collection that a request addresses. -/
def place? (s : Service σ) (r : Request) : Option (Place σ) := do
  let target ← r.target?
  let file ← Location.resolve s.store s.library.base target.collectionPath
  Storage.Places.place? s.store file

/-- A change was made of a collection that was loaded, and it was stored: what the file of the
collection held and holds, what other files hold, and what is answered. -/
structure Stored (s : Service σ) (r : Request) (after : Service σ × Response) (target : Target)
    (c : Collection) (items : List Item) (data : Json) (place : Place σ) : Prop where
  target_eq : r.target? = some target
  load_eq : Collection.load s.store s.library target.collectionPath = .ok c
  place_eq : s.place? r = some place
  changes : Changes r c target items data
  held : ∃ content text, content? s.store place = some content ∧
    String.fromUTF8? content = some text ∧ Collection.itemsOfText text = .ok c.items
  holds : content? after.1.store place = some (Collection.textOfItems items).toUTF8
  others : ∀ q, q ≠ place → hidden? place ≠ some q →
    content? after.1.store q = content? s.store q
  body_eq : after.2.body = .json (.object [("data", data)])

/-- What the response to a request tells about files is true. -/
structure Truthful (s : Service σ) (r : Request) : Prop where
  /-- after a request that failed all files are as they were -/
  unchanged : ¬ (s.handle r).2.Succeeds →
    ∀ q, (∀ place, s.place? r = some place → hidden? place ≠ some q) →
      content? (s.handle r).1.store q = content? s.store q
  /-- a request that asks for no change makes none -/
  looks : r.method.changes = false → (s.handle r).1.store = s.store
  /-- a change that is reported was stored -/
  changed : r.method.changes = true → (s.handle r).2.Succeeds →
    ∃ target c items data place, s.Stored r (s.handle r) target c items data place

theorem place?_eq {s : Service σ} {r : Request} {target : Target} {c : Collection}
    (htarget : r.target? = some target)
    (hload : Collection.load s.store s.library target.collectionPath = .ok c) :
    s.place? r = Storage.Places.place? s.store c.filePath := by
  obtain ⟨text, hresolve, -⟩ := Collection.load_eq_ok hload
  unfold place?
  rw [htarget]
  simp only [Option.bind_some, hresolve, bind]

theorem not_succeeds_of_error {failure : Failure} (h : 400 ≤ failure.status) :
    ¬ (respond (.error failure)).Succeeds :=
  Response.not_succeeds (Nat.le_trans (Nat.le_of_ble_eq_true rfl) h)

variable {s : Service σ} {r : Request} {after : Service σ × Response}

theorem Handled.unchanged (h : s.Handled r after) (hfails : ¬ after.2.Succeeds) (q : Place σ)
    (hq : ∀ place, s.place? r = some place → hidden? place ≠ some q) :
    content? after.1.store q = content? s.store q := by
  cases h with
  | aside hstore => rw [hstore]
  | @performed path counters response htarget hstatus =>
    have hperformed := Service.performed s r path
    rw [← htarget] at hperformed
    rw [Response.Succeeds, hstatus] at hfails
    generalize s.perform (Command.ofRequest r path) = result at hperformed hfails
    cases hperformed with
    | refused | looked => rfl
    | unstored htarget hload _ hwrite =>
      exact content?_of_failed hwrite q fun place hplace =>
        hq place ((place?_eq htarget hload).trans hplace)
    | stored hsucceeds => exact absurd hsucceeds hfails

omit [Storage.Places σ] in
theorem Handled.looks (h : s.Handled r after) (hmethod : r.method.changes = false) :
    after.1.store = s.store := by
  cases h with
  | aside hstore => exact hstore
  | @performed path counters response htarget =>
    have hperformed := Service.performed s r path
    generalize s.perform (Command.ofRequest r path) = result at hperformed
    cases hperformed with
    | refused | looked => rfl
    | unstored _ _ hchanges | stored _ _ _ hchanges =>
      rw [hchanges.method] at hmethod
      cases hmethod

theorem Handled.changed (h : s.Handled r after) (hmethod : r.method.changes = true)
    (hsucceeds : after.2.Succeeds) :
    ∃ target c items data place, s.Stored r after target c items data place := by
  cases h with
  | aside _ hfails => exact absurd hsucceeds (hfails hmethod)
  | @performed path counters response htarget hstatus hbody =>
    have hperformed := Service.performed s r path
    have hbody := hbody hmethod
    rw [← htarget] at hperformed
    rw [Response.Succeeds, hstatus] at hsucceeds
    generalize s.perform (Command.ofRequest r path) = result at hperformed hsucceeds hbody
    cases hperformed with
    | refused hfails => exact absurd hsucceeds (not_succeeds_of_error hfails)
    | looked hlooks =>
      rw [hmethod] at hlooks
      cases hlooks
    | unstored _ _ _ _ hfails => exact absurd hsucceeds (not_succeeds_of_error hfails)
    | stored _ htarget hload hchanges hwrite =>
      obtain ⟨text, -, hread, hitems, -⟩ := Collection.load_eq_ok hload
      obtain ⟨place, content, hplace, hcontent, htext⟩ := content?_of_read hread
      obtain ⟨written, hwritten, hafter, hothers⟩ := content?_of_written hwrite
      obtain rfl := Option.some.inj (hplace.symm.trans hwritten)
      exact ⟨_, _, _, _, place, {
        target_eq := htarget
        load_eq := hload
        place_eq := (place?_eq htarget hload).trans hplace
        changes := hchanges
        held := ⟨content, text, hcontent, htext, hitems⟩
        holds := hafter
        others := hothers
        body_eq := hbody }⟩

/-- Whatever is asked, the response is truthful. -/
theorem truthful (s : Service σ) (r : Request) : s.Truthful r :=
  ⟨(handled s r).unchanged, (handled s r).looks, (handled s r).changed⟩

end Service

/-- The responses of a service with files in memory or on a disk are truthful, whatever its files are
and whatever is asked.  Writes may fail: in memory they can be switched off, and on a disk the system
may refuse any stages of them. -/
theorem truthful_handle :
    (∀ (s : Service Memory) (r : Request), s.Truthful r) ∧
      (∀ (s : Service Disk) (r : Request), s.Truthful r) ∧
      ∀ (s : Service FaultyDisk) (r : Request), s.Truthful r :=
  ⟨Service.truthful, Service.truthful, Service.truthful⟩

end JsonCollections.Http
