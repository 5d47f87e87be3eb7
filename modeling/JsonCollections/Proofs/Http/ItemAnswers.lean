import JsonCollections.Proofs.Collection.ItemMap
import JsonCollections.Proofs.Http.Service
import JsonCollections.Proofs.Json.Answers

set_option autoImplicit false

/-!
# Requests on items and the answers of a map

`ItemRequest` is a request on a collection or one of its items, and `ItemMap.answer` says what a map
from ids to items makes of it, with nothing loaded or stored.

A request on an item touches that item and no other, with an id or without (`remove_answer`), a
request on the collection adds at the end only (`prefix_answer`), and a request that is refused
changes nothing (`answer_error`).  What was put or posted is found and what was deleted is not
(`answer_get_put`, `answer_get_post`, `answer_get_delete`).
-/

namespace JsonCollections.Http

/-! ## Requests on items -/

/-- The target of an item, or of the collection itself. -/
def Target.under (urlPath : String) : Option ItemId → Target
  | some id => .item urlPath id
  | none => .collection urlPath

/-- A request on a collection or one of its items, by one of four methods.  An object in its body is
nested no deeper than an item may be. -/
structure ItemRequest (urlPath : String) where
  request : Request
  id? : Option ItemId
  target_eq : request.target? = some (.under urlPath id?)
  method_mem : request.method ∈ [Method.get, .post, .put, .delete]
  readable : ∀ body, Command.objectOf request = .ok body → body.Readable

end JsonCollections.Http

namespace JsonCollections.ItemMap

/-! ## Answers of a map -/

open Http

variable {urlPath : String}

/-- The map after a request, and what is answered. -/
def answer (maxItems : Nat) (m : ItemMap) (r : ItemRequest urlPath) :
    ItemMap × Except Failure Reply :=
  match r.request.method, r.id? with
  | .get, none =>
    if r.request.queryString = "" then (m, .ok ⟨200, .array (m.items.map .object)⟩)
    else
      match Query.ofQueryString r.request.queryString with
      | .error e => (m, .error (.ofQueryError e))
      | .ok q => (m, .ok ⟨200, .array ((q.run m.items).map .object)⟩)
  | .get, some k =>
    match m.lookup k with
    | none => (m, .error (.noItem urlPath k))
    | some item => (m, .ok ⟨200, .object item⟩)
  | .post, none =>
    match Command.objectOf r.request with
    | .error fault => (m, .error (.ofBodyFault fault))
    | .ok body =>
      if (body.get? Item.idKey).isSome then (m, .error (.ofWriteError urlPath .extraId))
      else if maxItems ≤ m.items.length then
        (m, .error (.ofWriteError urlPath (.maxItems maxItems)))
      else if m.nextId < ItemId.bound then
        let id := Json.number (.ofNat m.nextId)
        (m.append m.nextId ((Item.idKey, id) :: body), .ok ⟨201, .object [("insertedId", id)]⟩)
      else (m, .error (.ofWriteError urlPath .idExhausted))
  | .put, some k =>
    match Command.objectOf r.request with
    | .error fault => (m, .error (.ofBodyFault fault))
    | .ok body =>
      match m.lookup k with
      | none => (m, .error (.noItem urlPath k))
      | some _ => (m.replace k (body.withId k), .ok ⟨200, .object (body.withId k)⟩)
  | .delete, some k =>
    match m.lookup k with
    | none => (m, .error (.noItem urlPath k))
    | some _ => (m.remove k, .ok ⟨200, .object [("deletedId", .number (.ofNat k))]⟩)
  | _, _ => (m, .error .methodNotAllowed)

/-- The map after a request, and the response. -/
def handle (maxItems : Nat) (m : ItemMap) (r : ItemRequest urlPath) : ItemMap × Response :=
  let (m, result) := m.answer maxItems r
  (m, (Service.respond result).withHeader "access-control-allow-origin" "*")

/-- The map after requests in order, and the responses. -/
def handleAll (maxItems : Nat) (m : ItemMap) : List (ItemRequest urlPath) → ItemMap × List Response
  | [] => (m, [])
  | r :: rest =>
    let (m, response) := m.handle maxItems r
    let (m, responses) := m.handleAll maxItems rest
    (m, response :: responses)

/-! ## What a request leaves alone -/

/-- What a request does to the map: nothing, or one of three changes. -/
inductive Answered (m : ItemMap) (r : ItemRequest urlPath) : ItemMap × Except Failure Reply → Prop
    where
  | refused (failure : Failure) : Answered m r (m, .error failure)
  | looked (reply : Reply) : Answered m r (m, .ok reply)
  | appended {item : Item} {reply : Reply} (hid : r.id? = none) :
      Answered m r (m.append m.nextId item, .ok reply)
  | replaced {k : ItemId} {old item : Item} {reply : Reply} (hid : r.id? = some k)
      (hold : m.lookup k = some old) : Answered m r (m.replace k item, .ok reply)
  | removed {k : ItemId} {old : Item} {reply : Reply} (hid : r.id? = some k)
      (hold : m.lookup k = some old) : Answered m r (m.remove k, .ok reply)

theorem answered (maxItems : Nat) (m : ItemMap) (r : ItemRequest urlPath) :
    Answered m r (m.answer maxItems r) := by
  unfold answer
  split
  · split
    · exact .looked _
    · split
      · exact .refused _
      · exact .looked _
  · split
    · exact .refused _
    · exact .looked _
  · rename_i hid
    split
    · exact .refused _
    · split
      · exact .refused _
      · split
        · exact .refused _
        · split
          · exact .appended hid
          · exact .refused _
  · rename_i k hmethod hid
    split
    · exact .refused _
    · split
      · exact .refused _
      · rename_i old hold
        exact .replaced hid hold
  · rename_i k hmethod hid
    split
    · exact .refused _
    · rename_i old hold
      exact .removed hid hold
  · exact .refused _

/-- A request that is refused changes nothing. -/
theorem answer_error {maxItems : Nat} {m : ItemMap} {r : ItemRequest urlPath} {failure : Failure}
    (h : (m.answer maxItems r).2 = .error failure) : (m.answer maxItems r).1 = m := by
  have hanswered := answered maxItems m r
  generalize m.answer maxItems r = after at h hanswered
  cases hanswered with
  | refused | looked => rfl
  | appended | replaced | removed => cases h

/-- A request on an item leaves every other item as it is and in its order, with an id or without. -/
theorem remove_answer (maxItems : Nat) (m : ItemMap) {r : ItemRequest urlPath} {k : ItemId}
    (hid : r.id? = some k) : (m.answer maxItems r).1.remove k = m.remove k := by
  have hanswered := answered maxItems m r
  generalize m.answer maxItems r = after at hanswered
  cases hanswered with
  | refused | looked => rfl
  | appended hnone =>
    rw [hid] at hnone
    cases hnone
  | replaced hsome =>
    obtain rfl := Option.some.inj (hid.symm.trans hsome)
    exact remove_replace m k _
  | removed hsome =>
    obtain rfl := Option.some.inj (hid.symm.trans hsome)
    exact remove_remove m k

/-- A request on the collection leaves the items that are there as they are. -/
theorem prefix_answer (maxItems : Nat) (m : ItemMap) {r : ItemRequest urlPath}
    (hid : r.id? = none) : m.entries <+: (m.answer maxItems r).1.entries := by
  have hanswered := answered maxItems m r
  generalize m.answer maxItems r = after at hanswered
  cases hanswered with
  | refused | looked => exact List.prefix_refl _
  | appended => exact List.prefix_append _ _
  | replaced hsome | removed hsome =>
    rw [hid] at hsome
    cases hsome

/-- What is under an id after a request on another item is what was there before. -/
theorem lookup_answer_of_ne (maxItems : Nat) (m : ItemMap) {r : ItemRequest urlPath} {k j : ItemId}
    (hid : r.id? = some k) (hj : j ≠ k) : (m.answer maxItems r).1.lookup j = m.lookup j := by
  have hother : ∀ m' : ItemMap, (m'.remove k).lookup j = m'.lookup j := by
    intro m'
    rw [lookup_remove, if_neg hj]
  rw [← hother, remove_answer maxItems m hid, hother]

/-! ## What a request finds after a change -/

theorem answer_get {g : ItemRequest urlPath} (hget : g.request.method = .get) {k : ItemId}
    (hid : g.id? = some k) (maxItems : Nat) (m : ItemMap) : (m.answer maxItems g).2 =
      match m.lookup k with
      | none => .error (.noItem urlPath k)
      | some item => .ok ⟨200, .object item⟩ := by
  unfold answer
  simp only [hget, hid]
  cases m.lookup k <;> rfl

/-- What was put is found. -/
theorem answer_get_put {r g : ItemRequest urlPath} (hput : r.request.method = .put)
    (hget : g.request.method = .get) {k : ItemId} (hr : r.id? = some k) (hg : g.id? = some k)
    {maxItems : Nat} {m : ItemMap} {reply : Reply} (h : (m.answer maxItems r).2 = .ok reply) :
    ((m.answer maxItems r).1.answer maxItems g).2 = .ok reply := by
  rw [answer_get hget hg]
  unfold answer at h ⊢
  simp only [hput, hr] at h ⊢
  cases hbody : Command.objectOf r.request with
  | error fault =>
    rw [hbody] at h
    cases h
  | ok body =>
    cases hold : m.lookup k with
    | none =>
      simp only [hbody, hold] at h
      cases h
    | some old =>
      simp only [hbody, hold] at h
      cases h
      simp only [lookup_replace, hold, if_true, Option.map_some]

/-- What was deleted is not found. -/
theorem answer_get_delete {r g : ItemRequest urlPath} (hdelete : r.request.method = .delete)
    (hget : g.request.method = .get) {k : ItemId} (hr : r.id? = some k) (hg : g.id? = some k)
    {maxItems : Nat} {m : ItemMap} {reply : Reply} (h : (m.answer maxItems r).2 = .ok reply) :
    ((m.answer maxItems r).1.answer maxItems g).2 = .error (.noItem urlPath k) := by
  rw [answer_get hget hg]
  unfold answer at h ⊢
  simp only [hdelete, hr] at h ⊢
  cases hold : m.lookup k with
  | none =>
    rw [hold] at h
    cases h
  | some old => simp only [lookup_remove, if_true]

/-- What was posted is found under the id that was answered. -/
theorem answer_get_post {r g : ItemRequest urlPath} (hpost : r.request.method = .post)
    (hget : g.request.method = .get) {m : ItemMap} (hm : m.Keyed) (hr : r.id? = none)
    (hg : g.id? = some m.nextId) {body : Item} (hbody : Command.objectOf r.request = .ok body)
    {maxItems : Nat} {reply : Reply} (h : (m.answer maxItems r).2 = .ok reply) :
    ((m.answer maxItems r).1.answer maxItems g).2 =
      .ok ⟨200, .object ((Item.idKey, .number (.ofNat m.nextId)) :: body)⟩ := by
  rw [answer_get hget hg]
  unfold answer at h ⊢
  simp only [hpost, hr, hbody] at h ⊢
  split at h
  · cases h
  · split at h
    · cases h
    · split at h
      · rename_i hfree hroom hbound
        simp only [if_neg hfree, if_neg hroom, if_pos hbound,
          lookup_append hm.nextId_not_mem_keys, if_true]
      · cases h

end JsonCollections.ItemMap

namespace JsonCollections.Http

/-! ## Commands of requests on items -/

theorem ItemRequest.lt_bound {urlPath : String} (r : ItemRequest urlPath) {k : ItemId}
    (h : r.id? = some k) : k < ItemId.bound := by
  obtain ⟨path, decoded, -, -, htarget⟩ := Request.target?_eq_some r.target_eq
  rw [h] at htarget
  exact Target.lt_bound htarget

/-- No key is there twice in a body. -/
theorem Command.wellFormed_of_objectOf {r : Request} {body : Item}
    (h : Command.objectOf r = .ok body) : body.WellFormed := by
  obtain ⟨text, -, h⟩ := bind_eq_ok h
  split at h
  · rename_i fields hread
    cases h
    exact (Json.fits_of_readLeading hread).1
  · cases h
  · cases h

end JsonCollections.Http
