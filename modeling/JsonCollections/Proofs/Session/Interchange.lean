import JsonCollections.Proofs.Collection.Served
import JsonCollections.Proofs.Session.Steps

set_option autoImplicit false

/-!
# A session in memory and one on a disk

Clients ask a session for collections, look at what they hold and change it.  A session in memory
that mirrors a stocked disk is *paired* with the session on that disk that has the same locks and
slots.  Whatever a client asks, both give the same answer and stay paired (`Paired.serve`), so they
do for all that clients ask one after the other (`interchangeable`).
-/

namespace JsonCollections.Session

open Location (Served Filed)

/-! ## Requests -/

/-- What a client asks. -/
inductive Request where
  | load (urlPath : String)
  | loadForWrite (urlPath : String)
  | poll
  | drop
  | state
  | items
  | find (id : ItemId)
  | query (q : Query)
  | change (m : Mutation)

/-- What a client is answered; `none` if it does not wait, or holds no collection. -/
inductive Answer where
  | outcome (outcome? : Option LoadOutcome)
  | dropped
  | state (collection? : Option Collection)
  | items (items? : Option (List Item))
  | found (item? : Option (Option Item))
  | changed (result? : Option (Except WriteError Item))

section

variable {σ : Type}

/-- The collection that a client holds. -/
def held? (s : Session σ) (client : String) : Option Collection :=
  match s.slot? client with
  | some (.holding c _) => some c
  | _ => none

variable [Storage σ]

/-- The session after a request, and the answer. -/
def serve (s : Session σ) (client : String) : Request → Session σ × Answer
  | .load urlPath => ((s.load client urlPath).1, .outcome (some (s.load client urlPath).2))
  | .loadForWrite urlPath =>
    ((s.loadForWrite client urlPath).1, .outcome (some (s.loadForWrite client urlPath).2))
  | .poll => ((s.poll client).1, .outcome (s.poll client).2)
  | .drop => (s.drop client, .dropped)
  | .state => (s, .state (s.held? client))
  | .items => (s, .items ((s.held? client).map (·.items)))
  | .find id => (s, .found ((s.held? client).map (·.find? id)))
  | .query q => (s, .items ((s.held? client).map (·.query q)))
  | .change m => ((s.mutate client m).1, .changed (s.mutate client m).2)

/-- The session after requests in order, and the answers. -/
def serveAll (s : Session σ) : List (String × Request) → Session σ × List Answer
  | [] => (s, [])
  | (client, request) :: rest =>
    let (next, answer) := s.serve client request
    let (last, answers) := next.serveAll rest
    (last, answer :: answers)

theorem library_serve (s : Session σ) (client : String) (request : Request) :
    (s.serve client request).1.library = s.library := by
  cases request with
  | load urlPath => exact library_step s (.load client urlPath)
  | loadForWrite urlPath => exact library_step s (.loadForWrite client urlPath)
  | poll => exact library_step s (.poll client)
  | change m => exact library_step s (.mutate client m)
  | drop | state | items | find _ | query _ => rfl

theorem library_serveAll (s : Session σ) (requests : List (String × Request)) :
    (s.serveAll requests).1.library = s.library := by
  induction requests generalizing s with
  | nil => rfl
  | cons asked rest ih => exact (ih _).trans (library_serve s asked.1 asked.2)

/-- The URL path in a request is served. -/
def Request.Served (base : Path) : Request → Prop
  | .load urlPath | .loadForWrite urlPath => Location.Served base urlPath
  | .poll | .drop | .state | .items | .find _ | .query _ | .change _ => True

instance (base : Path) : DecidablePred (Request.Served base)
  | .load urlPath | .loadForWrite urlPath =>
    inferInstanceAs (Decidable (Location.Served base urlPath))
  | .poll | .drop | .state | .items | .find _ | .query _ | .change _ => .isTrue trivial

end

/-! ## Another store -/

section

variable {σ τ : Type}

/-- The session with another store. -/
def transfer (s : Session σ) (store : τ) : Session τ :=
  { store, library := s.library, locks := s.locks, slots := s.slots }

variable {s : Session σ} {store : τ} {client urlPath : String}

theorem store_transfer : (s.transfer store).store = store := rfl

theorem library_transfer : (s.transfer store).library = s.library := rfl

theorem locks_transfer : (s.transfer store).locks = s.locks := rfl

theorem drop_transfer : (s.transfer store).drop client = (s.drop client).transfer store := rfl

theorem store_drop : (s.drop client).store = s.store := rfl

theorem library_drop : (s.drop client).library = s.library := rfl

variable [Storage σ] [Storage τ]

theorem proceed_transfer (hload : Collection.load store s.library urlPath =
    Collection.load s.store s.library urlPath) (file : Path) :
    (s.transfer store).proceed client urlPath file =
      ((s.proceed client urlPath file).1.transfer store, (s.proceed client urlPath file).2) := by
  rw [proceed, proceed, locks_transfer, store_transfer, library_transfer, hload]
  by_cases howner : s.locks.owner? file = some client
  · rw [if_pos howner, if_pos howner]
    cases Collection.load s.store s.library urlPath <;> rfl
  · rw [if_neg howner, if_neg howner]

theorem load_transfer (hload : Collection.load store s.library urlPath =
    Collection.load s.store s.library urlPath) :
    (s.transfer store).load client urlPath =
      ((s.load client urlPath).1.transfer store, (s.load client urlPath).2) := by
  simp only [load, drop_transfer, store_transfer, library_transfer, library_drop, store_drop, hload]
  cases Collection.load s.store s.library urlPath <;> rfl

theorem loadForWrite_transfer (hload : Collection.load store s.library urlPath =
    Collection.load s.store s.library urlPath)
    (hresolve : Location.resolve store s.library.base urlPath =
      Location.resolve s.store s.library.base urlPath) :
    (s.transfer store).loadForWrite client urlPath =
      ((s.loadForWrite client urlPath).1.transfer store, (s.loadForWrite client urlPath).2) := by
  simp only [loadForWrite, drop_transfer, store_transfer, library_transfer, library_drop, store_drop,
    hresolve]
  cases Location.resolve s.store s.library.base urlPath with
  | none => rfl
  | some file => exact @proceed_transfer _ _ (s.enqueue client urlPath file) _ _ _ _ _ hload file

theorem poll_transfer (hload : ∀ urlPath file, s.slot? client = some (.waiting urlPath file) →
    Collection.load store s.library urlPath = Collection.load s.store s.library urlPath) :
    (s.transfer store).poll client =
      ((s.poll client).1.transfer store, (s.poll client).2) := by
  by_cases hwaiting : ∃ urlPath file, s.slot? client = some (.waiting urlPath file)
  · obtain ⟨urlPath, file, hslot⟩ := hwaiting
    have hsame : (s.transfer store).slot? client = some (.waiting urlPath file) := hslot
    rw [poll_waiting hslot, poll_waiting hsame, proceed_transfer (hload urlPath file hslot)]
  · have hnone : ∀ urlPath file, s.slot? client ≠ some (.waiting urlPath file) :=
      fun urlPath file hslot => hwaiting ⟨urlPath, file, hslot⟩
    have hsame : ∀ urlPath file, (s.transfer store).slot? client ≠ some (.waiting urlPath file) :=
      hnone
    rw [poll_not_waiting hnone, poll_not_waiting hsame]

end

/-! ## Paired sessions -/

/-- What a client holds has the file of a collection, and what it waits for is served. -/
def SlotServed (base : Path) (memory : Memory) : Slot → Prop
  | .waiting urlPath _ => Served base urlPath
  | .holding c _ => (∃ names, Filed base c.filePath names) ∧ (memory.get? c.filePath).isSome = true

theorem SlotServed.mono {base : Path} {memory memory' : Memory}
    (hstay : ∀ p, (memory.get? p).isSome = true → (memory'.get? p).isSome = true) {slot : Slot}
    (h : SlotServed base memory slot) : SlotServed base memory' slot := by
  cases slot with
  | waiting urlPath file => exact h
  | holding c lock => exact ⟨h.1, hstay _ h.2⟩

/-- The session in memory mirrors the one on a disk that has the same locks and slots. -/
structure Paired (s : Session Memory) (disk : Disk) (place : List String) : Prop where
  stocked : disk.Stocked s.library.base place
  mirrors : s.store.Mirrors disk s.library.base place
  slots : ∀ client slot, s.slot? client = some slot → SlotServed s.library.base s.store slot

namespace Paired

variable {s : Session Memory} {disk : Disk} {place : List String} {client urlPath : String}

theorem drop (h : s.Paired disk place) (client : String) : (s.drop client).Paired disk place :=
  ⟨h.stocked, h.mirrors, forall_slot_drop h.slots⟩

theorem withSlot (h : s.Paired disk place) {slot : Slot}
    (hslot : SlotServed s.library.base s.store slot) :
    (s.withSlot client slot).Paired disk place :=
  ⟨h.stocked, h.mirrors, forall_slot_withSlot (motive := fun _ => SlotServed _ _) hslot
    fun other old _ hold => h.slots other old hold⟩

theorem withLocks (h : s.Paired disk place) (locks : LockTable String) :
    ({ s with locks } : Session Memory).Paired disk place := ⟨h.stocked, h.mirrors, h.slots⟩

/-- Both stores may go on together. -/
theorem withStore (h : s.Paired disk place) {memory' : Memory} {disk' : Disk}
    (htogether : MoveTogether s.library.base place s.store disk memory' disk') :
    ({ s with store := memory' } : Session Memory).Paired disk' place :=
  ⟨htogether.stocked, htogether.mirrors,
    fun other slot hslot => (h.slots other slot hslot).mono htogether.files_stay⟩

theorem load_eq (h : s.Paired disk place) (hserved : Served s.library.base urlPath) :
    Collection.load disk s.library urlPath = Collection.load s.store s.library urlPath :=
  (Collection.load_eq_of_served h.stocked h.mirrors hserved).symm

theorem resolve_eq (h : s.Paired disk place) (hserved : Served s.library.base urlPath) :
    Location.resolve disk s.library.base urlPath =
      Location.resolve s.store s.library.base urlPath :=
  (hserved.resolve_eq h.stocked h.mirrors).symm

theorem load (h : s.Paired disk place) (hserved : Served s.library.base urlPath) :
    (s.load client urlPath).1.Paired disk place := by
  unfold Session.load
  simp only
  split
  · rename_i c hload
    exact (h.drop client).withSlot (Collection.filed_of_load hserved hload)
  · exact h.drop client

theorem proceeded (h : s.Paired disk place) (hserved : Served s.library.base urlPath)
    {file : Path} {after : Session Memory × LoadOutcome}
    (hafter : Proceeded s client urlPath file after) : after.1.Paired disk place := by
  cases hafter with
  | blocked => exact h
  | loaded howner hload => exact h.withSlot (Collection.filed_of_load hserved hload)
  | failed => exact h.drop client

theorem loadForWrite (h : s.Paired disk place) (hserved : Served s.library.base urlPath) :
    (s.loadForWrite client urlPath).1.Paired disk place := by
  have hasked := asked s client urlPath
  generalize s.loadForWrite client urlPath = after at hasked
  cases hasked with
  | nowhere => exact h.drop client
  | somewhere hresolve hafter =>
    rename_i file
    have hqueued : (s.enqueue client urlPath file).Paired disk place :=
      @withSlot _ _ _ client ((h.drop client).withLocks _) (.waiting urlPath file) hserved
    exact hqueued.proceeded hserved hafter

theorem poll (h : s.Paired disk place) : (s.poll client).1.Paired disk place := by
  unfold Session.poll
  split
  · rename_i urlPath file hslot
    exact h.proceeded (h.slots client _ hslot) (Session.proceeded s client urlPath file)
  · exact h

/-- A change is answered alike and leaves the sessions paired. -/
theorem mutate (h : s.Paired disk place) (m : Mutation) :
    ∃ disk', (s.transfer disk).mutate client m =
        ((s.mutate client m).1.transfer disk', (s.mutate client m).2) ∧
      (s.mutate client m).1.Paired disk' place ∧
        ∀ q, (disk'.root.look q).map Option.isSome = (disk.root.look q).map Option.isSome := by
  unfold Session.mutate
  have hsame : (s.transfer disk).slot? client = s.slot? client := rfl
  rw [hsame]
  split
  · rename_i c lock hslot
    obtain ⟨⟨names, hfiled⟩, hfile⟩ := h.slots client _ hslot
    obtain ⟨memory', disk', result, hmemory, hdisk, htogether⟩ :=
      Collection.mutate_eq_of_filed h.stocked h.mirrors hfiled hfile m
    have hstore : (s.transfer disk).store = disk := rfl
    have hpath : result.1.filePath = c.filePath := by
      have hfile := Collection.sameFile_mutate c s.store m
      rw [hmemory] at hfile
      exact hfile.filePath
    simp only [hmemory, hstore, hdisk]
    refine ⟨disk', rfl, (h.withStore htogether).withSlot ?_, htogether.places_stay⟩
    rw [SlotServed, hpath]
    exact ⟨⟨names, hfiled⟩, htogether.files_stay _ hfile⟩
  · exact ⟨disk, rfl, h, fun _ => rfl⟩

/-- Whatever a client asks, both sessions give the same answer and stay paired. -/
theorem serve (h : s.Paired disk place) {request : Request}
    (hserved : request.Served s.library.base) :
    ∃ disk', (s.transfer disk).serve client request =
        ((s.serve client request).1.transfer disk', (s.serve client request).2) ∧
      (s.serve client request).1.Paired disk' place ∧
        ∀ q, (disk'.root.look q).map Option.isSome = (disk.root.look q).map Option.isSome := by
  cases request with
  | load urlPath =>
    refine ⟨disk, ?_, h.load hserved, fun _ => rfl⟩
    simp only [Session.serve, load_transfer (h.load_eq hserved)]
  | loadForWrite urlPath =>
    refine ⟨disk, ?_, h.loadForWrite hserved, fun _ => rfl⟩
    simp only [Session.serve, loadForWrite_transfer (h.load_eq hserved) (h.resolve_eq hserved)]
  | poll =>
    refine ⟨disk, ?_, h.poll, fun _ => rfl⟩
    have hpoll := poll_transfer fun urlPath file hslot => h.load_eq (h.slots client _ hslot)
    simp only [Session.serve, hpoll]
  | drop => exact ⟨disk, rfl, h.drop client, fun _ => rfl⟩
  | state | items | find _ | query _ => exact ⟨disk, rfl, h, fun _ => rfl⟩
  | change m =>
    obtain ⟨disk', hmutate, hpaired, hplaces⟩ := @mutate _ _ _ client h m
    refine ⟨disk', ?_, hpaired, hplaces⟩
    simp only [Session.serve, hmutate]

/-- Whatever clients ask one after the other, both sessions give the same answers. -/
theorem serveAll (h : s.Paired disk place) {requests : List (String × Request)}
    (hserved : ∀ asked ∈ requests, asked.2.Served s.library.base) :
    ∃ disk', (s.transfer disk).serveAll requests =
        ((s.serveAll requests).1.transfer disk', (s.serveAll requests).2) ∧
      (s.serveAll requests).1.Paired disk' place ∧
        ∀ q, (disk'.root.look q).map Option.isSome = (disk.root.look q).map Option.isSome := by
  induction requests generalizing s disk with
  | nil => exact ⟨disk, rfl, h, fun _ => rfl⟩
  | cons asked rest ih =>
    obtain ⟨client, request⟩ := asked
    obtain ⟨hrequest, hrest⟩ := List.forall_mem_cons.mp hserved
    obtain ⟨between, hstep, hpaired, hplaces⟩ := @serve _ _ _ client h request hrequest
    rw [← library_serve s client request] at hrest
    obtain ⟨disk', hrun, hlast, hlater⟩ := ih hpaired hrest
    refine ⟨disk', ?_, hlast, fun q => (hlater q).trans (hplaces q)⟩
    simp only [Session.serveAll, hstep, hrun]

end Paired

/-- Memory that mirrors a stocked disk may take its place.  Whatever clients ask with URL paths that
are served, they get the same answers from both; in the end memory still mirrors the disk, which is
stocked, and on which nothing has been made or taken away. -/
theorem interchangeable {memory : Memory} {disk : Disk} {library : Library} {place : List String}
    (hstocked : disk.Stocked library.base place)
    (hmirrors : memory.Mirrors disk library.base place) {requests : List (String × Request)}
    (hserved : ∀ asked ∈ requests, asked.2.Served library.base) :
    (serveAll { store := memory, library } requests).2 =
        (serveAll { store := disk, library } requests).2 ∧
      (serveAll { store := disk, library } requests).1.store.Stocked library.base place ∧
      (serveAll { store := memory, library } requests).1.store.Mirrors
        (serveAll { store := disk, library } requests).1.store library.base place ∧
      ∀ q, ((serveAll { store := disk, library } requests).1.store.root.look q).map Option.isSome =
        (disk.root.look q).map Option.isSome := by
  have hfresh : Paired { store := memory, library } disk place := ⟨hstocked, hmirrors, nofun⟩
  obtain ⟨disk', hrun, hpaired, hplaces⟩ := hfresh.serveAll hserved
  change serveAll { store := disk, library } requests = _ at hrun
  have hlibrary := library_serveAll { store := memory, library } requests
  have hlast := hpaired.stocked
  have hmirror := hpaired.mirrors
  rw [hlibrary] at hlast hmirror
  rw [hrun]
  exact ⟨rfl, hlast, hmirror, hplaces⟩

/-! ## A small library -/

/-- Two collections, one in a directory of its own. -/
def cupboard : Disk where
  root := .directory [("data", .directory [("api", .directory [
    ("notes", .directory [("items.json", .file "[]".toUTF8)]),
    ("pens.json", .file "[]\n".toUTF8)])])]

/-- The same files in memory. -/
def cupboardMemory : Memory where
  files := [(.ofText "data/api/notes/items.json", "[]"), (.ofText "data/api/pens.json", "[]\n")]

theorem look_cupboard {names : List String} {found : Option ByteArray}
    (h : cupboard.root.look ("data" :: names) = some found) :
    (names, found) ∈ [([], none), (["api"], none), (["api", "notes"], none),
      (["api", "notes", "items.json"], some "[]".toUTF8),
      (["api", "pens.json"], some "[]\n".toUTF8)] := by
  have honly : ∀ {name : String} {node : Node} {names : List String} {found : Option ByteArray},
      (Node.directory [(name, node)]).look names = some found → names = [] ∧ found = none ∨
        ∃ rest, names = name :: rest ∧ node.look rest = some found := by
    intro name node names found h
    simpa using Node.look_directory_eq_some h
  rcases honly h with ⟨hnil, -⟩ | ⟨inner, heq, hdata⟩
  · cases hnil
  cases heq
  rcases honly hdata with ⟨rfl, rfl⟩ | ⟨inner, rfl, hapi⟩
  · simp
  rcases Node.look_directory_eq_some hapi with ⟨rfl, rfl⟩ | ⟨entry, hentry, rest, rfl, hbelow⟩
  · simp
  rcases List.mem_cons.mp hentry with rfl | hentry
  · rcases honly hbelow with ⟨rfl, rfl⟩ | ⟨inner, rfl, hnotes⟩
    · simp
    · obtain ⟨rfl, rfl⟩ := Node.look_file_eq_some hnotes
      simp
  · obtain rfl := List.mem_singleton.mp hentry
    obtain ⟨rfl, rfl⟩ := Node.look_file_eq_some hbelow
    simp

theorem stocked_cupboard : cupboard.Stocked (.ofText "data") ["data"] where
  place_base := rfl
  look_base := rfl
  directories names hne hlook := by
    have hmem := look_cupboard hlook
    simp only [List.mem_cons, Prod.mk.injEq, List.not_mem_nil, reduceCtorEq, and_true, and_false,
      or_false] at hmem
    rcases hmem with rfl | rfl | rfl
    · exact absurd rfl hne
    · exact ⟨by decide, "notes", nofun⟩
    · exact ⟨by decide, "items.json", nofun⟩
  files names content hlook := by
    have hmem := look_cupboard hlook
    simp only [List.mem_cons, Prod.mk.injEq, Option.some.injEq, List.not_mem_nil, reduceCtorEq,
      and_false, or_false, false_or] at hmem
    rcases hmem with ⟨rfl, rfl⟩ | ⟨rfl, rfl⟩
    · exact ⟨⟨["api", "notes"], "items", rfl, by decide, by decide⟩, "[]",
        Disk.fromUTF8?_toUTF8 "[]"⟩
    · exact ⟨⟨["api"], "pens", rfl, by decide, by decide⟩, "[]\n", Disk.fromUTF8?_toUTF8 "[]\n"⟩

theorem mirrors_cupboard : cupboardMemory.Mirrors cupboard (.ofText "data") ["data"] where
  enabled := rfl
  get?_iff p text := by
    constructor
    · intro htext
      obtain ⟨entry, hentry, hp, rfl⟩ := Memory.exists_mem_of_get? htext
      rw [← hp]
      rcases List.mem_cons.mp hentry with rfl | hentry
      · exact ⟨["api", "notes", "items.json"], _, rfl, rfl, Disk.fromUTF8?_toUTF8 "[]"⟩
      · obtain rfl := List.mem_singleton.mp hentry
        exact ⟨["api", "pens.json"], _, rfl, rfl, Disk.fromUTF8?_toUTF8 "[]\n"⟩
    · rintro ⟨names, content, hp, hlook, htext⟩
      have hmem := look_cupboard hlook
      simp only [List.mem_cons, Prod.mk.injEq, Option.some.injEq, List.not_mem_nil, reduceCtorEq,
        and_false, or_false, false_or] at hmem
      rcases hmem with ⟨rfl, rfl⟩ | ⟨rfl, rfl⟩
      · rw [← htext, Disk.fromUTF8?_toUTF8]
        exact cupboardMemory.get?_congr (q := .ofText "data/api/notes/items.json") hp
      · rw [← htext, Disk.fromUTF8?_toUTF8]
        exact cupboardMemory.get?_congr (q := .ofText "data/api/pens.json") hp

/-- A directory that memory has only as the beginning of a path, a lock that is passed on, changes
that are stored, and a collection that is not there. -/
def cupboardRequests : List (String × Request) :=
  [("first", .load "/api/notes"), ("first", .change (.insert [("text", .string "milk")])),
    ("second", .loadForWrite "/api/pens/"), ("third", .loadForWrite "/api//pens"),
    ("second", .change (.insert [])), ("second", .drop), ("third", .poll),
    ("third", .change (.delete 0)), ("first", .load "/api/lamps"), ("third", .items)]

theorem served_cupboardRequests :
    ∀ asked ∈ cupboardRequests, asked.2.Served (.ofText "data") := by
  decide

theorem interchangeable_cupboard : cupboard.Stocked (.ofText "data") ["data"] ∧
    cupboardMemory.Mirrors cupboard (.ofText "data") ["data"] ∧
    (∀ asked ∈ cupboardRequests, asked.2.Served (.ofText "data")) ∧
    (serveAll { store := cupboardMemory, library := { base := .ofText "data" } }
        cupboardRequests).2 =
      (serveAll { store := cupboard, library := { base := .ofText "data" } } cupboardRequests).2 :=
  ⟨stocked_cupboard, mirrors_cupboard, served_cupboardRequests,
    (@interchangeable _ _ { base := .ofText "data" } _ stocked_cupboard mirrors_cupboard _
      served_cupboardRequests).1⟩

end JsonCollections.Session
