import JsonCollections.Proofs.Session.Handles
import Mathlib.Data.Set.Card

set_option autoImplicit false

/-!
# The table of locks holds the files in use

A file has an entry in the table exactly while some client holds its lock or waits for it, whichever
loads fail and whoever is dropped before it gets the lock.  So there are as many entries as files in
use, and none without clients; and an entry stays, with the same lock in it, while another client
holds or waits (`LocksInUse`, `locksInUse_run`).

A session keeps queues.  `Session.sharedLocks` follows its steps with counted handles, where an entry
goes when two handles are left, and `Session.Shares.run` says that this is the same table.
-/

namespace JsonCollections

/-! ## Locks from step to step -/

/-- What happens to locks. -/
inductive LockEvent where
  | request (file : Path) (client : String)
  | release (client : String)

/-- The client that an event is about. -/
def LockEvent.client : LockEvent → String
  | .request _ client | .release client => client

/-- The locks after an event. -/
def SharedLocks.apply (t : SharedLocks String) : LockEvent → SharedLocks String
  | .request file client => t.request file client
  | .release client => t.release client

/-- An event leaves the guards of other clients alone. -/
theorem SharedLocks.guard?_apply (t : SharedLocks String) {event : LockEvent} {client : String}
    (h : event.client ≠ client) : (t.apply event).guard? client = t.guard? client := by
  cases event with
  | request file other =>
    simp only [SharedLocks.apply, SharedLocks.request]
    split <;> exact if_neg h.symm
  | release other => exact (guard?_release t other client).trans (if_neg h.symm)

theorem SharedLocks.guard?_foldl_apply (t : SharedLocks String) {events : List LockEvent}
    {client : String} (h : ∀ event ∈ events, event.client ≠ client) :
    (events.foldl SharedLocks.apply t).guard? client = t.guard? client := by
  induction events generalizing t with
  | nil => rfl
  | cons event rest ih =>
    obtain ⟨hevent, hrest⟩ := List.forall_mem_cons.mp h
    exact (ih (t.apply event) hrest).trans (t.guard?_apply hevent)

namespace Session

variable {σ : Type} [Storage σ]

/-- What a step does to locks.  A client that loads or is dropped leaves first; one that loads for
writing asks then, and it leaves again if loading fails, at once or after it has waited. -/
def lockEvents (s : Session σ) : Step σ → List LockEvent
  | .load client _ | .drop client => [.release client]
  | .loadForWrite client urlPath =>
    match Location.resolve s.store s.library.base urlPath, (s.loadForWrite client urlPath).2 with
    | none, _ => [.release client]
    | some file, .failed _ => [.release client, .request file client, .release client]
    | some file, _ => [.release client, .request file client]
  | .poll client =>
    match (s.poll client).2 with
    | some (.failed _) => [.release client]
    | _ => []
  | .mutate _ _ | .outside _ => []

/-- The locks after steps in order. -/
def sharedLocks (s : Session σ) (t : SharedLocks String) : List (Step σ) → SharedLocks String
  | [] => t
  | step :: rest => (s.step step).sharedLocks ((s.lockEvents step).foldl SharedLocks.apply t) rest

/-- A step asks and leaves for its own client only. -/
theorem by_of_mem_lockEvents (s : Session σ) (step : Step σ) :
    ∀ event ∈ s.lockEvents step, step.By event.client := by
  have hboth : ∀ client file, ∀ event ∈ [.release client, .request file client, .release client],
      client = LockEvent.client event :=
    fun _ _ => List.forall_mem_cons.mpr
      ⟨rfl, List.forall_mem_cons.mpr ⟨rfl, List.forall_mem_singleton.mpr rfl⟩⟩
  intro event hevent
  cases step with
  | load client urlPath | drop client =>
    rw [List.mem_singleton.mp hevent]
    rfl
  | loadForWrite client urlPath =>
    simp only [lockEvents] at hevent
    split at hevent
    · rw [List.mem_singleton.mp hevent]
      rfl
    · exact hboth client _ event hevent
    · rename_i file _ _
      have hmem : event ∈ [.release client, .request file client] ++ [.release client] :=
        List.mem_append_left _ hevent
      exact hboth client file event hmem
  | poll client =>
    simp only [lockEvents] at hevent
    split at hevent
    · rw [List.mem_singleton.mp hevent]
      rfl
    · exact absurd hevent List.not_mem_nil
  | mutate | outside => exact absurd hevent List.not_mem_nil

theorem sharedLocks_concat (s : Session σ) (t : SharedLocks String) (steps : List (Step σ))
    (step : Step σ) : s.sharedLocks t (steps ++ [step]) =
      ((s.run steps).lockEvents step).foldl SharedLocks.apply (s.sharedLocks t steps) := by
  induction steps generalizing s t with
  | nil => rfl
  | cons first rest ih => exact ih (s.step first) _

/-! ## Counted handles and queues -/

/-- Counted handles agree with the queues of a session. -/
structure Shares (s : Session σ) (t : SharedLocks String) : Prop where
  consistent : s.Consistent
  occupied : s.locks.Occupied
  represents : t.Represents s.locks.files s.locks.queue s.queued?

omit [Storage σ] in
theorem shares_fresh (store : σ) (library : Library) :
    ({ store, library } : Session σ).Shares {} where
  consistent := consistent_fresh store library
  occupied := nofun
  represents := SharedLocks.represents_nil

variable {s : Session σ} {t : SharedLocks String}

omit [Storage σ] in
/-- A client that leaves its queue gives its handles back. -/
theorem Shares.drop (h : s.Shares t) (client : String) :
    (s.drop client).Shares (t.release client) := by
  have hqueued : (s.drop client).queued? =
      fun other => if other = client then none else s.queued? other :=
    funext (queued?_drop s client)
  cases hclient : s.queued? client with
  | none =>
    have hrelease : t.release client = t := by
      have hguard := h.represents.guard_file client
      rw [hclient, Option.map_eq_none_iff] at hguard
      rw [SharedLocks.release, hguard]
    have hlocks : (s.drop client).locks = s.locks := by rw [locks_drop, hclient]
    have hsame : (s.drop client).queued? = s.queued? := by
      funext other
      rw [queued?_drop]
      split
      · rename_i hother
        rw [hother, hclient]
      · rfl
    refine ⟨h.consistent.drop client, ?_, ?_⟩
    · rw [hlocks]
      exact h.occupied
    · rw [hrelease, hlocks, hsame]
      exact h.represents
  | some file =>
    have hlocks : (s.drop client).locks = s.locks.release file client := by rw [locks_drop, hclient]
    refine ⟨h.consistent.drop client, ?_, ?_⟩
    · rw [hlocks]
      exact LockTable.occupied_release h.occupied file client
    · rw [hlocks, hqueued, LockTable.files_release h.consistent.wellFormed]
      exact h.represents.release (LockTable.queue_congr s.locks)
        (fun hf => (h.consistent.mem_queue _ _).mpr ⟨_, hf, Path.sameAs_refl _⟩) hclient
        (LockTable.queue_release h.consistent.wellFormed file client)

omit [Storage σ] in
/-- A file without an entry is not in use. -/
theorem Shares.queue_eq_nil (h : s.Shares t) {file : Path} (hnone : t.lock? file = none) :
    s.locks.queue file = [] := by
  by_contra hqueue
  obtain ⟨f, hf, hsame⟩ := (LockTable.exists_mem_files_iff h.occupied file).mpr hqueue
  rw [← h.represents.files_eq] at hf
  obtain ⟨e, he, rfl⟩ := List.mem_map.mp hf
  rw [h.represents.lock?_eq_some_iff.mpr ⟨e.1, he, hsame⟩] at hnone
  cases hnone

omit [Storage σ] in
/-- A client that comes to the end of a queue gets a handle for its guard and one for its place. -/
theorem Shares.enqueue (h : s.Shares t) (client urlPath : String) (file : Path) :
    (s.enqueue client urlPath file).Shares ((t.release client).request file client) := by
  have hdrop := h.drop client
  have hqueued : (s.enqueue client urlPath file).queued? =
      fun other => if other = client then some file else (s.drop client).queued? other :=
    funext fun other => queued?_withSlot _ client (.waiting urlPath file) other
  refine ⟨h.consistent.enqueue client urlPath file,
    LockTable.occupied_request hdrop.occupied file client, ?_⟩
  rw [hqueued]
  change SharedLocks.Represents _ ((s.drop client).locks.request file client).files
    ((s.drop client).locks.request file client).queue _
  rw [LockTable.files_request]
  exact hdrop.represents.request hdrop.queue_eq_nil (LockTable.queue_request file client _)

omit [Storage σ] in
/-- What a slot holds does not matter while its client stands in the same queue. -/
theorem Shares.withSlot (h : s.Shares t) {client : String} {slot : Slot}
    (hqueued : slot.lockedFile? = s.queued? client)
    (howner : ∀ c lock, slot = .holding c (some lock) → s.locks.owner? lock = some client) :
    (s.withSlot client slot).Shares t := by
  refine ⟨h.consistent.withSlot hqueued howner, h.occupied, ?_⟩
  have hsame : (s.withSlot client slot).queued? = s.queued? := by
    funext other
    rw [queued?_withSlot]
    split
    · rename_i hother
      rw [hqueued, hother]
    · rfl
  rw [hsame]
  exact h.represents

/-! ## Steps -/

omit [Storage σ] in
theorem Shares.loaded (h : s.Shares t) {client urlPath : String} {file : Path}
    (hslot : s.slot? client = some (.waiting urlPath file))
    (howner : s.locks.owner? file = some client) (c : Collection) :
    (s.withSlot client (.holding c (some file))).Shares t := by
  refine h.withSlot ?_ fun d lock hlock => ?_
  · rw [queued?, hslot]
    rfl
  · cases hlock
    exact howner

theorem Shares.load (h : s.Shares t) (client urlPath : String) :
    (s.load client urlPath).1.Shares (t.release client) := by
  unfold Session.load
  simp only
  split
  · refine (h.drop client).withSlot ?_ nofun
    rw [queued?_drop, if_pos rfl]
    rfl
  · exact h.drop client

theorem Shares.loadForWrite (h : s.Shares t) (client urlPath : String) :
    (s.loadForWrite client urlPath).1.Shares
      ((s.lockEvents (.loadForWrite client urlPath)).foldl SharedLocks.apply t) := by
  have hasked := asked s client urlPath
  simp only [lockEvents]
  generalize s.loadForWrite client urlPath = after at hasked ⊢
  cases hasked with
  | nowhere hresolve =>
    rw [hresolve]
    exact h.drop client
  | somewhere hresolve hafter =>
    rename_i file
    rw [hresolve]
    have henqueue := h.enqueue client urlPath file
    cases hafter with
    | blocked => exact henqueue
    | loaded howner =>
      have hslot : (s.enqueue client urlPath file).slot? client = some (.waiting urlPath file) := by
        rw [Session.enqueue, slot?_withSlot, if_pos rfl]
      exact henqueue.loaded hslot howner _
    | failed => exact henqueue.drop client

theorem Shares.poll (h : s.Shares t) (client : String) :
    (s.poll client).1.Shares ((s.lockEvents (.poll client)).foldl SharedLocks.apply t) := by
  simp only [lockEvents]
  by_cases hwaiting : ∃ urlPath file, s.slot? client = some (.waiting urlPath file)
  · obtain ⟨urlPath, file, hslot⟩ := hwaiting
    have hproceeded := proceeded s client urlPath file
    rw [poll_waiting hslot]
    generalize s.proceed client urlPath file = after at hproceeded
    cases hproceeded with
    | blocked => exact h
    | loaded howner => exact h.loaded hslot howner _
    | failed => exact h.drop client
  · rw [poll_not_waiting fun urlPath file hslot => hwaiting ⟨urlPath, file, hslot⟩]
    exact h

theorem Shares.mutate (h : s.Shares t) (client : String) (m : Mutation) :
    (s.mutate client m).1.Shares t := by
  unfold Session.mutate
  split
  · rename_i c lock hslot
    have hstore : ({ s with store := (c.mutate s.store m).1 } : Session σ).Shares t :=
      ⟨h.consistent.withStore _, h.occupied, h.represents⟩
    refine hstore.withSlot ?_ fun d file hlock => ?_
    · change _ = (s.slot? client).bind Slot.lockedFile?
      rw [hslot]
      rfl
    · cases hlock
      exact h.consistent.owner hslot
  · exact h

/-- Counted handles and queues agree after every step. -/
theorem Shares.step (h : s.Shares t) (step : Step σ) :
    (s.step step).Shares ((s.lockEvents step).foldl SharedLocks.apply t) := by
  cases step with
  | load client urlPath => exact h.load client urlPath
  | loadForWrite client urlPath => exact h.loadForWrite client urlPath
  | poll client => exact h.poll client
  | mutate client m => exact h.mutate client m
  | drop client => exact h.drop client
  | outside change => exact ⟨h.consistent.withStore _, h.occupied, h.represents⟩

theorem Shares.run (h : s.Shares t) (steps : List (Step σ)) :
    (s.run steps).Shares (s.sharedLocks t steps) := by
  induction steps generalizing s t with
  | nil => exact h
  | cons step rest ih => exact ih (h.step step)

/-! ## The files in use -/

omit [Storage σ] in
/-- Who holds or waits finds the lock of its guard in the table. -/
theorem Shares.lock?_of_stands (h : s.Shares t) {client : String} {file : Path}
    (hstands : s.Stands client file) : ∃ g, t.guard? client = some g ∧
      t.lock? file = some g.lock := by
  obtain ⟨f, hqueued, hsame⟩ := hstands
  obtain ⟨g, hguard, rfl⟩ : ∃ g, t.guard? client = some g ∧ g.file = f :=
    Option.map_eq_some_iff.mp ((h.represents.guard_file client).trans hqueued)
  refine ⟨g, hguard, ?_⟩
  rw [← SharedLocks.lock?_congr t hsame]
  exact h.represents.guard_lock hguard

omit [Storage σ] in
theorem stands_congr {s after : Session σ} {client : String} {file : Path}
    (h : after.slot? client = s.slot? client) :
    after.Stands client file ↔ s.Stands client file := by
  unfold Stands queued?
  rw [h]

/-- While others come and go a client's lock stays in the table. -/
theorem Shares.lock?_step (h : s.Shares t) {step : Step σ} {client : String} {file : Path}
    (hstands : s.Stands client file) (hother : ¬ step.By client) :
    ∃ n, t.lock? file = some n ∧
      ((s.lockEvents step).foldl SharedLocks.apply t).lock? file = some n := by
  have hevents : ∀ event ∈ s.lockEvents step, event.client ≠ client := by
    rintro event hevent rfl
    exact hother (s.by_of_mem_lockEvents step event hevent)
  have hafter : (s.step step).Stands client file :=
    (stands_congr (slot?_step_of_not_by s hother)).mpr hstands
  obtain ⟨g, hguard, hlock⟩ := h.lock?_of_stands hstands
  obtain ⟨g', hguard', hlock'⟩ := (h.step step).lock?_of_stands hafter
  rw [SharedLocks.guard?_foldl_apply t hevents, hguard] at hguard'
  obtain rfl := Option.some.inj hguard'
  exact ⟨g.lock, hlock, hlock'⟩

/-- The file has an entry in the table, however it is spelled. -/
def HasEntry (s : Session σ) (file : Path) : Prop :=
  ∃ f ∈ s.locks.files, f.sameAs file = true

/-- How many entries the table has. -/
def lockedFiles (s : Session σ) : Nat := s.locks.length

/-- The files that clients hold or wait for, whatever their spelling. -/
def filesInUse (s : Session σ) : Set (List Component) :=
  {place | ∃ client file, s.Stands client file ∧ file.components = place}

omit [Storage σ] in
theorem Shares.hasEntry_iff (h : s.Shares t) (file : Path) :
    s.HasEntry file ↔ ∃ client, s.Stands client file := by
  refine (LockTable.exists_mem_files_iff h.occupied file).trans ⟨fun hqueue => ?_, ?_⟩
  · obtain ⟨client, hclient⟩ := List.exists_mem_of_ne_nil _ hqueue
    exact ⟨client, (h.consistent.mem_queue file client).mp hclient⟩
  · rintro ⟨client, hstands⟩
    exact List.ne_nil_of_mem ((h.consistent.mem_queue file client).mpr hstands)

omit [Storage σ] in
theorem Shares.lockedFiles_eq (h : s.Shares t) : s.lockedFiles = s.filesInUse.ncard := by
  have hinUse : s.filesInUse = (s.locks.files.map Path.components).toFinset := by
    ext place
    rw [Finset.mem_coe, List.mem_toFinset, List.mem_map]
    constructor
    · rintro ⟨client, file, hstands, rfl⟩
      obtain ⟨f, hf, hsame⟩ := (h.hasEntry_iff file).mpr ⟨client, hstands⟩
      exact ⟨f, hf, (Path.sameAs_iff f file).mp hsame⟩
    · rintro ⟨f, hf, rfl⟩
      obtain ⟨client, hstands⟩ := (h.hasEntry_iff f).mp ⟨f, hf, Path.sameAs_refl f⟩
      exact ⟨client, f, hstands, rfl⟩
  have hnodup : (s.locks.files.map Path.components).Nodup := by
    rw [LockTable.files, List.map_map]
    refine List.pairwise_map.mpr (h.consistent.wellFormed.imp fun {e e'} hne heq => ?_)
    rw [(Path.sameAs_iff e.1 e'.1).mpr heq] at hne
    cases hne
  rw [hinUse, Set.ncard_coe_finset, List.toFinset_card_of_nodup hnodup, LockTable.files,
    List.length_map, List.length_map]
  rfl

omit [Storage σ] in
theorem filesInUse_eq_empty (h : ∀ client, s.slot? client = none) : s.filesInUse = ∅ := by
  refine Set.eq_empty_of_forall_notMem fun place hplace => ?_
  obtain ⟨client, file, ⟨f, hqueued, -⟩, -⟩ := hplace
  rw [queued?, h client] at hqueued
  cases hqueued

/-- The table of locks after steps in order, as handles keep it and as queues do. -/
structure LocksInUse (start : Session σ) (steps : List (Step σ)) : Prop where
  /-- a file has an entry exactly while some client holds its lock or waits for it -/
  hasEntry_iff : ∀ file, (start.run steps).HasEntry file ↔
    ∃ client, (start.run steps).Stands client file
  /-- there are as many entries as such files -/
  lockedFiles_eq : (start.run steps).lockedFiles = (start.run steps).filesInUse.ncard
  /-- no entry is left when all clients are gone -/
  lockedFiles_eq_zero : (∀ client, (start.run steps).slot? client = none) →
    (start.run steps).lockedFiles = 0
  /-- an entry stays, with the same lock, while a client other than the one that acts holds or
  waits -/
  entry_step : ∀ {client file step}, (start.run steps).Stands client file → ¬ step.By client →
    (start.run (steps ++ [step])).HasEntry file ∧
      ∃ n, (start.sharedLocks {} steps).lock? file = some n ∧
        (start.sharedLocks {} (steps ++ [step])).lock? file = some n
  /-- the entries that counted handles keep are those of the queues -/
  shares : (start.run steps).Shares (start.sharedLocks {} steps)

/-- In a session that began without locks the table holds the files in use after all steps. -/
theorem locksInUse_run (store : σ) (library : Library) (steps : List (Step σ)) :
    LocksInUse { store, library } steps := by
  have hnow := (shares_fresh store library).run steps
  refine ⟨hnow.hasEntry_iff, hnow.lockedFiles_eq, fun hnone => ?_,
    fun {client file step} hstands hother => ?_, hnow⟩
  · rw [hnow.lockedFiles_eq, filesInUse_eq_empty hnone, Set.ncard_empty]
  · rw [run_concat, sharedLocks_concat]
    refine ⟨((hnow.step step).hasEntry_iff file).mpr ⟨client, ?_⟩, hnow.lock?_step hstands hother⟩
    exact (stands_congr (slot?_step_of_not_by _ hother)).mpr hstands

end Session

end JsonCollections
