import JsonCollections.Proofs.Entries
import JsonCollections.Proofs.Session.LockTable
import JsonCollections.Session.Basic
import Mathlib.Data.List.Nodup

set_option autoImplicit false

/-!
# Locks and slots fit together

The clients in the queue of a file are those whose slot names the file, each of them once, and a
client that holds a lock is the first one in its queue (`Session.Consistent`).  Every step keeps it
so, whatever happens to the store from outside; hence a lock has one holder at most
(`Consistent.eq_of_same_lock`).
-/

namespace JsonCollections

/-! ## Slots -/

namespace Session

variable {σ : Type}

theorem slot?_withSlot (s : Session σ) (client : String) (slot : Slot) (other : String) :
    (s.withSlot client slot).slot? other = if other = client then some slot else s.slot? other :=
  Entries.get?_insert s.slots client slot other

theorem slot?_drop (s : Session σ) (client other : String) :
    (s.drop client).slot? other = if other = client then none else s.slot? other :=
  Entries.get?_filter_ne s.slots client other

/-- What holds of a new slot and of those of all other clients holds of all slots. -/
theorem forall_slot_withSlot {s : Session σ} {client : String} {slot : Slot}
    {motive : String → Slot → Prop} (hslot : motive client slot)
    (hothers : ∀ other old, other ≠ client → s.slot? other = some old → motive other old) :
    ∀ other found, (s.withSlot client slot).slot? other = some found → motive other found := by
  intro other found hfound
  rw [slot?_withSlot] at hfound
  split at hfound
  · rename_i hsame
    rw [hsame, ← Option.some.inj hfound]
    exact hslot
  · exact hothers other found ‹_› hfound

theorem forall_slot_drop {s : Session σ} {client : String} {motive : String → Slot → Prop}
    (h : ∀ other found, s.slot? other = some found → motive other found) :
    ∀ other found, (s.drop client).slot? other = some found → motive other found := by
  intro other found hfound
  rw [slot?_drop] at hfound
  split at hfound
  · cases hfound
  · exact h other found hfound

/-- The file in whose queue a client stands. -/
def queued? (s : Session σ) (client : String) : Option Path :=
  (s.slot? client).bind Slot.lockedFile?

theorem queued?_withSlot (s : Session σ) (client : String) (slot : Slot) (other : String) :
    (s.withSlot client slot).queued? other =
      if other = client then slot.lockedFile? else s.queued? other := by
  unfold queued?
  rw [slot?_withSlot]
  split <;> rfl

theorem queued?_drop (s : Session σ) (client other : String) :
    (s.drop client).queued? other = if other = client then none else s.queued? other := by
  unfold queued?
  rw [slot?_drop]
  split <;> rfl

/-! ## The invariant -/

/-- Queues and slots agree, and who holds a lock comes first. -/
structure Consistent (s : Session σ) : Prop where
  wellFormed : s.locks.WellFormed
  nodup : ∀ file, (s.locks.queue file).Nodup
  mem_queue : ∀ file client, client ∈ s.locks.queue file ↔
    ∃ f, s.queued? client = some f ∧ f.sameAs file = true
  owner : ∀ {client c lock}, s.slot? client = some (.holding c (some lock)) →
    s.locks.owner? lock = some client

/-- A session that begins has neither locks nor slots. -/
theorem consistent_fresh (store : σ) (library : Library) :
    ({ store, library } : Session σ).Consistent where
  wellFormed := List.Pairwise.nil
  nodup _ := List.nodup_nil
  mem_queue _ _ := ⟨fun h => absurd h List.not_mem_nil, nofun⟩
  owner := nofun

/-- The store does not matter. -/
theorem Consistent.withStore {s : Session σ} (h : s.Consistent) (store : σ) :
    ({ s with store } : Session σ).Consistent :=
  ⟨h.wellFormed, h.nodup, h.mem_queue, h.owner⟩

/-- A slot may be filled anew if the client stays in its queue, and comes first if it holds. -/
theorem Consistent.withSlot {s : Session σ} (h : s.Consistent) {client : String} {slot : Slot}
    (hqueued : slot.lockedFile? = s.queued? client)
    (howner : ∀ c lock, slot = .holding c (some lock) → s.locks.owner? lock = some client) :
    (s.withSlot client slot).Consistent := by
  refine ⟨h.wellFormed, h.nodup, fun file other => ?_, fun {other c lock} hslot => ?_⟩
  · rw [queued?_withSlot]
    split
    · rename_i ho
      rw [hqueued, ho]
      exact h.mem_queue file client
    · exact h.mem_queue file other
  · rw [slot?_withSlot] at hslot
    split at hslot
    · rename_i ho
      rw [ho]
      exact howner c lock (Option.some.inj hslot)
    · exact h.owner hslot

theorem locks_drop (s : Session σ) (client : String) :
    (s.drop client).locks =
      match s.queued? client with
      | some file => s.locks.release file client
      | none => s.locks := rfl

/-- A client that is dropped leaves its queue, which is the only one it stands in. -/
theorem Consistent.queue_drop {s : Session σ} (h : s.Consistent) (client : String) (file : Path) :
    (s.drop client).locks.queue file = (s.locks.queue file).erase client := by
  have habsent : (∀ f, s.queued? client = some f → f.sameAs file = false) →
      (s.locks.queue file).erase client = s.locks.queue file := by
    intro hqueued
    apply List.erase_of_not_mem
    intro hmem
    obtain ⟨f, hf, hsame⟩ := (h.mem_queue file client).mp hmem
    rw [hqueued f hf] at hsame
    cases hsame
  rw [locks_drop]
  cases hqueued : s.queued? client with
  | none => exact (habsent fun f hf => by rw [hqueued] at hf; cases hf).symm
  | some f =>
    simp only
    rw [LockTable.queue_release h.wellFormed]
    split
    · rfl
    · rename_i hf
      refine (habsent ?_).symm
      intro g hg
      rw [hqueued] at hg
      cases hg
      exact Bool.eq_false_iff.mpr hf

/-- A client that leaves makes the others move up. -/
theorem Consistent.drop {s : Session σ} (h : s.Consistent) (client : String) :
    (s.drop client).Consistent := by
  refine ⟨?_, fun file => ?_, fun file other => ?_, fun {other c lock} hslot => ?_⟩
  · rw [locks_drop]
    split
    · exact LockTable.wellFormed_release h.wellFormed _ client
    · exact h.wellFormed
  · rw [h.queue_drop]
    exact (h.nodup file).erase client
  · rw [h.queue_drop, (h.nodup file).mem_erase_iff, h.mem_queue, queued?_drop]
    split
    · rename_i ho
      exact ⟨fun hne => absurd ho hne.1, nofun⟩
    · rename_i ho
      exact ⟨fun hmem => hmem.2, fun hmem => ⟨ho, hmem⟩⟩
  · rw [slot?_drop] at hslot
    split at hslot
    · cases hslot
    · rename_i ho
      have howner := h.owner hslot
      unfold LockTable.owner? at howner ⊢
      obtain ⟨others, hqueue⟩ := List.head?_eq_some_iff.mp howner
      rw [h.queue_drop, hqueue, List.erase_cons_tail (by simpa using ho), List.head?_cons]

/-- A client without a slot goes to the end of a queue. -/
theorem Consistent.request {s : Session σ} (h : s.Consistent) {client : String}
    (hnone : s.slot? client = none) (urlPath : String) (file : Path) :
    (({ s with locks := s.locks.request file client } : Session σ).withSlot client
      (.waiting urlPath file)).Consistent := by
  have habsent : ∀ g, client ∉ s.locks.queue g := by
    intro g hmem
    obtain ⟨f, hf, -⟩ := (h.mem_queue g client).mp hmem
    unfold queued? at hf
    rw [hnone] at hf
    cases hf
  refine ⟨LockTable.wellFormed_request h.wellFormed file client, fun g => ?_, fun g other => ?_,
    fun {other c lock} hslot => ?_⟩
  · change (LockTable.queue (s.locks.request file client) g).Nodup
    rw [LockTable.queue_request]
    split
    · exact List.nodup_append.mpr ⟨h.nodup g, List.nodup_singleton client, fun a ha b hb hab =>
        habsent g (List.mem_singleton.mp hb ▸ hab ▸ ha)⟩
    · exact h.nodup g
  · change other ∈ LockTable.queue (s.locks.request file client) g ↔ _
    rw [LockTable.queue_request, queued?_withSlot]
    by_cases ho : other = client
    · rw [if_pos ho, ho]
      split
      · rename_i hg
        exact ⟨fun _ => ⟨file, rfl, hg⟩, fun _ => List.mem_append_right _ (List.mem_singleton_self _)⟩
      · rename_i hg
        constructor
        · intro hmem
          exact absurd hmem (habsent g)
        · rintro ⟨f, hf, hsame⟩
          cases hf
          exact absurd hsame hg
    · rw [if_neg ho]
      have hothers : other ∈ s.locks.queue g ++ [client] ↔ other ∈ s.locks.queue g := by
        simp [ho]
      split
      · exact hothers.trans (h.mem_queue g other)
      · exact h.mem_queue g other
  · rw [slot?_withSlot] at hslot
    split at hslot
    · cases hslot
    · have howner := h.owner hslot
      change (LockTable.queue (s.locks.request file client) lock).head? = some other
      unfold LockTable.owner? at howner
      rw [LockTable.queue_request]
      split
      · rw [List.head?_append, howner, Option.some_or]
      · exact howner

/-- A lock has one holder at most. -/
theorem Consistent.eq_of_same_lock {s : Session σ} (h : s.Consistent) {client other : String}
    {c d : Collection} {lock lock' : Path} (hc : s.slot? client = some (.holding c (some lock)))
    (hd : s.slot? other = some (.holding d (some lock'))) (hsame : lock.sameAs lock' = true) :
    client = other := by
  have hclient := h.owner hc
  have hother := h.owner hd
  unfold LockTable.owner? at hclient hother
  rw [LockTable.queue_congr _ hsame, hother] at hclient
  exact (Option.some.inj hclient).symm

/-! ## Steps -/

variable [Storage σ]

theorem Consistent.load {s : Session σ} (h : s.Consistent) (client urlPath : String) :
    (s.load client urlPath).1.Consistent := by
  unfold Session.load
  simp only
  split
  · refine (h.drop client).withSlot ?_ nofun
    rw [queued?_drop, if_pos rfl]
    rfl
  · exact h.drop client

/-- A client that waits may go on. -/
theorem Consistent.proceed {s : Session σ} (h : s.Consistent) {client urlPath : String}
    {file : Path} (hslot : s.slot? client = some (.waiting urlPath file)) :
    (s.proceed client urlPath file).1.Consistent := by
  unfold Session.proceed
  split
  · rename_i howner
    split
    · refine h.withSlot ?_ fun c lock hlock => ?_
      · unfold queued?
        rw [hslot]
        rfl
      · cases hlock
        exact howner
    · exact h.drop client
  · exact h

theorem Consistent.loadForWrite {s : Session σ} (h : s.Consistent) (client urlPath : String) :
    (s.loadForWrite client urlPath).1.Consistent := by
  unfold Session.loadForWrite
  have hnone : (s.drop client).slot? client = none := by rw [slot?_drop, if_pos rfl]
  simp only
  split
  · exact h.drop client
  · rename_i file _
    apply ((h.drop client).request hnone urlPath file).proceed
    rw [slot?_withSlot, if_pos rfl]

theorem Consistent.poll {s : Session σ} (h : s.Consistent) (client : String) :
    (s.poll client).1.Consistent := by
  unfold Session.poll
  split
  · exact h.proceed ‹_›
  · exact h

theorem Consistent.mutate {s : Session σ} (h : s.Consistent) (client : String) (m : Mutation) :
    (s.mutate client m).1.Consistent := by
  unfold Session.mutate
  split
  · rename_i c lock hslot
    refine (h.withStore _).withSlot ?_ fun d file hlock => ?_
    · change _ = (s.slot? client).bind Slot.lockedFile?
      rw [hslot]
      rfl
    · cases hlock
      exact h.owner hslot
  · exact h

theorem Consistent.step {s : Session σ} (h : s.Consistent) (step : Step σ) :
    (s.step step).Consistent := by
  cases step with
  | load client urlPath => exact h.load client urlPath
  | loadForWrite client urlPath => exact h.loadForWrite client urlPath
  | poll client => exact h.poll client
  | mutate client m => exact h.mutate client m
  | drop client => exact h.drop client
  | outside change => exact h.withStore (change s.store)

theorem Consistent.run {s : Session σ} (h : s.Consistent) (steps : List (Step σ)) :
    (s.run steps).Consistent := by
  induction steps generalizing s with
  | nil => exact h
  | cons step rest ih => exact ih (h.step step)

end Session

end JsonCollections
