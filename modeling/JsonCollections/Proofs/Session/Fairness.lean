import JsonCollections.Proofs.Session.Steps
import Mathlib.Data.List.Induction

set_option autoImplicit false

/-!
# Locks are handed on in the order of asking

A client asks for the lock of a file when it loads for writing, and it has asked at that step until it
is dropped or loads anew (`RequestedAt`).  Every queue is in the order of the steps at which its
clients asked (`Consistent.pairwise_requestedAt`), since a step only lets clients go or puts the one
that asks at the end (`Consistent.queue_step`).

`Fair` says what this means for the owners of locks, and `fair_run` that it holds after all steps.
-/

namespace JsonCollections.Session

variable {σ : Type}

/-- The client stands in the queue of a file, however the file is spelled. -/
def Stands (s : Session σ) (client : String) (file : Path) : Prop :=
  ∃ f, s.queued? client = some f ∧ f.sameAs file = true

/-- The client owns the lock of a file, be it that it holds a collection or that the lock was handed
to it and it has not polled yet. -/
def Owns (s : Session σ) (client : String) (file : Path) : Prop :=
  s.locks.owner? file = some client

theorem Consistent.stands_of_owns {s : Session σ} (h : s.Consistent) {client : String} {file : Path}
    (howns : s.Owns client file) : s.Stands client file :=
  (h.mem_queue file client).mp (List.mem_of_mem_head? howns)

/-- A file in whose queue a client stands has an owner. -/
theorem Consistent.exists_owner {s : Session σ} (h : s.Consistent) {client : String} {file : Path}
    (hstands : s.Stands client file) : ∃ owner, s.Owns owner file := by
  have hmem := (h.mem_queue file client).mpr hstands
  exact ⟨_, List.head?_eq_some_head (List.ne_nil_of_mem hmem)⟩

theorem eq_of_owns {s : Session σ} {client other : String} {file file' : Path}
    (hsame : file.sameAs file' = true) (hclient : s.Owns client file)
    (hother : s.Owns other file') : client = other := by
  unfold Owns LockTable.owner? at hclient hother
  rw [LockTable.queue_congr _ hsame, hother] at hclient
  exact (Option.some.inj hclient).symm

/-! ## Queues after a step -/

/-- What a step makes of a queue: some stay, in their order and undisturbed by the step, and at most
one that asks in this step comes last. -/
inductive Advanced (step : Step σ) (before : List String) : List String → Prop where
  | stayed {stayed : List String} (hsublist : stayed.Sublist before)
      (hquiet : ∀ client ∈ stayed, step.Quiet client) : Advanced step before stayed
  | joined {stayed : List String} (hsublist : stayed.Sublist before)
      (hquiet : ∀ client ∈ stayed, step.Quiet client) {client urlPath : String}
      (hstep : step = .loadForWrite client urlPath) : Advanced step before (stayed ++ [client])

theorem advanced_same (step : Step σ) (hstep : ∀ client, step.Quiet client)
    (queue : List String) : Advanced step queue queue :=
  .stayed (List.Sublist.refl queue) fun client _ => hstep client

/-- The others stay when a client leaves. -/
theorem quiet_of_mem_erase {step : Step σ} {client : String}
    (hstep : ∀ other, other ≠ client → step.Quiet other) {queue : List String}
    (hnodup : queue.Nodup) : ∀ other ∈ queue.erase client, step.Quiet other :=
  fun other hother => hstep other (hnodup.mem_erase_iff.mp hother).1

theorem advanced_erase (step : Step σ) {client : String}
    (hstep : ∀ other, other ≠ client → step.Quiet other) {queue : List String}
    (hnodup : queue.Nodup) : Advanced step queue (queue.erase client) :=
  .stayed List.erase_sublist (quiet_of_mem_erase hstep hnodup)

theorem Consistent.queue_enqueue {s : Session σ} (h : s.Consistent) (client urlPath : String)
    (file g : Path) : (s.enqueue client urlPath file).locks.queue g =
      if file.sameAs g then (s.locks.queue g).erase client ++ [client]
      else (s.locks.queue g).erase client := by
  rw [← h.queue_drop]
  exact LockTable.queue_request file client _ g

theorem Consistent.enqueue {s : Session σ} (h : s.Consistent) (client urlPath : String)
    (file : Path) : (s.enqueue client urlPath file).Consistent :=
  (h.drop client).request ((slot?_drop s client client).trans (if_pos rfl)) urlPath file

variable [Storage σ]

theorem Consistent.advanced_poll {s : Session σ} (h : s.Consistent) (client : String) (file : Path) :
    Advanced (.poll client : Step σ) (s.locks.queue file) ((s.poll client).1.locks.queue file) := by
  by_cases hwaiting : ∃ urlPath file, s.slot? client = some (.waiting urlPath file)
  · obtain ⟨urlPath, lock, hslot⟩ := hwaiting
    rw [poll_waiting hslot]
    have hproceeded := proceeded s client urlPath lock
    generalize s.proceed client urlPath lock = after at hproceeded
    cases hproceeded with
    | blocked | loaded => exact advanced_same (.poll client) (fun _ => trivial) _
    | failed =>
      rw [h.queue_drop]
      exact advanced_erase (.poll client) (fun _ _ => trivial) (h.nodup file)
  · rw [poll_not_waiting fun urlPath file hslot => hwaiting ⟨urlPath, file, hslot⟩]
    exact advanced_same (.poll client) (fun _ => trivial) _

theorem Consistent.advanced_loadForWrite {s : Session σ} (h : s.Consistent)
    (client urlPath : String) (file : Path) :
    Advanced (.loadForWrite client urlPath : Step σ) (s.locks.queue file)
      ((s.loadForWrite client urlPath).1.locks.queue file) := by
  have hothers : ∀ other, other ≠ client →
      (Step.loadForWrite client urlPath : Step σ).Quiet other := fun _ hne => hne.symm
  have hleft := advanced_erase (.loadForWrite client urlPath) hothers (h.nodup file)
  have hasked := asked s client urlPath
  generalize s.loadForWrite client urlPath = after at hasked
  cases hasked with
  | nowhere =>
    rw [h.queue_drop]
    exact hleft
  | somewhere hresolve hafter =>
    rename_i lock
    have hqueue := h.queue_enqueue client urlPath lock file
    have hjoined : Advanced (.loadForWrite client urlPath : Step σ) (s.locks.queue file)
        ((s.enqueue client urlPath lock).locks.queue file) := by
      rw [hqueue]
      split
      · exact .joined List.erase_sublist (quiet_of_mem_erase hothers (h.nodup file)) rfl
      · exact hleft
    cases hafter with
    | blocked | loaded => exact hjoined
    | failed =>
      -- the client comes and goes in one step
      have hgone : client ∉ (s.locks.queue file).erase client := (h.nodup file).not_mem_erase
      rw [(h.enqueue client urlPath lock).queue_drop, hqueue]
      split
      · rw [List.erase_append_right _ hgone, List.erase_cons_head, List.append_nil]
        exact hleft
      · rw [List.erase_of_not_mem hgone]
        exact hleft

/-- A step lets clients of a queue go, and the one that asks comes last. -/
theorem Consistent.queue_step {s : Session σ} (h : s.Consistent) (step : Step σ) (file : Path) :
    Advanced step (s.locks.queue file) ((s.step step).locks.queue file) := by
  cases step with
  | load client urlPath =>
    have hqueue : (s.load client urlPath).1.locks = (s.drop client).locks := by
      unfold Session.load
      simp only
      split <;> rfl
    change Advanced _ _ ((s.load client urlPath).1.locks.queue file)
    rw [hqueue, h.queue_drop]
    exact advanced_erase (.load client urlPath) (fun _ hne => hne.symm) (h.nodup file)
  | loadForWrite client urlPath => exact h.advanced_loadForWrite client urlPath file
  | poll client => exact h.advanced_poll client file
  | mutate client m =>
    have hqueue : (s.mutate client m).1.locks = s.locks := by
      unfold Session.mutate
      split <;> rfl
    change Advanced _ _ ((s.mutate client m).1.locks.queue file)
    rw [hqueue]
    exact advanced_same (.mutate client m) (fun _ => trivial) _
  | drop client =>
    change Advanced _ _ ((s.drop client).locks.queue file)
    rw [h.queue_drop]
    exact advanced_erase (.drop client) (fun _ hne => hne.symm) (h.nodup file)
  | outside change => exact advanced_same (.outside change) (fun _ => trivial) _

/-! ## When clients asked -/

/-- The client asked for the lock of a file after so many steps, and has neither been dropped nor
loaded anew since. -/
def RequestedAt (start : Session σ) (steps : List (Step σ)) (client : String) (file : Path)
    (n : Nat) : Prop :=
  ∃ before urlPath since f, steps = before ++ .loadForWrite client urlPath :: since ∧
    before.length = n ∧ (∀ step ∈ since, step.Quiet client) ∧
    Location.resolve (start.run before).store start.library.base urlPath = some f ∧
    f.sameAs file = true

variable {start : Session σ} {steps : List (Step σ)} {client : String} {file : Path}

theorem RequestedAt.lt_length {n : Nat} (h : RequestedAt start steps client file n) :
    n < steps.length := by
  obtain ⟨before, urlPath, since, f, rfl, rfl, -⟩ := h
  rw [List.length_append, List.length_cons]
  omega

/-- Asking counts from the step itself or from before, as the step is quiet for the client or not. -/
theorem RequestedAt.of_concat {step : Step σ} {n : Nat}
    (h : RequestedAt start (steps ++ [step]) client file n) :
    (step.Quiet client → RequestedAt start steps client file n) ∧
      (¬ step.Quiet client → n = steps.length) := by
  obtain ⟨before, urlPath, since, f, hsteps, hn, hsince, hresolve, hsame⟩ := h
  rcases List.eq_nil_or_concat since with rfl | ⟨since, last, rfl⟩
  · obtain ⟨rfl, hstep⟩ := List.append_inj' hsteps rfl
    cases hstep
    exact ⟨fun hquiet => absurd rfl hquiet, fun _ => hn.symm⟩
  · rw [List.concat_eq_append] at hsteps hsince
    rw [← List.cons_append, ← List.append_assoc] at hsteps
    obtain ⟨rfl, hstep⟩ := List.append_inj' hsteps rfl
    cases hstep
    obtain ⟨hsince, hlast⟩ := List.forall_mem_append.mp hsince
    exact ⟨fun _ => ⟨before, urlPath, since, f, rfl, hn, hsince, hresolve, hsame⟩,
      fun hnoisy => absurd (hlast _ (List.mem_singleton_self _)) hnoisy⟩

theorem RequestedAt.concat {step : Step σ} {n : Nat} (h : RequestedAt start steps client file n)
    (hquiet : step.Quiet client) : RequestedAt start (steps ++ [step]) client file n := by
  obtain ⟨before, urlPath, since, f, rfl, hn, hsince, hresolve, hsame⟩ := h
  refine ⟨before, urlPath, since ++ [step], f, ?_, hn, ?_, hresolve, hsame⟩
  · rw [List.append_assoc, List.cons_append]
  · exact List.forall_mem_append.mpr ⟨hsince, List.forall_mem_singleton.mpr hquiet⟩

theorem requestedAt_length {urlPath : String} {f : Path}
    (hresolve : Location.resolve (start.run steps).store (start.run steps).library.base urlPath =
      some f) (hsame : f.sameAs file = true) :
    RequestedAt start (steps ++ [.loadForWrite client urlPath]) client file steps.length := by
  rw [library_run] at hresolve
  exact ⟨steps, urlPath, [], f, rfl, rfl, fun _ hmem => absurd hmem List.not_mem_nil, hresolve,
    hsame⟩

/-- Who stands in a queue has asked for the lock. -/
theorem exists_requestedAt (hfresh : start.slot? client = none)
    (h : (start.run steps).Stands client file) : ∃ n, RequestedAt start steps client file n := by
  obtain ⟨lock, hqueued, hsame⟩ := h
  unfold queued? at hqueued
  induction steps using List.reverseRecOn with
  | nil =>
    change (start.slot? client).bind _ = _ at hqueued
    rw [hfresh] at hqueued
    cases hqueued
  | append_singleton steps step ih =>
    rw [run_concat] at hqueued
    by_cases hquiet : step.Quiet client
    · have hkept := kept (start.run steps) hquiet
      generalize hbefore : (start.run steps).slot? client = before at hkept
      generalize ((start.run steps).step step).slot? client = after at hkept hqueued
      obtain ⟨n, hn⟩ : ∃ n, RequestedAt start steps client file n := by
        apply ih
        rw [hbefore]
        cases hkept with
        | same | changed | loaded => exact hqueued
        | failed => cases hqueued
      exact ⟨n, hn.concat hquiet⟩
    · -- the client stands anew, so it asked in this step
      have hbegun := begun (start.run steps) hquiet
      generalize ((start.run steps).step step).slot? client = after at hbegun hqueued
      cases hbegun with
      | empty | unlocked => cases hqueued
      | waiting hstep hresolve | holding hstep hresolve =>
        cases hqueued
        rw [hstep]
        exact ⟨_, requestedAt_length hresolve hsame⟩

/-- The clients of a queue stand in the order in which they asked. -/
theorem Consistent.pairwise_requestedAt (hstart : start.Consistent)
    (hempty : start.locks.queue file = []) (steps : List (Step σ)) :
    ((start.run steps).locks.queue file).Pairwise fun client other => ∀ n m,
      RequestedAt start steps client file n → RequestedAt start steps other file m → n < m := by
  induction steps using List.reverseRecOn with
  | nil =>
    change (start.locks.queue file).Pairwise _
    rw [hempty]
    exact List.Pairwise.nil
  | append_singleton steps step ih =>
    have hadvanced := (hstart.run steps).queue_step step file
    -- those whom the step leaves alone asked when they had asked before it
    have hkeep : ∀ {stayed : List String}, stayed.Sublist ((start.run steps).locks.queue file) →
        (∀ client ∈ stayed, step.Quiet client) → stayed.Pairwise fun client other => ∀ n m,
          RequestedAt start (steps ++ [step]) client file n →
          RequestedAt start (steps ++ [step]) other file m → n < m := by
      intro stayed hsublist hquiet
      refine (ih.sublist hsublist).imp_of_mem fun {client other} hclient hother hlt n m hn hm => ?_
      exact hlt n m (hn.of_concat.1 (hquiet client hclient)) (hm.of_concat.1 (hquiet other hother))
    rw [run_concat]
    generalize ((start.run steps).step step).locks.queue file = after at hadvanced
    cases hadvanced with
    | stayed hsublist hquiet => exact hkeep hsublist hquiet
    | joined hsublist hquiet hstep =>
      rename_i stayed newcomer urlPath
      refine List.pairwise_append.mpr ⟨hkeep hsublist hquiet, List.pairwise_singleton _ _, ?_⟩
      intro client hclient other hother n m hn hm
      rw [List.mem_singleton.mp hother] at hm
      have hnoisy : ¬ step.Quiet newcomer := by
        rw [hstep]
        exact fun hne => hne rfl
      rw [hm.of_concat.2 hnoisy]
      exact (hn.of_concat.1 (hquiet client hclient)).lt_length

/-! ## Owners -/

/-- Of the clients in a queue the owner asked first. -/
theorem Consistent.lt_of_owns (hstart : start.Consistent) (hempty : start.locks.queue file = [])
    {other : String} {n m : Nat} (howns : (start.run steps).Owns client file)
    (hstands : (start.run steps).Stands other file) (hne : other ≠ client)
    (hn : RequestedAt start steps client file n) (hm : RequestedAt start steps other file m) :
    n < m := by
  have hsorted := hstart.pairwise_requestedAt hempty steps
  have hmem := ((hstart.run steps).mem_queue file other).mpr hstands
  obtain ⟨others, hqueue⟩ := List.head?_eq_some_iff.mp howns
  rw [hqueue] at hsorted hmem
  have hothers := (List.mem_cons.mp hmem).resolve_left hne
  exact (List.pairwise_cons.mp hsorted).1 other hothers n m hn hm

/-- The owner of a lock owns it as long as it stands in the queue and does not ask again. -/
theorem Consistent.owns_step {s : Session σ} (h : s.Consistent) {step : Step σ}
    (howns : s.Owns client file) (hquiet : step.Quiet client) (hstands : (s.step step).Stands client file) :
    (s.step step).Owns client file := by
  have hmem := ((h.step step).mem_queue file client).mpr hstands
  have hnodup := h.nodup file
  have hadvanced := h.queue_step step file
  unfold Owns LockTable.owner?
  obtain ⟨others, hqueue⟩ := List.head?_eq_some_iff.mp howns
  rw [hqueue] at hadvanced hnodup
  have hfirst : ∀ {stayed : List String}, stayed.Sublist (client :: others) → client ∈ stayed →
      stayed.head? = some client := by
    intro stayed hsublist hstayed
    rcases List.sublist_cons_iff.mp hsublist with hsublist | ⟨rest, rfl, -⟩
    · exact absurd (hsublist.subset hstayed) (List.nodup_cons.mp hnodup).1
    · rfl
  generalize (s.step step).locks.queue file = after at hadvanced hmem
  cases hadvanced with
  | stayed hsublist => exact hfirst hsublist hmem
  | joined hsublist _ hstep =>
    rename_i stayed newcomer urlPath
    have hother : client ∉ [newcomer] := by
      intro hclient
      rw [hstep, List.mem_singleton.mp hclient] at hquiet
      exact hquiet rfl
    have hstayed := (List.mem_append.mp hmem).resolve_right hother
    rw [List.head?_append, hfirst hsublist hstayed, Option.some_or]

/-- A client that polls is blocked exactly if it does not own the lock that it waits for. -/
theorem poll_blocked_iff {s : Session σ} {urlPath : String}
    (h : s.slot? client = some (.waiting urlPath file)) :
    (s.poll client).2 = some .blocked ↔ ¬ s.Owns client file := by
  rw [poll_waiting h]
  have hproceeded := proceeded s client urlPath file
  generalize s.proceed client urlPath file = after at hproceeded
  cases hproceeded with
  | blocked howner => exact ⟨fun _ => howner, fun _ => rfl⟩
  | loaded howner => exact ⟨nofun, fun hnot => absurd howner hnot⟩
  | failed howner => exact ⟨nofun, fun hnot => absurd howner hnot⟩

/-- Who asks for a file in whose queue another client stands has to wait behind it. -/
theorem Consistent.loadForWrite_blocked {s : Session σ} (h : s.Consistent) {other urlPath : String}
    {f : Path} (hstands : s.Stands client file) (hne : other ≠ client)
    (hresolve : Location.resolve s.store s.library.base urlPath = some f)
    (hsame : f.sameAs file = true) :
    (s.loadForWrite other urlPath).2 = .blocked ∧
      (s.loadForWrite other urlPath).1.Stands other file := by
  have howner : (s.enqueue other urlPath f).locks.owner? f ≠ some other := by
    have hmem : client ∈ (s.locks.queue f).erase other := by
      rw [LockTable.queue_congr _ hsame]
      exact (h.nodup file).mem_erase_iff.mpr ⟨hne.symm, (h.mem_queue file client).mpr hstands⟩
    have hgone : other ∉ (s.locks.queue f).erase other := (h.nodup f).not_mem_erase
    unfold LockTable.owner?
    rw [h.queue_enqueue, if_pos (Path.sameAs_refl f), List.head?_append_of_ne_nil _
      (List.ne_nil_of_mem hmem)]
    exact fun hhead => hgone (List.mem_of_mem_head? hhead)
  have hasked := asked s other urlPath
  generalize s.loadForWrite other urlPath = after at hasked
  cases hasked with
  | nowhere hnone =>
    rw [hresolve] at hnone
    cases hnone
  | somewhere hfound hafter =>
    rw [hresolve] at hfound
    cases hfound
    cases hafter with
    | blocked =>
      refine ⟨rfl, f, ?_, hsame⟩
      rw [Session.enqueue, queued?_withSlot, if_pos rfl]
      rfl
    | loaded howns => exact absurd howns howner
    | failed howns => exact absurd howns howner

/-! ## Fair locks -/

/-- Locks are exclusive, go to clients in the order in which they asked, and are never lost. -/
structure Fair (start : Session σ) (steps : List (Step σ)) : Prop where
  /-- a file has one entry in the table, however it is spelled -/
  wellFormed : (start.run steps).locks.WellFormed
  /-- a lock has one owner -/
  owner_unique : ∀ {client other file file'}, file.sameAs file' = true →
    (start.run steps).Owns client file → (start.run steps).Owns other file' → client = other
  /-- who holds a collection under a lock owns the lock -/
  owns_of_holding : ∀ {client c file},
    (start.run steps).slot? client = some (.holding c (some file)) →
      (start.run steps).Owns client file
  /-- an owner holds or waits -/
  stands_of_owns : ∀ {client file}, (start.run steps).Owns client file →
    (start.run steps).Stands client file
  /-- a lock that someone waits for has an owner -/
  exists_owner : ∀ {client file}, (start.run steps).Stands client file →
    ∃ owner, (start.run steps).Owns owner file
  /-- who holds or waits has asked -/
  exists_request : ∀ {client file}, (start.run steps).Stands client file →
    ∃ n, RequestedAt start steps client file n
  /-- of those who hold or wait the owner asked first -/
  owner_first : ∀ {client other file n m}, (start.run steps).Owns client file →
    (start.run steps).Stands other file → other ≠ client →
      RequestedAt start steps client file n → RequestedAt start steps other file m → n < m
  /-- an owner that stays and does not ask again goes on owning the lock -/
  owns_step : ∀ {client file step}, (start.run steps).Owns client file → step.Quiet client →
    (start.run (steps ++ [step])).Stands client file →
      (start.run (steps ++ [step])).Owns client file
  /-- who waits gets on by polling exactly if it owns the lock -/
  poll_blocked : ∀ {client urlPath file},
    (start.run steps).slot? client = some (.waiting urlPath file) →
      (((start.run steps).poll client).2 = some .blocked ↔ ¬ (start.run steps).Owns client file)
  /-- who asks for a file that another client holds or waits for has to wait -/
  blocked : ∀ {client other urlPath file f}, (start.run steps).Stands client file →
    other ≠ client →
      Location.resolve (start.run steps).store (start.run steps).library.base urlPath = some f →
        f.sameAs file = true → ((start.run steps).loadForWrite other urlPath).2 = .blocked ∧
          ((start.run steps).loadForWrite other urlPath).1.Stands other file
  /-- two spellings of a URL path lead to one file -/
  spellings : ∀ {urlPath urlPath' file file'},
    Location.Respelled (start.run steps).store (start.run steps).library.base urlPath urlPath' →
      Location.resolve (start.run steps).store (start.run steps).library.base urlPath =
        some file →
      Location.resolve (start.run steps).store (start.run steps).library.base urlPath' =
        some file' → file.sameAs file' = true

/-- In a session that began without locks the locks are fair after all steps, whichever loads fail
and whoever is dropped. -/
theorem fair_run (store : σ) (library : Library) (steps : List (Step σ)) :
    Fair { store, library } steps := by
  have hstart := consistent_fresh store library
  have hnow := hstart.run steps
  exact {
    wellFormed := hnow.wellFormed
    owner_unique := eq_of_owns
    owns_of_holding := hnow.owner
    stands_of_owns := hnow.stands_of_owns
    exists_owner := hnow.exists_owner
    exists_request := exists_requestedAt rfl
    owner_first := hstart.lt_of_owns rfl
    owns_step := by
      simp only [run_concat]
      exact hnow.owns_step
    poll_blocked := poll_blocked_iff
    blocked := hnow.loadForWrite_blocked
    spellings := Location.Respelled.sameAs }

end JsonCollections.Session
