import JsonCollections.Proofs.Session.Fairness

set_option autoImplicit false

/-!
# Locks with counted handles

A lock is shared by handles.  The table of files has one, and a client has two while it holds the
lock or waits for it: one in its guard, and one in its place in the queue.  A client that leaves
gives up its place first; if two handles are left then, that of the table and that of its own guard,
the entry goes out of the table.

The queues of a session know no handles: there an entry goes with its last client.
`SharedLocks.Represents` says that the counts agree with the queues: asking keeps it so
(`Represents.request`), and so does leaving (`Represents.release`).  So the count is right on every
way out, and a lock that is out of the table has no handle left.
-/

namespace JsonCollections

/-! ## Locks, guards and the table -/

/-- How many handles there are of a lock, and who owns it or waits for it, the owner first. -/
structure SharedLock (κ : Type) where
  handles : Nat
  queue : List κ

/-- The lock with one handle less. -/
def SharedLock.forget {κ : Type} (l : SharedLock κ) : SharedLock κ :=
  { l with handles := l.handles - 1 }

/-- What a client has besides its place in a queue: the file that it asked for, and the lock that it
found in the table. -/
structure LockGuard where
  file : Path
  lock : Nat

/-- Locks by number, the table of the files in use, and the guards of clients. -/
structure SharedLocks (κ : Type) where
  /-- how many locks were made -/
  made : Nat := 0
  lock : Nat → SharedLock κ := fun _ => ⟨0, []⟩
  entries : List (Path × Nat) := []
  guard? : κ → Option LockGuard := fun _ => none

namespace SharedLocks

variable {κ : Type}

/-- The lock in the entry of a file. -/
def lock? (t : SharedLocks κ) (file : Path) : Option Nat :=
  (t.entries.find? (·.1.sameAs file)).map Prod.snd

/-- One lock changed. -/
def change (t : SharedLocks κ) (n : Nat) (f : SharedLock κ → SharedLock κ) : SharedLocks κ :=
  { t with lock := fun m => if m = n then f (t.lock m) else t.lock m }

/-- A new lock with an entry for a file, which has the only handle. -/
def addEntry (t : SharedLocks κ) (file : Path) : SharedLocks κ :=
  { t.change t.made fun _ => ⟨1, []⟩ with
    made := t.made + 1, entries := t.entries ++ [(file, t.made)] }

/-- The table without the entry of a file and without the handle that it had. -/
def removeEntry (t : SharedLocks κ) (file : Path) : SharedLocks κ :=
  match t.lock? file with
  | some n => { t.change n .forget with entries := t.entries.filter (! ·.1.sameAs file) }
  | none => t

/-- The table as the guard of a lock leaves it: if there is one handle in the table and one in the
guard, the entry goes. -/
def prune (t : SharedLocks κ) (g : LockGuard) : SharedLocks κ :=
  if (t.lock g.lock).handles = 2 then t.removeEntry g.file else t

section

variable [DecidableEq κ]

/-- A client gets a guard of a lock and the last place in its queue, with a handle each. -/
def join (t : SharedLocks κ) (file : Path) (client : κ) (n : Nat) : SharedLocks κ :=
  { t.change n fun l => ⟨l.handles + 2, l.queue ++ [client]⟩ with
    guard? := fun other => if other = client then some ⟨file, n⟩ else t.guard? other }

/-- A client asks for the lock of a file, which is made if there is none. -/
def request (t : SharedLocks κ) (file : Path) (client : κ) : SharedLocks κ :=
  match t.lock? file with
  | some n => t.join file client n
  | none => (t.addEntry file).join file client t.made

/-- A client gives up its place in a queue with the handle there; the lock passes to the next one. -/
def leaveQueue (t : SharedLocks κ) (client : κ) (n : Nat) : SharedLocks κ :=
  t.change n fun l => { l.forget with queue := l.queue.erase client }

/-- A client gives up its guard with the handle there. -/
def dropGuard (t : SharedLocks κ) (client : κ) (n : Nat) : SharedLocks κ :=
  { t.change n .forget with
    guard? := fun other => if other = client then none else t.guard? other }

/-- A client leaves, be it that it owned the lock or waited for it. -/
def release (t : SharedLocks κ) (client : κ) : SharedLocks κ :=
  match t.guard? client with
  | none => t
  | some g => ((t.leaveQueue client g.lock).prune g).dropGuard client g.lock

end

/-! ## Counts and queues -/

/-- The table has an entry for each of some files, which differ.  The lock in an entry has the queue
of the file, with a handle for the table and two for each client; all other locks are done with.
Clients have guards of the files in whose queues they stand, and of the locks in the table. -/
structure Represents (t : SharedLocks κ) (files : List Path) (queue : Path → List κ)
    (queued? : κ → Option Path) : Prop where
  files_eq : t.entries.map Prod.fst = files
  distinct : files.Pairwise fun f g => f.sameAs g = false
  nodup : (t.entries.map Prod.snd).Nodup
  lt_made : ∀ e ∈ t.entries, e.2 < t.made
  lock_eq : ∀ e ∈ t.entries, t.lock e.2 = ⟨1 + 2 * (queue e.1).length, queue e.1⟩
  freed : ∀ n, n ∉ t.entries.map Prod.snd → t.lock n = ⟨0, []⟩
  guard_file : ∀ client, (t.guard? client).map LockGuard.file = queued? client
  guard_lock : ∀ {client g}, t.guard? client = some g → t.lock? g.file = some g.lock

/-- Without clients there is nothing. -/
theorem represents_nil : Represents ({} : SharedLocks κ) [] (fun _ => []) fun _ => none where
  files_eq := rfl
  distinct := List.Pairwise.nil
  nodup := List.nodup_nil
  lt_made := nofun
  lock_eq := nofun
  freed _ _ := rfl
  guard_file _ := rfl
  guard_lock := nofun

theorem lock?_congr (t : SharedLocks κ) {f g : Path} (h : f.sameAs g = true) :
    t.lock? f = t.lock? g := by
  have hsame : ∀ e : Path × Nat, e.1.sameAs f = e.1.sameAs g := by
    intro e
    rw [Path.sameAs_comm e.1 f, Path.sameAs_congr h, Path.sameAs_comm g]
  simp only [lock?, hsame]

variable {t : SharedLocks κ} {files : List Path} {queue : Path → List κ}
  {queued? : κ → Option Path}

/-- The lock of a file is the one in its only entry. -/
theorem lock?_eq_some_iff {t : SharedLocks κ}
    (hdistinct : (t.entries.map Prod.fst).Pairwise fun f g => f.sameAs g = false) {file : Path}
    {n : Nat} : t.lock? file = some n ↔ ∃ f, (f, n) ∈ t.entries ∧ f.sameAs file = true := by
  rw [List.pairwise_map] at hdistinct
  unfold lock?
  generalize t.entries = entries at hdistinct
  induction entries with
  | nil => exact ⟨nofun, fun ⟨_, hmem, _⟩ => absurd hmem List.not_mem_nil⟩
  | cons first rest ih =>
    obtain ⟨hfirst, hrest⟩ := List.pairwise_cons.mp hdistinct
    rw [List.find?_cons]
    cases hf : first.1.sameAs file with
    | true =>
      constructor
      · rintro ⟨⟩
        exact ⟨first.1, List.mem_cons_self, hf⟩
      · rintro ⟨f, hmem, hsame⟩
        rcases List.mem_cons.mp hmem with rfl | hmem
        · rfl
        · have hne := hfirst _ hmem
          rw [Path.sameAs_congr hf, Path.sameAs_comm, hsame] at hne
          cases hne
    | false =>
      refine (ih hrest).trans ⟨fun ⟨f, hmem, hsame⟩ => ⟨f, List.mem_cons_of_mem _ hmem, hsame⟩, ?_⟩
      rintro ⟨f, hmem, hsame⟩
      rcases List.mem_cons.mp hmem with rfl | hmem
      · rw [hsame] at hf
        cases hf
      · exact ⟨f, hmem, hsame⟩

theorem Represents.lock?_eq_some_iff (h : t.Represents files queue queued?) {file : Path}
    {n : Nat} : t.lock? file = some n ↔ ∃ f, (f, n) ∈ t.entries ∧ f.sameAs file = true :=
  SharedLocks.lock?_eq_some_iff (h.files_eq ▸ h.distinct)

/-- Two entries with one lock are the same. -/
theorem Represents.eq_of_lock_eq (h : t.Represents files queue queued?) {e e' : Path × Nat}
    (he : e ∈ t.entries) (he' : e' ∈ t.entries) (hlock : e.2 = e'.2) : e = e' :=
  List.inj_on_of_nodup_map h.nodup he he' hlock

/-- An entry with the lock of a file is the entry of the file. -/
theorem Represents.lock_eq_iff (h : t.Represents files queue queued?) {file : Path} {n : Nat}
    (hlock : t.lock? file = some n) {e : Path × Nat} (he : e ∈ t.entries) :
    e.2 = n ↔ e.1.sameAs file = true := by
  constructor
  · intro hn
    obtain ⟨f, hentry, hsame⟩ := h.lock?_eq_some_iff.mp hlock
    rw [h.eq_of_lock_eq he hentry hn]
    exact hsame
  · intro hsame
    have hfound := h.lock?_eq_some_iff.mpr ⟨e.1, he, hsame⟩
    exact Option.some.inj (hfound.symm.trans hlock)

theorem Represents.sameAs_of_lock? (h : t.Represents files queue queued?) {f g : Path} {n : Nat}
    (hf : t.lock? f = some n) (hg : t.lock? g = some n) : f.sameAs g = true := by
  obtain ⟨e, hentry, hsame⟩ := h.lock?_eq_some_iff.mp hf
  rw [← Path.sameAs_congr hsame]
  exact (h.lock_eq_iff hg hentry).mp rfl

/-! ## Asking -/

/-- A file without an entry gets one with a new lock. -/
theorem Represents.addEntry (h : t.Represents files queue queued?) {file : Path}
    (hnone : t.lock? file = none) (hqueue : queue file = []) :
    (t.addEntry file).Represents (files ++ [file]) queue queued? := by
  have hfresh : t.made ∉ t.entries.map Prod.snd := by
    intro hmem
    obtain ⟨e, he, hmade⟩ := List.mem_map.mp hmem
    exact Nat.lt_irrefl _ (hmade ▸ h.lt_made e he)
  have hothers : ∀ f ∈ files, f.sameAs file = false := by
    intro f hf
    rw [← h.files_eq] at hf
    obtain ⟨e, he, rfl⟩ := List.mem_map.mp hf
    rw [Bool.eq_false_iff]
    intro hsame
    rw [h.lock?_eq_some_iff.mpr ⟨e.1, he, hsame⟩] at hnone
    cases hnone
  have hlock : ∀ {g : Path} {n : Nat}, t.lock? g = some n → (t.addEntry file).lock? g = some n := by
    intro g n hn
    obtain ⟨e, he, rfl⟩ := Option.map_eq_some_iff.mp hn
    simp only [lock?, SharedLocks.addEntry, List.find?_append, he, Option.some_or, Option.map_some]
  refine ⟨?_, ?_, ?_, fun e he => ?_, fun e he => ?_, fun n hn => ?_, h.guard_file,
    fun hg => hlock (h.guard_lock hg)⟩
  · simp only [SharedLocks.addEntry, List.map_append, h.files_eq]
    rfl
  · refine List.pairwise_append.mpr ⟨h.distinct, List.pairwise_singleton _ _, ?_⟩
    intro f hf g hg
    rw [List.mem_singleton.mp hg]
    exact hothers f hf
  · simp only [SharedLocks.addEntry, List.map_append]
    refine List.nodup_append.mpr ⟨h.nodup, List.nodup_singleton _, ?_⟩
    rintro n hn m hm rfl
    rw [List.mem_singleton.mp hm] at hn
    exact hfresh hn
  · rcases List.mem_append.mp he with he | he
    · exact Nat.lt_succ_of_lt (h.lt_made e he)
    · rw [List.mem_singleton.mp he]
      exact Nat.lt_succ_self _
  · rcases List.mem_append.mp he with he | he
    · have hne : e.2 ≠ t.made := Nat.ne_of_lt (h.lt_made e he)
      simp only [SharedLocks.addEntry, SharedLocks.change, if_neg hne, h.lock_eq e he]
    · simp only [List.mem_singleton.mp he, SharedLocks.addEntry, SharedLocks.change, if_true, hqueue,
        List.length_nil]
  · simp only [SharedLocks.addEntry, List.map_append, List.mem_append, not_or, List.map_cons,
      List.map_nil, List.mem_singleton] at hn
    simp only [SharedLocks.addEntry, SharedLocks.change, if_neg hn.2, h.freed n hn.1]

section

variable [DecidableEq κ]

/-- A client that joins comes last in the queue of the file. -/
theorem Represents.join (h : t.Represents files queue queued?) {file : Path} {n : Nat}
    (hlock : t.lock? file = some n) {queue' : Path → List κ} {client : κ}
    (hqueue : ∀ g, queue' g = if file.sameAs g then queue g ++ [client] else queue g) :
    (t.join file client n).Represents files queue'
      fun other => if other = client then some file else queued? other := by
  obtain ⟨f, hentry, -⟩ := h.lock?_eq_some_iff.mp hlock
  refine ⟨h.files_eq, h.distinct, h.nodup, h.lt_made, fun e he => ?_, fun m hm => ?_,
    fun other => ?_, fun {other g} hg => ?_⟩
  · simp only [SharedLocks.join, SharedLocks.change]
    rw [hqueue]
    have hiff := h.lock_eq_iff hlock he
    rw [Path.sameAs_comm] at hiff
    by_cases hn : e.2 = n
    · rw [if_pos hn, if_pos (hiff.mp hn), h.lock_eq _ he, List.length_append, List.length_singleton]
      rfl
    · rw [if_neg hn, if_neg (mt hiff.mpr hn), h.lock_eq e he]
  · have hn : m ≠ n := by
      rintro rfl
      exact hm (List.mem_map.mpr ⟨_, hentry, rfl⟩)
    simp only [SharedLocks.join, SharedLocks.change, if_neg hn]
    exact h.freed m hm
  · simp only [SharedLocks.join]
    split
    · rfl
    · exact h.guard_file other
  · simp only [SharedLocks.join] at hg
    split at hg
    · cases hg
      exact hlock
    · exact h.guard_lock hg

/-- Whoever asks for a file that has an entry gets the lock in it. -/
theorem Represents.request (h : t.Represents files queue queued?) {file : Path}
    (hempty : t.lock? file = none → queue file = []) {queue' : Path → List κ} {client : κ}
    (hqueue : ∀ g, queue' g = if file.sameAs g then queue g ++ [client] else queue g) :
    (t.request file client).Represents
      (if files.any (·.sameAs file) then files else files ++ [file]) queue'
      fun other => if other = client then some file else queued? other := by
  have hany : files.any (·.sameAs file) = (t.lock? file).isSome := by
    rw [← h.files_eq, List.any_map, lock?, Option.isSome_map, Bool.eq_iff_iff, List.find?_isSome,
      List.any_eq_true]
    rfl
  rw [SharedLocks.request, hany]
  cases hlock : t.lock? file with
  | some n => exact h.join hlock hqueue
  | none =>
    have hadded := h.addEntry hlock (hempty hlock)
    have hnew : (t.addEntry file).lock? file = some t.made :=
      hadded.lock?_eq_some_iff.mpr
        ⟨file, List.mem_append_right _ (List.mem_singleton_self _), Path.sameAs_refl file⟩
    exact hadded.join hnew hqueue

/-! ## Leaving -/

theorem lock_leaveQueue (t : SharedLocks κ) (client : κ) (n : Nat) :
    (t.leaveQueue client n).lock n = ⟨(t.lock n).handles - 1, (t.lock n).queue.erase client⟩ :=
  if_pos rfl

theorem guard?_release (t : SharedLocks κ) (client other : κ) :
    (t.release client).guard? other = if other = client then none else t.guard? other := by
  rw [release]
  split
  · rename_i hguard
    split
    · rename_i hother
      rw [hother, hguard]
    · rfl
  · rename_i g _
    have hprune : ((t.leaveQueue client g.lock).prune g).guard? = t.guard? := by
      unfold prune removeEntry
      split
      · split <;> rfl
      · rfl
    rw [dropGuard, hprune]

theorem made_release (t : SharedLocks κ) (client : κ) : (t.release client).made = t.made := by
  rw [release]
  split
  · rfl
  · simp only [dropGuard, prune, removeEntry]
    split
    · split <;> rfl
    · rfl

/-- What is left when a client has gone: its two handles are given back, and that of the table as
well if no other client has one. -/
theorem lock_release {client : κ} {g : LockGuard} (hguard : t.guard? client = some g)
    (hlock : t.lock? g.file = some g.lock) (n : Nat) : (t.release client).lock n =
      if n = g.lock then
        ⟨(t.lock n).handles - (if (t.lock n).handles - 1 = 2 then 3 else 2),
          (t.lock n).queue.erase client⟩
      else t.lock n := by
  have hplace : (t.leaveQueue client g.lock).lock? g.file = some g.lock := hlock
  simp only [release, hguard, dropGuard, prune, removeEntry, hplace, lock_leaveQueue]
  by_cases hn : n = g.lock
  · rw [hn]
    split
    · simp only [change, leaveQueue, SharedLock.forget, if_true]
      rfl
    · simp only [change, leaveQueue, SharedLock.forget, if_true]
      rfl
  · rw [if_neg hn]
    split <;> simp only [change, leaveQueue, if_neg hn]

theorem entries_release {client : κ} {g : LockGuard} (hguard : t.guard? client = some g)
    (hlock : t.lock? g.file = some g.lock) : (t.release client).entries =
      if (t.lock g.lock).handles - 1 = 2 then t.entries.filter (! ·.1.sameAs g.file)
      else t.entries := by
  have hplace : (t.leaveQueue client g.lock).lock? g.file = some g.lock := hlock
  simp only [release, hguard, dropGuard, prune, removeEntry, hplace, lock_leaveQueue]
  split <;> rfl

section

variable {client : κ} {g : LockGuard}

omit [DecidableEq κ] in
/-- The lock of a guard has the queue of its file, with two handles for each client in it. -/
theorem Represents.lock_guard (h : t.Represents files queue queued?)
    (hcongr : ∀ {f g : Path}, f.sameAs g = true → queue f = queue g)
    (hguard : t.guard? client = some g) :
    t.lock g.lock = ⟨1 + 2 * (queue g.file).length, queue g.file⟩ := by
  obtain ⟨f, hentry, hsame⟩ := h.lock?_eq_some_iff.mp (h.guard_lock hguard)
  rw [← hcongr hsame]
  exact h.lock_eq _ hentry

/-- When a client has given up its place, two handles are left exactly if no other client is. -/
theorem Represents.handles_eq_two_iff (h : t.Represents files queue queued?)
    (hcongr : ∀ {f g : Path}, f.sameAs g = true → queue f = queue g)
    (hguard : t.guard? client = some g) (hclient : client ∈ queue g.file) :
    (t.lock g.lock).handles - 1 = 2 ↔ (queue g.file).erase client = [] := by
  have hlength := List.length_erase_of_mem hclient
  have hpos := List.length_pos_of_mem hclient
  rw [h.lock_guard hcongr hguard, ← List.length_eq_zero_iff, hlength]
  change 1 + 2 * (queue g.file).length - 1 = 2 ↔ _
  omega

/-- The entry goes with the last client. -/
theorem Represents.entries_release (h : t.Represents files queue queued?)
    (hcongr : ∀ {f g : Path}, f.sameAs g = true → queue f = queue g)
    (hguard : t.guard? client = some g) (hclient : client ∈ queue g.file) :
    (t.release client).entries =
      if (queue g.file).erase client = [] then t.entries.filter (! ·.1.sameAs g.file)
      else t.entries := by
  rw [SharedLocks.entries_release hguard (h.guard_lock hguard)]
  simp only [h.handles_eq_two_iff hcongr hguard hclient]

theorem Represents.mem_entries_release (h : t.Represents files queue queued?)
    (hcongr : ∀ {f g : Path}, f.sameAs g = true → queue f = queue g)
    (hguard : t.guard? client = some g) (hclient : client ∈ queue g.file) {e : Path × Nat} :
    e ∈ (t.release client).entries ↔
      e ∈ t.entries ∧ ((queue g.file).erase client = [] → e.2 ≠ g.lock) := by
  rw [h.entries_release hcongr hguard hclient]
  split
  · rename_i hleft
    rw [List.mem_filter]
    refine and_congr_right fun he => ?_
    rw [Ne, h.lock_eq_iff (h.guard_lock hguard) he, Bool.not_eq_true']
    simp [hleft]
  · rename_i hleft
    simp [hleft]

theorem Represents.files_release (h : t.Represents files queue queued?)
    (hcongr : ∀ {f g : Path}, f.sameAs g = true → queue f = queue g)
    (hguard : t.guard? client = some g) (hclient : client ∈ queue g.file) :
    (t.release client).entries.map Prod.fst =
      if (queue g.file).erase client = [] then files.filter (! ·.sameAs g.file) else files := by
  rw [h.entries_release hcongr hguard hclient]
  split
  · rw [← h.files_eq, List.filter_map]
    rfl
  · exact h.files_eq

omit [DecidableEq κ] in
theorem Represents.distinct_release (h : t.Represents files queue queued?) (file : Path)
    (p : Prop) [Decidable p] : (if p then files.filter (! ·.sameAs file) else files).Pairwise
      fun f g => f.sameAs g = false := by
  split
  · exact h.distinct.filter _
  · exact h.distinct

/-- Other locks stay in the table, and so does this one if there are other clients. -/
theorem Represents.lock?_release (h : t.Represents files queue queued?)
    (hcongr : ∀ {f g : Path}, f.sameAs g = true → queue f = queue g)
    (hguard : t.guard? client = some g) (hclient : client ∈ queue g.file) {file : Path} {n : Nat}
    (hlock : t.lock? file = some n) (hstays : (queue g.file).erase client = [] → n ≠ g.lock) :
    (t.release client).lock? file = some n := by
  have hdistinct := h.distinct_release g.file ((queue g.file).erase client = [])
  rw [← h.files_release hcongr hguard hclient] at hdistinct
  obtain ⟨f, hentry, hsame⟩ := h.lock?_eq_some_iff.mp hlock
  exact (SharedLocks.lock?_eq_some_iff hdistinct).mpr
    ⟨f, (h.mem_entries_release hcongr hguard hclient).mpr ⟨hentry, hstays⟩, hsame⟩

/-- The lock is done with if the client was the last one, and else has two handles less. -/
theorem Represents.lock_release (h : t.Represents files queue queued?)
    (hcongr : ∀ {f g : Path}, f.sameAs g = true → queue f = queue g)
    (hguard : t.guard? client = some g) (hclient : client ∈ queue g.file) :
    (t.release client).lock g.lock =
      if (queue g.file).erase client = [] then ⟨0, []⟩
      else ⟨1 + 2 * ((queue g.file).erase client).length, (queue g.file).erase client⟩ := by
  have hlength := List.length_erase_of_mem hclient
  have hpos := List.length_pos_of_mem hclient
  have htwo := h.handles_eq_two_iff hcongr hguard hclient
  rw [SharedLocks.lock_release hguard (h.guard_lock hguard), if_pos rfl]
  simp only [htwo]
  rw [h.lock_guard hcongr hguard]
  by_cases hleft : (queue g.file).erase client = []
  · rw [if_pos hleft, if_pos hleft, hleft]
    rw [hleft, List.length_nil] at hlength
    congr 1
    change 1 + 2 * (queue g.file).length - 3 = 0
    omega
  · rw [if_neg hleft, if_neg hleft]
    congr 1
    change 1 + 2 * (queue g.file).length - 2 = _
    omega

end

/-- The last client takes the entry of the file with it, and no handle of its lock is left; if there
are others the entry stays. -/
theorem Represents.release (h : t.Represents files queue queued?)
    (hcongr : ∀ {f g : Path}, f.sameAs g = true → queue f = queue g)
    (hstands : ∀ {client f}, queued? client = some f → client ∈ queue f)
    {client : κ} {file : Path} (hqueued : queued? client = some file) {queue' : Path → List κ}
    (hqueue : ∀ g, queue' g = if file.sameAs g then (queue g).erase client else queue g) :
    (t.release client).Represents
      (if (queue file).erase client = [] then files.filter (! ·.sameAs file) else files) queue'
      fun other => if other = client then none else queued? other := by
  obtain ⟨g, hguard, rfl⟩ : ∃ g, t.guard? client = some g ∧ g.file = file :=
    Option.map_eq_some_iff.mp ((h.guard_file client).trans hqueued)
  have hlock := h.guard_lock hguard
  have hclient := hstands hqueued
  have hentries := h.entries_release hcongr hguard hclient
  have hstays : ∀ {e}, e ∈ (t.release client).entries ↔
      e ∈ t.entries ∧ ((queue g.file).erase client = [] → e.2 ≠ g.lock) :=
    h.mem_entries_release hcongr hguard hclient
  have hothers : ∀ n, n ≠ g.lock → (t.release client).lock n = t.lock n :=
    fun n hn => (SharedLocks.lock_release hguard hlock n).trans (if_neg hn)
  refine ⟨h.files_release hcongr hguard hclient, h.distinct_release _ _, ?_, fun e he => ?_,
    fun e he => ?_, fun n hn => ?_, fun other => ?_, fun {other g'} hg' => ?_⟩
  · rw [hentries]
    split
    · exact h.nodup.sublist (List.filter_sublist.map _)
    · exact h.nodup
  · rw [made_release]
    exact h.lt_made e (hstays.mp he).1
  · obtain ⟨he, hleft⟩ := hstays.mp he
    have hiff := h.lock_eq_iff hlock he
    rw [hqueue, Path.sameAs_comm]
    by_cases hn : e.2 = g.lock
    · have hsame := hiff.mp hn
      rw [if_pos hsame, hcongr hsame, hn, h.lock_release hcongr hguard hclient,
        if_neg fun hnil => hleft hnil hn]
    · rw [if_neg (mt hiff.mpr hn), hothers _ hn, h.lock_eq e he]
  · by_cases hgone : n = g.lock
    · obtain ⟨f, hentry, -⟩ := h.lock?_eq_some_iff.mp hlock
      rw [hgone] at hn ⊢
      -- the lock is out of the table, so there was no other client
      rw [h.lock_release hcongr hguard hclient, if_pos]
      by_contra hmore
      exact hn (List.mem_map.mpr ⟨_, hstays.mpr ⟨hentry, fun hnil => absurd hnil hmore⟩, rfl⟩)
    · rw [hothers n hgone]
      apply h.freed
      intro hmem
      obtain ⟨e, he, rfl⟩ := List.mem_map.mp hmem
      exact hn (List.mem_map.mpr ⟨e, hstays.mpr ⟨he, fun _ => hgone⟩, rfl⟩)
  · rw [guard?_release, ← h.guard_file other]
    split <;> rfl
  · rw [guard?_release] at hg'
    split at hg'
    · cases hg'
    · rename_i hother
      have hfound := h.guard_lock hg'
      refine h.lock?_release hcongr hguard hclient hfound fun hleft hn => ?_
      -- the last client is the only one that stands in the queue
      have hstanding : other ∈ queue g.file := by
        rw [← hcongr (h.sameAs_of_lock? (hn ▸ hfound) hlock)]
        exact hstands ((h.guard_file other).symm.trans (congrArg (Option.map LockGuard.file) hg'))
      have hrest := (List.mem_erase_of_ne hother).mpr hstanding
      rw [hleft] at hrest
      exact absurd hrest List.not_mem_nil

end

end SharedLocks

end JsonCollections
