import JsonCollections.Proofs.Storage.Laws
import JsonCollections.Session.LockTable

set_option autoImplicit false

/-!
# The queues of a lock table

Asking for a file puts the client at the end of its queue and leaves every other queue alone
(`queue_request`); leaving takes the client out of the queue (`queue_release`).  Both keep one entry
for a file at most, and a file that is spelled in another way has the same queue (`queue_congr`).

No entry is without clients (`Occupied`), so the files with an entry are those with a queue
(`exists_mem_files_iff`).
-/

namespace JsonCollections.LockTable

variable {κ : Type}

/-- A file has one entry at most. -/
def WellFormed (table : LockTable κ) : Prop :=
  table.Pairwise fun a b => a.1.sameAs b.1 = false

/-- Every entry has a client. -/
def Occupied (table : LockTable κ) : Prop := ∀ entry ∈ table, entry.2 ≠ []

/-- The files that have an entry. -/
def files (table : LockTable κ) : List Path := table.map Prod.fst

/-! ## Looking -/

theorem queue_nil (file : Path) : queue ([] : LockTable κ) file = [] := rfl

theorem queue_cons (f : Path) (clients : List κ) (rest : LockTable κ) (file : Path) :
    queue ((f, clients) :: rest) file = if f.sameAs file then clients else queue rest file := by
  unfold queue
  rw [List.find?_cons]
  cases f.sameAs file <;> rfl

theorem queue_congr (table : LockTable κ) {f g : Path} (h : f.sameAs g = true) :
    table.queue f = table.queue g := by
  induction table with
  | nil => rfl
  | cons entry rest ih =>
    rw [queue_cons, queue_cons, ih, Path.sameAs_comm entry.1 f, Path.sameAs_congr h,
      Path.sameAs_comm g]

/-- A file without an entry of its own has no queue. -/
theorem queue_eq_nil {table : LockTable κ} {file : Path}
    (h : ∀ entry ∈ table, file.sameAs entry.1 = false) : table.queue file = [] := by
  induction table with
  | nil => rfl
  | cons entry rest ih =>
    obtain ⟨hentry, hrest⟩ := List.forall_mem_cons.mp h
    rw [queue_cons, Path.sameAs_comm, hentry, if_neg Bool.false_ne_true, ih hrest]

/-- A file has an entry exactly if it has a queue. -/
theorem exists_mem_files_iff {table : LockTable κ} (h : table.Occupied) (file : Path) :
    (∃ f ∈ table.files, f.sameAs file = true) ↔ table.queue file ≠ [] := by
  induction table with
  | nil => simp [files, queue_nil]
  | cons entry rest ih =>
    obtain ⟨hentry, hrest⟩ := List.forall_mem_cons.mp h
    rw [queue_cons]
    by_cases hf : entry.1.sameAs file = true
    · rw [if_pos hf]
      exact ⟨fun _ => hentry, fun _ => ⟨entry.1, List.mem_cons_self, hf⟩⟩
    · rw [if_neg hf, ← ih hrest]
      constructor
      · rintro ⟨f, hmem, hsame⟩
        rcases List.mem_cons.mp hmem with rfl | hmem
        · exact absurd hsame hf
        · exact ⟨f, hmem, hsame⟩
      · rintro ⟨f, hmem, hsame⟩
        exact ⟨f, List.mem_cons_of_mem _ hmem, hsame⟩

/-! ## Asking -/

theorem queue_request (file : Path) (client : κ) (table : LockTable κ) (g : Path) :
    (table.request file client).queue g =
      if file.sameAs g then table.queue g ++ [client] else table.queue g := by
  induction table with
  | nil =>
    rw [request, queue_cons]
    rfl
  | cons entry rest ih =>
    obtain ⟨f, clients⟩ := entry
    rw [request]
    by_cases hf : f.sameAs file = true
    · rw [if_pos hf, queue_cons, queue_cons, Path.sameAs_congr hf]
      split <;> rfl
    · rw [if_neg hf, queue_cons, queue_cons, ih]
      by_cases hg : f.sameAs g = true
      · rw [if_pos hg, if_pos hg, if_neg (Path.not_sameAs_of_sameAs hf hg)]
      · rw [if_neg hg, if_neg hg]

theorem mem_request {file : Path} {client : κ} {table : LockTable κ} {entry : Path × List κ}
    (h : entry ∈ table.request file client) :
    entry.1 = file ∨ ∃ old ∈ table, old.1 = entry.1 := by
  induction table with
  | nil => exact .inl (by rw [List.mem_singleton.mp h])
  | cons first rest ih =>
    obtain ⟨f, clients⟩ := first
    rw [request] at h
    split at h
    · rcases List.mem_cons.mp h with rfl | h
      · exact .inr ⟨_, List.mem_cons_self, rfl⟩
      · exact .inr ⟨entry, List.mem_cons_of_mem _ h, rfl⟩
    · rcases List.mem_cons.mp h with rfl | h
      · exact .inr ⟨_, List.mem_cons_self, rfl⟩
      · rcases ih h with h | ⟨old, hold, h⟩
        · exact .inl h
        · exact .inr ⟨old, List.mem_cons_of_mem _ hold, h⟩

theorem wellFormed_request {table : LockTable κ} (h : table.WellFormed) (file : Path)
    (client : κ) : (table.request file client).WellFormed := by
  induction table with
  | nil => exact List.pairwise_singleton _ _
  | cons entry rest ih =>
    obtain ⟨f, clients⟩ := entry
    obtain ⟨hfirst, hrest⟩ := List.pairwise_cons.mp h
    rw [request]
    by_cases hf : f.sameAs file = true
    · rw [if_pos hf]
      exact List.pairwise_cons.mpr ⟨hfirst, hrest⟩
    · rw [if_neg hf]
      refine List.pairwise_cons.mpr ⟨?_, ih hrest⟩
      intro entry hentry
      rcases mem_request hentry with h | ⟨old, hold, h⟩
      · rw [h]
        exact Bool.eq_false_iff.mpr hf
      · rw [← h]
        exact hfirst old hold

theorem files_request (file : Path) (client : κ) (table : LockTable κ) :
    (table.request file client).files =
      if table.files.any (·.sameAs file) then table.files else table.files ++ [file] := by
  induction table with
  | nil => rfl
  | cons entry rest ih =>
    obtain ⟨f, clients⟩ := entry
    simp only [files, List.map_cons, List.any_cons] at ih ⊢
    rw [request]
    cases hf : f.sameAs file with
    | true => rfl
    | false =>
      simp only [Bool.false_eq_true, if_false, Bool.false_or, List.map_cons, ih]
      exact apply_ite (List.cons f) _ _ _

theorem occupied_request {table : LockTable κ} (h : table.Occupied) (file : Path) (client : κ) :
    (table.request file client).Occupied := by
  induction table with
  | nil => exact List.forall_mem_singleton.mpr (List.cons_ne_nil client [])
  | cons entry rest ih =>
    obtain ⟨f, clients⟩ := entry
    obtain ⟨hentry, hrest⟩ := List.forall_mem_cons.mp h
    rw [request]
    split
    · have hleft : clients ++ [client] ≠ [] := List.append_ne_nil_of_left_ne_nil hentry _
      exact List.forall_mem_cons.mpr ⟨hleft, hrest⟩
    · exact List.forall_mem_cons.mpr ⟨hentry, ih hrest⟩

/-! ## Leaving -/

variable [BEq κ]

theorem mem_release {file : Path} {client : κ} {table : LockTable κ} {entry : Path × List κ}
    (h : entry ∈ table.release file client) : ∃ old ∈ table, old.1 = entry.1 := by
  induction table with
  | nil => exact absurd h List.not_mem_nil
  | cons first rest ih =>
    obtain ⟨f, clients⟩ := first
    rw [release] at h
    split at h
    · split at h
      · exact ⟨entry, List.mem_cons_of_mem _ h, rfl⟩
      · rcases List.mem_cons.mp h with rfl | h
        · exact ⟨_, List.mem_cons_self, rfl⟩
        · exact ⟨entry, List.mem_cons_of_mem _ h, rfl⟩
    · rcases List.mem_cons.mp h with rfl | h
      · exact ⟨_, List.mem_cons_self, rfl⟩
      · obtain ⟨old, hold, h⟩ := ih h
        exact ⟨old, List.mem_cons_of_mem _ hold, h⟩

theorem wellFormed_release {table : LockTable κ} (h : table.WellFormed) (file : Path)
    (client : κ) : (table.release file client).WellFormed := by
  induction table with
  | nil => exact List.Pairwise.nil
  | cons entry rest ih =>
    obtain ⟨f, clients⟩ := entry
    obtain ⟨hfirst, hrest⟩ := List.pairwise_cons.mp h
    rw [release]
    split
    · split
      · exact hrest
      · exact List.pairwise_cons.mpr ⟨hfirst, hrest⟩
    · refine List.pairwise_cons.mpr ⟨?_, ih hrest⟩
      intro entry hentry
      obtain ⟨old, hold, h⟩ := mem_release hentry
      rw [← h]
      exact hfirst old hold

theorem queue_release {table : LockTable κ} (h : table.WellFormed) (file : Path) (client : κ)
    (g : Path) : (table.release file client).queue g =
      if file.sameAs g then (table.queue g).erase client else table.queue g := by
  induction table with
  | nil =>
    rw [release, queue_nil]
    split <;> rfl
  | cons entry rest ih =>
    obtain ⟨f, clients⟩ := entry
    obtain ⟨hfirst, hrest⟩ := List.pairwise_cons.mp h
    rw [release]
    by_cases hf : f.sameAs file = true
    · rw [if_pos hf]
      by_cases hg : f.sameAs g = true
      · have hfile : file.sameAs g = true := by rw [← Path.sameAs_congr hf, hg]
        rw [queue_cons, if_pos hg, if_pos hfile]
        split
        · -- the entry is gone, and there is no other one for the file
          rename_i hleft
          rw [hleft]
          apply queue_eq_nil
          intro entry hentry
          rw [← Path.sameAs_congr hg]
          exact hfirst entry hentry
        · rw [queue_cons, if_pos hg]
      · have hfile : ¬ file.sameAs g = true := by rwa [← Path.sameAs_congr hf]
        rw [queue_cons, if_neg hg, if_neg hfile]
        split
        · rfl
        · rw [queue_cons, if_neg hg]
    · rw [if_neg hf, queue_cons, queue_cons, ih hrest]
      by_cases hg : f.sameAs g = true
      · rw [if_pos hg, if_pos hg, if_neg (Path.not_sameAs_of_sameAs hf hg)]
      · rw [if_neg hg, if_neg hg]

/-- The entry of a file goes with its last client. -/
theorem files_release {table : LockTable κ} (h : table.WellFormed) (file : Path) (client : κ) :
    (table.release file client).files =
      if (table.queue file).erase client = [] then table.files.filter (! ·.sameAs file)
      else table.files := by
  induction table with
  | nil => simp [release, files]
  | cons entry rest ih =>
    obtain ⟨f, clients⟩ := entry
    obtain ⟨hfirst, hrest⟩ := List.pairwise_cons.mp h
    rw [release, queue_cons]
    cases hf : f.sameAs file with
    | true =>
      have hothers : (files rest).filter (! ·.sameAs file) = files rest := by
        refine List.filter_eq_self.mpr fun g hg => ?_
        obtain ⟨other, hother, rfl⟩ := List.mem_map.mp hg
        have hne := hfirst other hother
        rw [Path.sameAs_congr hf, Path.sameAs_comm] at hne
        rw [hne]
        rfl
      simp only [if_true]
      split
      · rename_i hleft
        simp only [files, List.map_cons] at hothers ⊢
        rw [if_pos hleft, List.filter_cons_of_neg (by simp [hf]), hothers]
      · rename_i hleft
        rw [if_neg hleft]
        rfl
    | false =>
      simp only [files, List.map_cons, Bool.false_eq_true, if_false] at ih ⊢
      rw [ih hrest, List.filter_cons_of_pos (by simp [hf])]
      split <;> rfl

theorem occupied_release {table : LockTable κ} (h : table.Occupied) (file : Path) (client : κ) :
    (table.release file client).Occupied := by
  induction table with
  | nil => exact h
  | cons entry rest ih =>
    obtain ⟨f, clients⟩ := entry
    obtain ⟨hentry, hrest⟩ := List.forall_mem_cons.mp h
    rw [release]
    split
    · split
      · exact hrest
      · rename_i hleft
        exact List.forall_mem_cons.mpr ⟨hleft, hrest⟩
    · exact List.forall_mem_cons.mpr ⟨hentry, ih hrest⟩

end JsonCollections.LockTable
