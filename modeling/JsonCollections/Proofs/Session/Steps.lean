import JsonCollections.Proofs.Collection.Reload
import JsonCollections.Proofs.Session.Locks

set_option autoImplicit false

/-!
# What a step does to a slot

A client's slot changes by the client's own steps only.  Most of them leave it what it is: a step is
quiet for a client unless it loads for the client or drops it, and in quiet steps a client that holds
a collection goes on holding one of the same file, and one that waits goes on waiting until it polls
with success.
-/

namespace JsonCollections.Session

variable {σ : Type}

/-- The step is one of the client's. -/
def Step.By (client : String) : Step σ → Prop
  | .load other _ | .loadForWrite other _ | .poll other | .mutate other _ | .drop other =>
    other = client
  | .outside _ => False

/-- The step neither loads for the client nor drops it. -/
def Step.Quiet (client : String) : Step σ → Prop
  | .load other _ | .loadForWrite other _ | .drop other => other ≠ client
  | .poll _ | .mutate _ _ | .outside _ => True

variable [Storage σ]

theorem run_append (s : Session σ) (steps more : List (Step σ)) :
    s.run (steps ++ more) = (s.run steps).run more := List.foldl_append

theorem run_concat (s : Session σ) (steps : List (Step σ)) (step : Step σ) :
    s.run (steps ++ [step]) = (s.run steps).step step := run_append s steps [step]

/-! ## Loading for a client that waits -/

/-- How an attempt of a client ends that stands in the queue of a file. -/
inductive Proceeded (s : Session σ) (client urlPath : String) (file : Path) :
    Session σ × LoadOutcome → Prop where
  | blocked (howner : s.locks.owner? file ≠ some client) :
      Proceeded s client urlPath file (s, .blocked)
  | loaded {c : Collection} (howner : s.locks.owner? file = some client)
      (hload : Collection.load s.store s.library urlPath = .ok c) :
      Proceeded s client urlPath file
        (s.withSlot client (.holding c (some file)), .loaded c)
  | failed {error : LoadError} (howner : s.locks.owner? file = some client)
      (hload : Collection.load s.store s.library urlPath = .error error) :
      Proceeded s client urlPath file (s.drop client, .failed error)

theorem proceeded (s : Session σ) (client urlPath : String) (file : Path) :
    Proceeded s client urlPath file (s.proceed client urlPath file) := by
  unfold proceed
  split
  · rename_i howner
    split
    · exact .loaded howner ‹_›
    · exact .failed howner ‹_›
  · exact .blocked ‹_›

theorem slot?_proceed_of_ne (s : Session σ) {client other : String} (h : client ≠ other)
    (urlPath : String) (file : Path) :
    (s.proceed client urlPath file).1.slot? other = s.slot? other := by
  have hproceeded := proceeded s client urlPath file
  generalize s.proceed client urlPath file = after at hproceeded
  cases hproceeded with
  | blocked => rfl
  | loaded => exact (slot?_withSlot s client _ other).trans (if_neg h.symm)
  | failed => exact (slot?_drop s client other).trans (if_neg h.symm)

theorem library_proceed (s : Session σ) (client urlPath : String) (file : Path) :
    (s.proceed client urlPath file).1.library = s.library := by
  have hproceeded := proceeded s client urlPath file
  generalize s.proceed client urlPath file = after at hproceeded
  cases hproceeded <;> rfl

/-! ## Other clients -/

/-- What other clients do leaves a slot alone. -/
theorem slot?_step_of_not_by (s : Session σ) {step : Step σ} {client : String}
    (h : ¬ step.By client) : (s.step step).slot? client = s.slot? client := by
  cases step with
  | load other urlPath =>
    have hne : client ≠ other := fun heq => h heq.symm
    simp only [Session.step, Session.load]
    split
    · rw [slot?_withSlot, if_neg hne, slot?_drop, if_neg hne]
    · rw [slot?_drop, if_neg hne]
  | loadForWrite other urlPath =>
    have hne : client ≠ other := fun heq => h heq.symm
    simp only [Session.step, Session.loadForWrite]
    split
    · rw [slot?_drop, if_neg hne]
    · rw [slot?_proceed_of_ne _ hne.symm, slot?_withSlot, if_neg hne]
      exact (slot?_drop s other client).trans (if_neg hne)
  | poll other =>
    simp only [Session.step, Session.poll]
    split
    · exact slot?_proceed_of_ne s h _ _
    · rfl
  | mutate other m =>
    have hne : client ≠ other := fun heq => h heq.symm
    simp only [Session.step, Session.mutate]
    split
    · rw [slot?_withSlot, if_neg hne]
      rfl
    · rfl
  | drop other =>
    have hne : client ≠ other := fun heq => h heq.symm
    exact (slot?_drop s other client).trans (if_neg hne)
  | outside change => rfl

theorem library_step (s : Session σ) (step : Step σ) : (s.step step).library = s.library := by
  cases step with
  | load client urlPath =>
    simp only [Session.step, Session.load]
    split <;> rfl
  | loadForWrite client urlPath =>
    simp only [Session.step, Session.loadForWrite]
    split
    · rfl
    · rw [library_proceed]
      rfl
  | poll client =>
    simp only [Session.step, Session.poll]
    split
    · exact library_proceed s client _ _
    · rfl
  | mutate client m =>
    simp only [Session.step, Session.mutate]
    split <;> rfl
  | drop client => rfl
  | outside change => rfl

theorem library_run (s : Session σ) (steps : List (Step σ)) :
    (s.run steps).library = s.library := by
  induction steps generalizing s with
  | nil => rfl
  | cons step rest ih => exact (ih (s.step step)).trans (library_step s step)

/-! ## Own steps -/

/-- The session in which a client stands at the end of a queue, whatever it had before. -/
def enqueue (s : Session σ) (client urlPath : String) (file : Path) : Session σ :=
  ({ s.drop client with locks := (s.drop client).locks.request file client } : Session σ).withSlot
    client (.waiting urlPath file)

/-- How asking for the lock of the file behind a URL path ends. -/
inductive Asked (s : Session σ) (client urlPath : String) : Session σ × LoadOutcome → Prop where
  | nowhere (hresolve : Location.resolve s.store s.library.base urlPath = none) :
      Asked s client urlPath (s.drop client, .failed .notFound)
  | somewhere {file : Path} {after : Session σ × LoadOutcome}
      (hresolve : Location.resolve s.store s.library.base urlPath = some file)
      (hafter : Proceeded (s.enqueue client urlPath file) client urlPath file after) :
      Asked s client urlPath after

theorem asked (s : Session σ) (client urlPath : String) :
    Asked s client urlPath (s.loadForWrite client urlPath) := by
  unfold loadForWrite
  simp only
  split
  · exact .nowhere ‹_›
  · exact .somewhere ‹_› (proceeded _ client urlPath _)

/-- A client that waits polls by trying to go on. -/
theorem poll_waiting {s : Session σ} {client urlPath : String} {file : Path}
    (h : s.slot? client = some (.waiting urlPath file)) :
    s.poll client =
      ((s.proceed client urlPath file).1, some (s.proceed client urlPath file).2) := by
  simp only [Session.poll, h]

/-- A client that does not wait polls in vain. -/
theorem poll_not_waiting {s : Session σ} {client : String}
    (h : ∀ urlPath file, s.slot? client ≠ some (.waiting urlPath file)) :
    s.poll client = (s, none) := by
  unfold poll
  split
  · exact absurd ‹_› (h _ _)
  · rfl

/-- A poll loads for a client that waits, and then the client holds the lock. -/
theorem slot?_poll_of_loaded {s : Session σ} {client : String} {c : Collection}
    (h : (s.poll client).2 = some (.loaded c)) :
    ∃ urlPath file, s.slot? client = some (.waiting urlPath file) ∧
      Collection.load s.store s.library urlPath = .ok c ∧
      (s.poll client).1.slot? client = some (.holding c (some file)) := by
  by_cases hwaiting : ∃ urlPath file, s.slot? client = some (.waiting urlPath file)
  · obtain ⟨urlPath, file, hslot⟩ := hwaiting
    refine ⟨urlPath, file, hslot, ?_⟩
    rw [poll_waiting hslot] at h ⊢
    have hproceeded := proceeded s client urlPath file
    generalize s.proceed client urlPath file = after at h hproceeded
    cases hproceeded with
    | blocked => cases h
    | failed => cases h
    | loaded howner hload =>
      cases h
      refine ⟨hload, ?_⟩
      rw [slot?_withSlot, if_pos rfl]
  · rw [poll_not_waiting fun urlPath file hslot => hwaiting ⟨urlPath, file, hslot⟩] at h
    cases h

/-! ## Quiet steps -/

/-- What a quiet step makes of a slot. -/
inductive Kept (s : Session σ) (step : Step σ) (client : String) :
    Option Slot → Option Slot → Prop where
  | same (slot : Option Slot) : Kept s step client slot slot
  | changed {c d : Collection} {lock : Option Path} (hfile : Collection.SameFile c d) :
      Kept s step client (some (.holding c lock)) (some (.holding d lock))
  | loaded {urlPath : String} {file : Path} {c : Collection} (hstep : step = .poll client)
      (hpoll : (s.poll client).2 = some (.loaded c))
      (hload : Collection.load s.store s.library urlPath = .ok c) :
      Kept s step client (some (.waiting urlPath file)) (some (.holding c (some file)))
  | failed (urlPath : String) (file : Path) :
      Kept s step client (some (.waiting urlPath file)) none

theorem kept_poll (s : Session σ) (client : String) :
    Kept s (.poll client) client (s.slot? client) ((s.poll client).1.slot? client) := by
  by_cases hwaiting : ∃ urlPath file, s.slot? client = some (.waiting urlPath file)
  · obtain ⟨urlPath, file, hslot⟩ := hwaiting
    have hpoll := poll_waiting hslot
    have hproceeded := proceeded s client urlPath file
    generalize s.proceed client urlPath file = after at hpoll hproceeded
    rw [hpoll, hslot]
    cases hproceeded with
    | blocked =>
      rw [hslot]
      exact .same _
    | loaded howner hload =>
      rw [slot?_withSlot, if_pos rfl]
      exact .loaded rfl (congrArg Prod.snd hpoll) hload
    | failed =>
      rw [slot?_drop, if_pos rfl]
      exact .failed urlPath file
  · rw [poll_not_waiting fun urlPath file hslot => hwaiting ⟨urlPath, file, hslot⟩]
    exact .same _

theorem kept_mutate (s : Session σ) (client : String) (m : Mutation) :
    Kept s (.mutate client m) client (s.slot? client) ((s.mutate client m).1.slot? client) := by
  unfold mutate
  split
  · rename_i c lock hslot
    rw [hslot, slot?_withSlot, if_pos rfl]
    exact .changed (Collection.sameFile_mutate c s.store m)
  · exact .same _

/-- In a quiet step a client keeps what it has, or is done waiting. -/
theorem kept (s : Session σ) {step : Step σ} {client : String} (hquiet : step.Quiet client) :
    Kept s step client (s.slot? client) ((s.step step).slot? client) := by
  by_cases hby : step.By client
  · cases step with
    | load other _ | loadForWrite other _ | drop other => exact absurd hby hquiet
    | outside change => exact absurd hby id
    | poll other =>
      obtain rfl : other = client := hby
      exact kept_poll s other
    | mutate other m =>
      obtain rfl : other = client := hby
      exact kept_mutate s other m
  · rw [slot?_step_of_not_by s hby]
    exact .same _

/-- What a step leaves in a slot that is not quiet. -/
inductive Begun (s : Session σ) (step : Step σ) (client : String) : Option Slot → Prop where
  | empty : Begun s step client none
  | unlocked (c : Collection) : Begun s step client (some (.holding c none))
  | waiting {urlPath : String} {file : Path} (hstep : step = .loadForWrite client urlPath)
      (hresolve : Location.resolve s.store s.library.base urlPath = some file) :
      Begun s step client (some (.waiting urlPath file))
  | holding {urlPath : String} {file : Path} {c : Collection}
      (hstep : step = .loadForWrite client urlPath)
      (hresolve : Location.resolve s.store s.library.base urlPath = some file)
      (hload : Collection.load s.store s.library urlPath = .ok c) :
      Begun s step client (some (.holding c (some file)))

/-- In a step that is not quiet a client begins anew. -/
theorem begun (s : Session σ) {step : Step σ} {client : String} (h : ¬ step.Quiet client) :
    Begun s step client ((s.step step).slot? client) := by
  have hdrop : (s.drop client).slot? client = none := by rw [slot?_drop, if_pos rfl]
  cases step with
  | poll _ | mutate _ _ | outside _ => exact absurd trivial h
  | drop other =>
    obtain rfl : other = client := not_not.mp h
    change Begun s _ other ((s.drop other).slot? other)
    rw [hdrop]
    exact .empty
  | load other urlPath =>
    obtain rfl : other = client := not_not.mp h
    simp only [Session.step, Session.load]
    split
    · rw [slot?_withSlot, if_pos rfl]
      exact .unlocked _
    · rw [hdrop]
      exact .empty
  | loadForWrite other urlPath =>
    obtain rfl : other = client := not_not.mp h
    have hasked := asked s other urlPath
    change Begun s _ other ((s.loadForWrite other urlPath).1.slot? other)
    generalize s.loadForWrite other urlPath = after at hasked
    cases hasked with
    | nowhere =>
      rw [hdrop]
      exact .empty
    | somewhere hresolve hafter =>
      cases hafter with
      | blocked =>
        rw [enqueue, slot?_withSlot, if_pos rfl]
        exact .waiting rfl hresolve
      | loaded howner hload =>
        rw [slot?_withSlot, if_pos rfl]
        exact .holding rfl hresolve hload
      | failed =>
        rw [slot?_drop, if_pos rfl]
        exact .empty

/-- A client that holds a collection goes on holding one of the same file. -/
theorem slot?_holding_run {s : Session σ} {steps : List (Step σ)} {client : String}
    {c : Collection} {lock : Option Path} (hquiet : ∀ step ∈ steps, step.Quiet client)
    (h : s.slot? client = some (.holding c lock)) :
    ∃ d, (s.run steps).slot? client = some (.holding d lock) ∧ Collection.SameFile c d := by
  induction steps generalizing s c with
  | nil => exact ⟨c, h, Collection.SameFile.refl c⟩
  | cons step rest ih =>
    obtain ⟨hstep, hrest⟩ := List.forall_mem_cons.mp hquiet
    have hkept := kept s hstep
    rw [h] at hkept
    generalize hafter : (s.step step).slot? client = after at hkept
    cases hkept with
    | same => exact ih hrest hafter
    | changed hfile =>
      obtain ⟨d, hd, hcd⟩ := ih hrest hafter
      exact ⟨d, hd, hfile.trans hcd⟩

/-- A client that waits after quiet steps has waited before. -/
theorem slot?_waiting_of_run {s : Session σ} {steps : List (Step σ)} {client urlPath : String}
    {file : Path} (hquiet : ∀ step ∈ steps, step.Quiet client)
    (h : (s.run steps).slot? client = some (.waiting urlPath file)) :
    s.slot? client = some (.waiting urlPath file) := by
  induction steps generalizing s with
  | nil => exact h
  | cons step rest ih =>
    obtain ⟨hstep, hrest⟩ := List.forall_mem_cons.mp hquiet
    have hkept := kept s hstep
    rw [ih hrest h] at hkept
    generalize hbefore : s.slot? client = before at hkept
    cases hkept with
    | same => rfl

end JsonCollections.Session
