import JsonCollections.Proofs.Session.Steps
import Mathlib.Data.List.Induction

set_option autoImplicit false

/-!
# The lock of a holder and the file it writes

A lock has one holder.  It is the lock of the file that the holder writes, except where the client
had to wait and the place of its URL path became a directory, or ceased to be one, before it got the
lock: the lock is chosen when it is asked for, and the file when the collection is loaded
(`MovedWhileWaiting`, `not_sameAs_lock_iff`).  Then two holders can write one file.

The history of a slot is found from the end of the steps: a client that waits has asked, and a client
that holds has asked and loaded, in the same step or in a later one.
-/

namespace JsonCollections.Session

variable {σ : Type} [Storage σ]

/-- The place of a URL path is a directory. -/
def leadsInside (s : Session σ) (urlPath : String) : Bool :=
  Storage.isDirectory s.store (Location.place s.library.base urlPath)

/-- The client asked for the lock of the file behind a URL path, waited for it and loaded when it
polled, and in between the place of the URL path became a directory or ceased to be one. -/
def MovedWhileWaiting (s : Session σ) (steps : List (Step σ)) (client urlPath : String) : Prop :=
  ∃ before wait after c,
    steps = before ++ .loadForWrite client urlPath :: (wait ++ .poll client :: after) ∧
    (∀ step ∈ wait, step.Quiet client) ∧ (∀ step ∈ after, step.Quiet client) ∧
    ((s.run (before ++ .loadForWrite client urlPath :: wait)).poll client).2 = some (.loaded c) ∧
    (s.run before).leadsInside urlPath ≠
      (s.run (before ++ .loadForWrite client urlPath :: wait)).leadsInside urlPath

/-! ## Histories -/

omit [Storage σ] in
theorem quiet_concat {steps : List (Step σ)} {step : Step σ} {client : String}
    (hsteps : ∀ step ∈ steps, step.Quiet client) (hstep : step.Quiet client) :
    ∀ other ∈ steps ++ [step], other.Quiet client := by
  intro other hother
  rcases List.mem_append.mp hother with hother | hother
  · exact hsteps other hother
  · rwa [List.mem_singleton.mp hother]

/-- A client that waits has asked for the lock of the file that its URL path led to. -/
theorem exists_request_of_waiting {s : Session σ} {client : String}
    (hfresh : s.slot? client = none) {steps : List (Step σ)} {urlPath : String} {file : Path}
    (h : (s.run steps).slot? client = some (.waiting urlPath file)) :
    ∃ before wait, steps = before ++ .loadForWrite client urlPath :: wait ∧
      (∀ step ∈ wait, step.Quiet client) ∧
      Location.resolve (s.run before).store s.library.base urlPath = some file := by
  induction steps using List.reverseRecOn with
  | nil =>
    change s.slot? client = _ at h
    rw [hfresh] at h
    cases h
  | append_singleton steps step ih =>
    rw [run_concat] at h
    by_cases hquiet : step.Quiet client
    · have hkept := kept (s.run steps) hquiet
      rw [h] at hkept
      generalize hbefore : (s.run steps).slot? client = slot at hkept
      cases hkept with
      | same =>
        obtain ⟨before, wait, rfl, hwait, hresolve⟩ := ih hbefore
        refine ⟨before, wait ++ [step], ?_, quiet_concat hwait hquiet, hresolve⟩
        rw [List.append_assoc, List.cons_append]
    · have hbegun := begun (s.run steps) hquiet
      rw [h] at hbegun
      cases hbegun with
      | waiting hstep hresolve =>
        rw [library_run] at hresolve
        exact ⟨steps, [], by rw [hstep], fun _ hmem => absurd hmem List.not_mem_nil, hresolve⟩

/-- A client that holds a lock has asked for it when its URL path led to the file of the lock, and
has loaded at once, or later when it polled. -/
theorem exists_request_of_holding {s : Session σ} {client : String}
    (hfresh : s.slot? client = none) {steps : List (Step σ)} {c : Collection} {lock : Path}
    (h : (s.run steps).slot? client = some (.holding c (some lock))) :
    c.filePath = lock ∨ ∃ before wait after d,
      steps = before ++ .loadForWrite client c.urlPath :: (wait ++ .poll client :: after) ∧
      (∀ step ∈ wait, step.Quiet client) ∧ (∀ step ∈ after, step.Quiet client) ∧
      ((s.run (before ++ .loadForWrite client c.urlPath :: wait)).poll client).2 =
        some (.loaded d) ∧
      Location.resolve (s.run before).store s.library.base c.urlPath = some lock ∧
      Location.resolve (s.run (before ++ .loadForWrite client c.urlPath :: wait)).store
        s.library.base c.urlPath = some c.filePath := by
  induction steps using List.reverseRecOn generalizing c with
  | nil =>
    change s.slot? client = _ at h
    rw [hfresh] at h
    cases h
  | append_singleton steps step ih =>
    rw [run_concat] at h
    by_cases hquiet : step.Quiet client
    · have hkept := kept (s.run steps) hquiet
      rw [h] at hkept
      generalize hbefore : (s.run steps).slot? client = slot at hkept
      cases hkept with
      | same =>
        rcases ih hbefore with hfile | ⟨before, wait, after, d, rfl, hwait, hafter, hpoll⟩
        · exact .inl hfile
        · refine .inr ⟨before, wait, after ++ [step], d, ?_, hwait, quiet_concat hafter hquiet,
            hpoll⟩
          simp only [List.append_assoc, List.cons_append]
      | changed hsame =>
        rcases ih hbefore with hfile | ⟨before, wait, after, d, rfl, hwait, hafter, hpoll⟩
        · exact .inl (hsame.filePath.trans hfile)
        · rw [hsame.urlPath, hsame.filePath]
          refine .inr ⟨before, wait, after ++ [step], d, ?_, hwait, quiet_concat hafter hquiet,
            hpoll⟩
          simp only [List.append_assoc, List.cons_append]
      | loaded hstep hpoll hload =>
        obtain ⟨before, wait, rfl, hwait, hresolve⟩ := exists_request_of_waiting hfresh hbefore
        obtain ⟨text, hplace, -, -, hc⟩ := Collection.load_eq_ok hload
        rw [library_run] at hplace
        obtain rfl : c.urlPath = _ := by rw [hc]
        refine .inr ⟨before, wait, [], c, ?_, hwait, fun _ hmem => absurd hmem List.not_mem_nil,
          hpoll, hresolve, hplace⟩
        rw [hstep, List.append_assoc, List.cons_append]
    · have hbegun := begun (s.run steps) hquiet
      rw [h] at hbegun
      cases hbegun with
      | holding hstep hresolve hload =>
        obtain ⟨text, hplace, -, -, -⟩ := Collection.load_eq_ok hload
        rw [hresolve] at hplace
        exact .inl (Option.some.inj hplace).symm

/-- The lock that a client holds is that of another file than its collection is kept in, exactly if
the place of its URL path became a directory, or ceased to be one, while it waited. -/
theorem not_sameAs_lock_iff {s : Session σ} {client : String} (hfresh : s.slot? client = none)
    {steps : List (Step σ)} {c : Collection} {lock : Path}
    (h : (s.run steps).slot? client = some (.holding c (some lock))) :
    ¬ c.filePath.sameAs lock = true ↔ MovedWhileWaiting s steps client c.urlPath := by
  constructor
  · intro hother
    rcases exists_request_of_holding hfresh h with
      hfile | ⟨before, wait, after, d, hsteps, hwait, hafter, hpoll, hlock, hfile⟩
    · rw [hfile] at hother
      exact absurd (Path.sameAs_refl lock) hother
    · refine ⟨before, wait, after, d, hsteps, hwait, hafter, hpoll, fun hdirectory => hother ?_⟩
      unfold leadsInside at hdirectory
      rw [library_run, library_run] at hdirectory
      exact (Location.sameAs_resolve_iff hfile hlock).mpr hdirectory.symm
  · rintro ⟨before, wait, after, d, rfl, hwait, hafter, hpoll, hdirectory⟩ hsame
    -- the poll is that of the client that asked, so it got the lock that was asked for
    obtain ⟨urlPath, file, hwaiting, hload, hloaded⟩ := slot?_poll_of_loaded hpoll
    rw [run_append] at hwaiting
    have hasked := slot?_waiting_of_run hwait hwaiting
    have hnoisy : ¬ (Step.loadForWrite client c.urlPath : Step σ).Quiet client := fun hne => hne rfl
    have hbegun := begun (s.run before) hnoisy
    rw [hasked] at hbegun
    cases hbegun with
    | waiting hstep hresolve =>
      cases hstep
      obtain ⟨e, he, hde⟩ := slot?_holding_run hafter hloaded
      have hrun : s.run (before ++ .loadForWrite client c.urlPath :: (wait ++ .poll client :: after)) =
          ((s.run (before ++ .loadForWrite client c.urlPath :: wait)).poll client).1.run after := by
        rw [← List.cons_append, ← List.append_assoc, run_append]
        rfl
      rw [hrun, he] at h
      cases h
      obtain ⟨text, hplace, -, -, -⟩ := Collection.load_eq_ok hload
      rw [← hde.filePath, library_run] at hplace
      rw [library_run] at hresolve
      apply hdirectory
      unfold leadsInside
      rw [library_run, library_run]
      exact ((Location.sameAs_resolve_iff hplace hresolve).mp hsame).symm

/-- In a session that began without locks, the lock that a client holds has no other holder.  It is
the lock of the file that the client writes unless the client moved while it waited; so of two
clients that hold collections of one file, one has moved. -/
theorem lock_of_holder (store : σ) (library : Library) (steps : List (Step σ))
    {client : String} {c : Collection} {lock : Path}
    (h : (({ store, library } : Session σ).run steps).slot? client =
      some (.holding c (some lock))) :
    (¬ c.filePath.sameAs lock = true ↔
        MovedWhileWaiting { store, library } steps client c.urlPath) ∧
      ∀ other d lock', (({ store, library } : Session σ).run steps).slot? other =
          some (.holding d (some lock')) →
        (lock.sameAs lock' = true → other = client) ∧
        (c.filePath.sameAs d.filePath = true → other = client ∨
          MovedWhileWaiting { store, library } steps client c.urlPath ∨
          MovedWhileWaiting { store, library } steps other d.urlPath) := by
  have hclient := not_sameAs_lock_iff rfl h
  refine ⟨hclient, ?_⟩
  intro other d lock' hother
  have hunique : lock.sameAs lock' = true → other = client := fun hsame =>
    (((consistent_fresh store library).run steps).eq_of_same_lock h hother hsame).symm
  refine ⟨hunique, ?_⟩
  intro hfile
  by_cases hc : c.filePath.sameAs lock = true
  · by_cases hd : d.filePath.sameAs lock' = true
    · rw [Path.sameAs_congr hc, Path.sameAs_comm, Path.sameAs_congr hd, Path.sameAs_comm] at hfile
      exact .inl (hunique hfile)
    · exact .inr (.inr ((not_sameAs_lock_iff rfl hother).mp hd))
  · exact .inr (.inl (hclient.mp hc))

/-! ## Two holders of one file -/

/-- A client waits for a lock, its place becomes a directory, and another client comes. -/
def movingSteps : List (Step Memory) :=
  [.loadForWrite "first" "/api/notes", .loadForWrite "second" "/api/notes",
    .outside (·.put (.ofText "data/api/notes/items.json") "[]"), .drop "first", .poll "second",
    .loadForWrite "third" "/api/notes"]

/-- The session after these steps. -/
def movedSession : Session Memory :=
  ({ store := Collection.sampleStore, library := Collection.sampleLibrary } : Session Memory).run
    movingSteps

/-- What both clients hold in the end. -/
def movedCollection : Collection :=
  { Collection.sampleCollection with filePath := .ofText "data/api/notes/items.json" }

theorem slot?_second : movedSession.slot? "second" =
    some (.holding movedCollection (some (.ofText "data/api/notes.json"))) := by
  rfl

theorem movedWhileWaiting_second :
    MovedWhileWaiting { store := Collection.sampleStore, library := Collection.sampleLibrary }
      movingSteps "second" "/api/notes" :=
  (lock_of_holder _ _ movingSteps slot?_second).1.mp (by decide)

/-- Two clients hold collections of one file, so one of them has not the lock of its file. -/
theorem exists_holders_of_one_file :
    ∃ (store : Memory) (library : Library) (steps : List (Step Memory)) (client other : String)
      (c d : Collection) (lock lock' : Path),
      let s := ({ store, library } : Session Memory).run steps
      s.slot? client = some (.holding c (some lock)) ∧
        s.slot? other = some (.holding d (some lock')) ∧ client ≠ other ∧
        c.filePath = d.filePath ∧ ¬ c.filePath.sameAs lock = true :=
  ⟨Collection.sampleStore, Collection.sampleLibrary, movingSteps, "second", "third",
    movedCollection, movedCollection, .ofText "data/api/notes.json",
    .ofText "data/api/notes/items.json", slot?_second, rfl, by decide, rfl, by decide⟩

end JsonCollections.Session
