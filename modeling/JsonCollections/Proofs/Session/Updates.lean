import JsonCollections.Proofs.Session.Steps
import Mathlib.Data.List.Induction

set_option autoImplicit false

/-!
# No update is lost

A session whose files change through its writers only tells a history: which collections were loaded
under a lock and which were stored.  Whoever loads sees what was stored last in the file, and whoever
stores has seen all that others stored there before.

`Tracked` is the invariant that ties the session to its history: the file that a client holds or waits
for is the one whose lock it has asked for, the text of every file is that of the items stored last,
and nobody but the holder has stored in a file since the holder loaded it.
-/

namespace JsonCollections.Session

open Collection (AreWellFormed itemsOfText textOfItems)

/-! ## Histories -/

/-- What writers do to files. -/
inductive Event where
  /-- a client has loaded a collection under a lock -/
  | loaded (client : String) (c : Collection)
  /-- a client has changed its collection and stored it -/
  | stored (client : String) (c : Collection)

/-- The items that an event puts into a file. -/
def Event.itemsFor? (p : Path) : Event → Option (List Item)
  | .loaded _ _ => none
  | .stored _ c => if c.filePath.sameAs p then some c.items else none

/-- The items that were stored last in a file. -/
def lastStored (events : List Event) (p : Path) : Option (List Item) :=
  events.reverse.findSome? (·.itemsFor? p)

/-- The items of a file after a history: those stored last, or those that it held in the beginning. -/
def latest (store : Memory) (events : List Event) (p : Path) : Option (List Item) :=
  (lastStored events p).or ((store.get? p).bind fun text => (itemsOfText text).toOption)

/-- The client has loaded the file, and no other client has stored in it since. -/
def Seen (events : List Event) (client : String) (p : Path) : Prop :=
  ∃ earlier c between, events = earlier ++ .loaded client c :: between ∧
    c.filePath.sameAs p = true ∧
    ∀ other d, .stored other d ∈ between → d.filePath.sameAs p = true → other = client

/-- Who loads sees the latest items of the file, and who stores has seen what others stored. -/
def EventSound (store : Memory) (events : List Event) : Event → Prop
  | .loaded _ c => latest store events c.filePath = some c.items
  | .stored client c => Seen events client c.filePath

/-- Every event of a history is sound after the events before it. -/
def HistorySound (store : Memory) (events : List Event) : Prop :=
  ∀ before e after, events = before ++ e :: after → EventSound store before e

/-- What an attempt to load under a lock adds to the history. -/
def Event.ofOutcome? (client : String) : LoadOutcome → Option Event
  | .loaded c => some (.loaded client c)
  | .blocked | .failed _ => none

section

variable {σ : Type} [Storage σ]

/-- What a step adds to the history. -/
def event? (s : Session σ) : Step σ → Option Event
  | .loadForWrite client urlPath => Event.ofOutcome? client (s.loadForWrite client urlPath).2
  | .poll client => (s.poll client).2.bind (Event.ofOutcome? client)
  | .mutate client m =>
    match (s.mutate client m).2, (s.mutate client m).1.slot? client with
    | some (.ok _), some (.holding c _) => some (.stored client c)
    | _, _ => none
  | _ => none

/-- The history of steps. -/
def history (s : Session σ) : List (Step σ) → List Event
  | [] => []
  | step :: rest => (s.event? step).toList ++ (s.step step).history rest

theorem history_concat (s : Session σ) (steps : List (Step σ)) (step : Step σ) :
    s.history (steps ++ [step]) = s.history steps ++ ((s.run steps).event? step).toList := by
  induction steps generalizing s with
  | nil => simp only [history, List.nil_append, List.append_nil]; rfl
  | cons first rest ih =>
    rw [List.cons_append, history, history, ih, List.append_assoc]
    rfl

end

/-- The steps of writers.  Files change through them only; writing may be switched off and on. -/
def Step.ByWriter : Step Memory → Prop
  | .loadForWrite _ _ | .poll _ | .drop _ => True
  | .mutate _ m => m.WellFormed
  | .outside change => ∃ disabled, change = (·.withDisabled disabled)
  | .load _ _ => False

/-! ## Longer histories -/

theorem lastStored_concat (events : List Event) (e : Event) (p : Path) :
    lastStored (events ++ [e]) p = (e.itemsFor? p).or (lastStored events p) := by
  unfold lastStored
  rw [List.reverse_append, List.reverse_singleton, List.singleton_append, List.findSome?_cons]
  cases e.itemsFor? p <;> rfl

/-- The items stored last were stored by someone. -/
theorem exists_stored_of_lastStored {events : List Event} {p : Path} {items : List Item}
    (h : lastStored events p = some items) : ∃ client c, .stored client c ∈ events ∧ c.items = items := by
  obtain ⟨e, he, hitems⟩ := List.exists_of_findSome?_eq_some h
  cases e with
  | loaded client c => cases hitems
  | stored client c =>
    refine ⟨client, c, List.mem_reverse.mp he, ?_⟩
    simp only [Event.itemsFor?] at hitems
    split at hitems
    · exact Option.some.inj hitems
    · cases hitems

/-- Another event keeps what was seen, unless another client stores in the file. -/
theorem Seen.concat {events : List Event} {client : String} {p : Path}
    (h : Seen events client p) {e : Event}
    (he : ∀ other d, e = .stored other d → d.filePath.sameAs p = true → other = client) :
    Seen (events ++ [e]) client p := by
  obtain ⟨earlier, c, between, rfl, hc, hbetween⟩ := h
  refine ⟨earlier, c, between ++ [e], by rw [List.append_assoc, List.cons_append], hc, ?_⟩
  intro other d hmem hd
  rcases List.mem_append.mp hmem with hmem | hmem
  · exact hbetween other d hmem hd
  · exact he other d (List.mem_singleton.mp hmem).symm hd

theorem seen_loaded (events : List Event) (client : String) (c : Collection) :
    Seen (events ++ [.loaded client c]) client c.filePath :=
  ⟨events, c, [], rfl, Path.sameAs_refl _, fun _ _ hmem => absurd hmem List.not_mem_nil⟩

theorem historySound_nil (store : Memory) : HistorySound store [] := by
  intro before e after h
  cases before <;> cases h

theorem HistorySound.concat {store : Memory} {events : List Event} (h : HistorySound store events)
    {e : Event} (he : EventSound store events e) : HistorySound store (events ++ [e]) := by
  intro before f after heq
  rcases List.eq_nil_or_concat after with rfl | ⟨after, last, rfl⟩
  · obtain ⟨rfl, hf⟩ := List.append_inj' heq rfl
    cases hf
    exact he
  · rw [List.concat_eq_append, ← List.cons_append, ← List.append_assoc] at heq
    exact h before f after (List.append_inj' heq rfl).1

/-! ## The invariant -/

/-- What is known of a collection that a client holds. -/
structure Holds (now : Memory) (events : List Event) (client : String) (c : Collection)
    (lock : Option Path) : Prop where
  lock_eq : lock = some c.filePath
  areWellFormed : AreWellFormed c.items
  present : (now.get? c.filePath).isSome = true
  seen : Seen events client c.filePath

/-- What is known of a slot: a client waits for the lock of the file that its URL path leads to, and
holds the lock of the file that its collection is kept in. -/
def SlotTracked (store : Memory) (library : Library) (now : Memory) (events : List Event)
    (client : String) : Slot → Prop
  | .waiting urlPath file => Location.resolve store library.base urlPath = some file
  | .holding c lock => Holds now events client c lock

/-- A session of writers and its history since a store. -/
structure Tracked (store : Memory) (library : Library) (s : Session Memory)
    (events : List Event) : Prop where
  consistent : s.Consistent
  library_eq : s.library = library
  directories : ∀ q, Storage.isDirectory s.store q = Storage.isDirectory store q
  text : ∀ p, s.store.get? p = ((lastStored events p).map textOfItems).or (store.get? p)
  stored : ∀ client c, .stored client c ∈ events → AreWellFormed c.items
  slots : ∀ client slot, s.slot? client = some slot →
    SlotTracked store library s.store events client slot

/-- What is known of a slot stays known if no file goes and nobody else stores in its file. -/
theorem SlotTracked.concat {store now now' : Memory} {library : Library} {events : List Event}
    {client : String} {slot : Slot} (h : SlotTracked store library now events client slot)
    (hpresent : ∀ p, (now.get? p).isSome = true → (now'.get? p).isSome = true) {e : Event}
    (he : ∀ c lock, slot = .holding c lock → ∀ other d, e = .stored other d →
      d.filePath.sameAs c.filePath = true → other = client) :
    SlotTracked store library now' (events ++ [e]) client slot := by
  cases slot with
  | waiting urlPath file => exact h
  | holding c lock =>
    exact ⟨h.lock_eq, h.areWellFormed, hpresent _ h.present, h.seen.concat (he c lock rfl)⟩

variable {store : Memory} {library : Library} {s : Session Memory} {events : List Event}

theorem tracked_fresh (store : Memory) (library : Library) :
    Tracked store library { store, library } [] where
  consistent := consistent_fresh store library
  library_eq := rfl
  directories _ := rfl
  text _ := rfl
  stored _ _ h := absurd h List.not_mem_nil
  slots := nofun

/-- A URL path leads to the same file all the time. -/
theorem Tracked.resolve_eq (h : Tracked store library s events) (urlPath : String) :
    Location.resolve s.store s.library.base urlPath =
      Location.resolve store library.base urlPath := by
  rw [Location.resolve_congr h.directories, h.library_eq]

/-- What is loaded are the latest items of the file. -/
theorem Tracked.load (h : Tracked store library s events) {urlPath : String} {c : Collection}
    (hload : Collection.load s.store s.library urlPath = .ok c) :
    Location.resolve store library.base urlPath = some c.filePath ∧ AreWellFormed c.items ∧
      (s.store.get? c.filePath).isSome = true ∧ latest store events c.filePath = some c.items := by
  obtain ⟨text, hresolve, hread, hitems, -⟩ := Collection.load_eq_ok hload
  rw [h.resolve_eq] at hresolve
  rw [Memory.read_eq_ok_iff] at hread
  refine ⟨hresolve, (Collection.fits_of_itemsOfText hitems).1, Option.isSome_of_eq_some hread, ?_⟩
  rw [h.text] at hread
  unfold latest
  cases hlast : lastStored events c.filePath with
  | none =>
    rw [hlast, Option.map_none, Option.none_or] at hread
    rw [Option.none_or, hread, Option.bind_some, hitems]
    rfl
  | some items =>
    rw [hlast] at hread
    obtain rfl : textOfItems items = text := Option.some.inj hread
    obtain ⟨client, d, hd, rfl⟩ := exists_stored_of_lastStored hlast
    rw [Collection.itemsOfText_textOfItems (h.stored client d hd)] at hitems
    split at hitems
    · exact congrArg some (Except.ok.inj hitems)
    · cases hitems

/-- Whether writing is switched off does not matter. -/
theorem Tracked.withDisabled (h : Tracked store library s events) (disabled : Bool) :
    Tracked store library { s with store := s.store.withDisabled disabled } events := by
  refine ⟨h.consistent.withStore _, h.library_eq, h.directories, h.text, h.stored,
    fun client slot hslot => ?_⟩
  have htracked := h.slots client slot hslot
  cases slot with
  | waiting urlPath file => exact htracked
  | holding c lock =>
    exact ⟨htracked.lock_eq, htracked.areWellFormed, htracked.present, htracked.seen⟩

theorem Tracked.drop (h : Tracked store library s events) (client : String) :
    Tracked store library (s.drop client) events :=
  ⟨h.consistent.drop client, h.library_eq, h.directories, h.text, h.stored,
    forall_slot_drop h.slots⟩

theorem Tracked.enqueue (h : Tracked store library s events) (client : String) {urlPath : String}
    {file : Path} (hresolve : Location.resolve store library.base urlPath = some file) :
    Tracked store library (s.enqueue client urlPath file) events := by
  have hnone : (s.drop client).slot? client = none := by rw [slot?_drop, if_pos rfl]
  have hdrop := h.drop client
  exact ⟨hdrop.consistent.request hnone urlPath file, hdrop.library_eq, hdrop.directories,
    hdrop.text, hdrop.stored,
    forall_slot_withSlot hresolve fun other found _ hfound => hdrop.slots other found hfound⟩

/-- A client that waits and loads is tracked, and sees the latest items. -/
theorem Tracked.loaded (h : Tracked store library s events) {client urlPath : String} {file : Path}
    (hslot : s.slot? client = some (.waiting urlPath file)) {c : Collection}
    (howner : s.locks.owner? file = some client)
    (hload : Collection.load s.store s.library urlPath = .ok c) :
    Tracked store library (s.withSlot client (.holding c (some file)))
        (events ++ [.loaded client c]) ∧ EventSound store events (.loaded client c) := by
  obtain ⟨hresolve, hitems, hpresent, hlatest⟩ := h.load hload
  obtain rfl : file = c.filePath :=
    Option.some.inj ((h.slots client _ hslot).symm.trans hresolve)
  refine ⟨⟨?_, h.library_eq, h.directories, fun p => ?_, fun other d hd => ?_, ?_⟩, hlatest⟩
  · refine h.consistent.withSlot ?_ fun d lock hd => ?_
    · unfold queued?
      rw [hslot]
      rfl
    · cases hd
      exact howner
  · rw [lastStored_concat]
    exact h.text p
  · rcases List.mem_append.mp hd with hd | hd
    · exact h.stored other d hd
    · cases List.mem_singleton.mp hd
  · apply forall_slot_withSlot
    · exact ⟨rfl, hitems, hpresent, seen_loaded events client c⟩
    · intro other found _ hfound
      exact (h.slots other found hfound).concat (fun _ => id) nofun

/-- The slot of a client that holds a collection may be filled with a changed one. -/
theorem Tracked.consistent_holding (h : Tracked store library s events) {client : String}
    {c : Collection} {lock : Option Path} (hslot : s.slot? client = some (.holding c lock))
    (d : Collection) : (s.withSlot client (.holding d lock)).Consistent := by
  refine h.consistent.withSlot ?_ fun e file he => ?_
  · unfold queued?
    rw [hslot]
    rfl
  · cases he
    exact h.consistent.owner hslot

/-- A client that holds a collection and stores a changed one is tracked, and has seen what others
stored in its file. -/
theorem Tracked.stored_mutate (h : Tracked store library s events) {client : String}
    {c d : Collection} {lock : Option Path} (hslot : s.slot? client = some (.holding c lock))
    (hfile : Collection.SameFile c d) (hitems : AreWellFormed d.items) {store' : Memory}
    (hwrite : Storage.write s.store c.filePath (textOfItems d.items) = (store', .ok ())) :
    Tracked store library (({ s with store := store' } : Session Memory).withSlot client
        (.holding d lock)) (events ++ [.stored client d]) ∧
      EventSound store events (.stored client d) := by
  obtain ⟨hlock, -, hpresent, hseen⟩ := h.slots client _ hslot
  rw [← hfile.filePath] at hlock hpresent hseen hwrite
  have hget : ∀ q, store'.get? q =
      if d.filePath.sameAs q then some (textOfItems d.items) else s.store.get? q := by
    intro q
    rw [Memory.write_eq_ok hwrite]
    exact Memory.get?_put s.store d.filePath q _
  have hkeeps : ∀ q, (s.store.get? q).isSome = true → (store'.get? q).isSome = true := by
    intro q hq
    rw [hget]
    split
    · rfl
    · exact hq
  refine ⟨⟨(h.consistent_holding hslot d).withStore store', h.library_eq, fun q => ?_, fun q => ?_,
    fun other e he => ?_, ?_⟩, hseen⟩
  · rw [← h.directories q]
    change Storage.isDirectory store' q = _
    rw [Memory.write_eq_ok hwrite]
    exact Memory.isDirectory_put hpresent _ q
  · change store'.get? q = _
    rw [hget, lastStored_concat, h.text]
    simp only [Event.itemsFor?]
    split <;> rfl
  · rcases List.mem_append.mp he with he | he
    · exact h.stored other e he
    · cases List.mem_singleton.mp he
      exact hitems
  · apply forall_slot_withSlot
    · refine ⟨hlock, hitems, hkeeps _ hpresent, hseen.concat ?_⟩
      intro other e he _
      cases he
      rfl
    · -- another client that holds the file would hold the same lock
      intro other found _ hfound
      apply (h.slots other found hfound).concat hkeeps
      intro e lock' hholding third f hevent hf
      cases hevent
      subst hholding
      obtain ⟨hlock', -, -, -⟩ := h.slots other _ hfound
      rw [hlock] at hslot
      rw [hlock'] at hfound
      exact h.consistent.eq_of_same_lock hslot hfound hf

/-- A client that holds a collection and does not store what it changes is tracked. -/
theorem Tracked.unstored_mutate (h : Tracked store library s events) {client : String}
    {c d : Collection} {lock : Option Path} (hslot : s.slot? client = some (.holding c lock))
    (hfile : Collection.SameFile c d) (hitems : AreWellFormed d.items) :
    Tracked store library (s.withSlot client (.holding d lock)) events := by
  obtain ⟨hlock, -, hpresent, hseen⟩ := h.slots client _ hslot
  rw [← hfile.filePath] at hlock hpresent hseen
  exact ⟨h.consistent_holding hslot d, h.library_eq, h.directories, h.text, h.stored,
    forall_slot_withSlot ⟨hlock, hitems, hpresent, hseen⟩ fun other found _ hfound =>
      h.slots other found hfound⟩

/-! ## Steps -/

/-- After steps that may have added an event the session is tracked, and the event is sound. -/
def TrackedStep (store : Memory) (library : Library) (events : List Event) (s : Session Memory)
    (e : Option Event) : Prop :=
  Tracked store library s (events ++ e.toList) ∧ ∀ e' ∈ e, EventSound store events e'

theorem Tracked.quiet (h : Tracked store library s events) :
    TrackedStep store library events s none :=
  ⟨by rwa [Option.toList_none, List.append_nil], nofun⟩

theorem Tracked.proceed (h : Tracked store library s events) {client urlPath : String}
    {file : Path} (hslot : s.slot? client = some (.waiting urlPath file))
    {after : Session Memory × LoadOutcome} (hafter : Proceeded s client urlPath file after) :
    TrackedStep store library events after.1 (Event.ofOutcome? client after.2) := by
  cases hafter with
  | blocked => exact h.quiet
  | failed => exact (h.drop client).quiet
  | loaded howner hload =>
    obtain ⟨htracked, hsound⟩ := h.loaded hslot howner hload
    refine ⟨htracked, ?_⟩
    intro e he
    cases he
    exact hsound

theorem Tracked.loadForWrite (h : Tracked store library s events) (client urlPath : String) :
    TrackedStep store library events (s.loadForWrite client urlPath).1
      (Event.ofOutcome? client (s.loadForWrite client urlPath).2) := by
  have hasked := asked s client urlPath
  generalize s.loadForWrite client urlPath = after at hasked
  cases hasked with
  | nowhere => exact (h.drop client).quiet
  | somewhere hresolve hafter =>
    rw [h.resolve_eq] at hresolve
    refine (h.enqueue client hresolve).proceed ?_ hafter
    rw [Session.enqueue, slot?_withSlot, if_pos rfl]

theorem Tracked.poll (h : Tracked store library s events) (client : String) :
    TrackedStep store library events (s.poll client).1
      ((s.poll client).2.bind (Event.ofOutcome? client)) := by
  by_cases hwaiting : ∃ urlPath file, s.slot? client = some (.waiting urlPath file)
  · obtain ⟨urlPath, file, hslot⟩ := hwaiting
    rw [poll_waiting hslot]
    exact h.proceed hslot (proceeded s client urlPath file)
  · rw [poll_not_waiting fun urlPath file hslot => hwaiting ⟨urlPath, file, hslot⟩]
    exact h.quiet

theorem Tracked.mutate (h : Tracked store library s events) (client : String) {m : Mutation}
    (hm : m.WellFormed) :
    TrackedStep store library events (s.mutate client m).1 (s.event? (.mutate client m)) := by
  by_cases hholding : ∃ c lock, s.slot? client = some (.holding c lock)
  · obtain ⟨c, lock, hslot⟩ := hholding
    have hc := (h.slots client _ hslot).areWellFormed
    have hmutate : s.mutate client m =
        (({ s with store := (c.mutate s.store m).1 } : Session Memory).withSlot client
          (.holding (c.mutate s.store m).2.1 lock), some (c.mutate s.store m).2.2) := by
      simp only [Session.mutate, hslot]
    have hmutated := Collection.mutated c s.store m
    unfold event?
    simp only [hmutate, slot?_withSlot, if_true]
    generalize c.mutate s.store m = after at hmutated
    cases hmutated with
    | refused error => exact (h.unstored_mutate hslot (Collection.SameFile.refl c) hc).quiet
    | stored happlied hwrite =>
      obtain ⟨htracked, hsound⟩ := h.stored_mutate hslot happlied.sameFile
        (happlied.areWellFormed hc hm) hwrite
      refine ⟨htracked, ?_⟩
      intro e he
      cases he
      exact hsound
    | unstored happlied hwrite =>
      rw [Memory.write_eq_error hwrite]
      exact (h.unstored_mutate hslot happlied.sameFile (happlied.areWellFormed hc hm)).quiet
  · have hmutate : s.mutate client m = (s, none) := by
      unfold Session.mutate
      split
      · exact absurd ⟨_, _, ‹_›⟩ hholding
      · rfl
    unfold event?
    simp only [hmutate]
    exact h.quiet

theorem Tracked.step (h : Tracked store library s events) {step : Step Memory}
    (hstep : step.ByWriter) :
    TrackedStep store library events (s.step step) (s.event? step) := by
  cases step with
  | load client urlPath => exact absurd hstep id
  | loadForWrite client urlPath => exact h.loadForWrite client urlPath
  | poll client => exact h.poll client
  | mutate client m => exact h.mutate client hstep
  | drop client => exact (h.drop client).quiet
  | outside change =>
    obtain ⟨disabled, rfl⟩ := hstep
    exact (h.withDisabled disabled).quiet

/-! ## Runs -/

/-- A session of writers is tracked by its history, all of whose events are sound. -/
theorem tracked_run (store : Memory) (library : Library) {steps : List (Step Memory)}
    (hsteps : ∀ step ∈ steps, step.ByWriter) :
    Tracked store library (({ store, library } : Session Memory).run steps)
        (({ store, library } : Session Memory).history steps) ∧
      HistorySound store (({ store, library } : Session Memory).history steps) := by
  induction steps using List.reverseRecOn with
  | nil => exact ⟨tracked_fresh store library, historySound_nil store⟩
  | append_singleton steps step ih =>
    obtain ⟨hbefore, hstep⟩ := List.forall_mem_append.mp hsteps
    obtain ⟨htracked, hsound⟩ := ih hbefore
    obtain ⟨hnext, hevent⟩ := htracked.step (hstep step (List.mem_singleton_self step))
    rw [run_concat, history_concat]
    refine ⟨hnext, ?_⟩
    cases he : (({ store, library } : Session Memory).run steps).event? step with
    | none => rwa [Option.toList_none, List.append_nil]
    | some e => exact hsound.concat (hevent e he)

/-! ## No update is lost -/

/-- In a session whose files change through its writers only, whoever loads under a lock sees the
items that were stored last in the file, and whoever stores has loaded the file after all that
others stored there. -/
theorem historySound_of_writers (store : Memory) (library : Library) {steps : List (Step Memory)}
    (hsteps : ∀ step ∈ steps, step.ByWriter) :
    HistorySound store (({ store, library } : Session Memory).history steps) :=
  (tracked_run store library hsteps).2

/-- Two writers of one file: the first inserts, fails to store a second item, and deletes the first
one; the other loads the file by another spelling. -/
def writerSteps : List (Step Memory) :=
  [.loadForWrite "first" "/api/notes", .loadForWrite "second" "/api//notes/",
    .mutate "first" (.insert [("text", .string "a")]), .outside (·.withDisabled true),
    .mutate "first" (.insert [("text", .string "b")]), .outside (·.withDisabled false),
    .mutate "first" (.delete 0), .drop "first", .poll "second"]

theorem byWriter_of_mem_writerSteps : ∀ step ∈ writerSteps, step.ByWriter := by
  have hitem : ∀ text, Item.WellFormed [("text", .string text)] := fun _ =>
    ⟨List.nodup_singleton _, trivial, trivial⟩
  simp only [writerSteps, List.forall_mem_cons, Step.ByWriter, Mutation.WellFormed, hitem,
    true_and]
  exact ⟨⟨true, rfl⟩, ⟨false, rfl⟩, fun _ hmem => absurd hmem List.not_mem_nil⟩

/-- The first writer loads and stores twice, and the second one loads what was stored last. -/
theorem historySound_writerSteps :
    HistorySound Collection.sampleStore
        (({ store := Collection.sampleStore, library := Collection.sampleLibrary } :
          Session Memory).history writerSteps) ∧
      (({ store := Collection.sampleStore, library := Collection.sampleLibrary } :
        Session Memory).history writerSteps).length = 4 :=
  ⟨historySound_of_writers Collection.sampleStore Collection.sampleLibrary
    byWriter_of_mem_writerSteps, by decide +kernel⟩

end JsonCollections.Session
