import JsonCollections.Proofs.Collection.Held
import JsonCollections.Proofs.Collection.Reload

set_option autoImplicit false

/-!
# What changes leave behind

A change that cannot be made leaves all as it was; one that cannot be stored is in the collection and
not in the file; one that is stored puts the text of all items into the file (`answered`).  So in a
run, with writing switched off and on, the file always holds the text that was loaded or that of all
items at the last change that was stored (`get?_run`), and `outcomesSound_run` puts both together.
-/

namespace JsonCollections

/-! ## Errors -/

/-- One cause alone is called `store-error`. -/
theorem WriteError.code_eq_store_iff {error : WriteError} :
    error.code = "store-error" ↔ ∃ fault, error = .store fault := by
  cases error with
  | store fault => exact ⟨fun _ => ⟨fault, rfl⟩, fun _ => rfl⟩
  | extraId | maxItems _ | idExhausted | notFound _ | invalidPatch _ | patchNotObject _ =>
    simp [code]

namespace Collection

/-- A change that cannot be made is not called a failure of the store. -/
theorem code_ne_of_apply {c : Collection} {m : Mutation} {error : WriteError}
    (h : c.apply m = .error error) : error.code ≠ "store-error" := by
  rw [Ne, WriteError.code_eq_store_iff]
  rintro ⟨fault, rfl⟩
  cases m with
  | insert item =>
    simp only [apply] at h
    split at h
    · cases h
    · split at h
      · cases h
      · split at h <;> cases h
  | update id item =>
    simp only [apply] at h
    split at h <;> cases h
  | patch id operations =>
    simp only [apply] at h
    split at h
    · split at h <;> cases h
    · cases h
  | delete id =>
    simp only [apply] at h
    split at h <;> cases h

/-- What a change makes of a collection is settled by the collection and the change. -/
theorem apply_eq_ok_iff {c d : Collection} {m : Mutation} {answer : Item} :
    c.apply m = .ok (d, answer) ↔ Applied c m d answer := by
  refine ⟨applied_of_apply, fun h => ?_⟩
  cases h with
  | insert hfree hroom hid =>
    simp only [apply, hfree, hid, Option.isSome_none, Bool.false_eq_true, if_false,
      Nat.not_le.mpr hroom]
  | update hplace => simp only [apply, hplace]
  | patch hplace hold hrun => simp only [apply, hplace, hold, hrun]
  | delete hplace hold => simp only [apply, hplace, hold]

end Collection

/-! ## One change -/

namespace Held

open Collection (Applied textOfItems)

/-- What one change of a collection in memory leaves behind, and what is answered. -/
inductive Answered (h : Held Memory) (m : Mutation) : Held Memory → Except WriteError Item → Prop where
  | refused {error : WriteError} (hcode : error.code ≠ "store-error")
      (hnone : ∀ d answer, ¬ Applied h.collection m d answer) : Answered h m h (.error error)
  | unstored {d : Collection} {answer : Item} {error : WriteError}
      (hcode : error.code = "store-error") (hdisabled : h.store.disabled = true)
      (happlied : Applied h.collection m d answer) : Answered h m ⟨h.store, d⟩ (.error error)
  | stored {d : Collection} {answer : Item} (hdisabled : h.store.disabled = false)
      (happlied : Applied h.collection m d answer) :
      Answered h m
        ⟨{ h.store.put d.filePath (textOfItems d.items) with writes := h.store.writes + 1 }, d⟩
        (.ok answer)

theorem answered {h : Held Memory} {m : Mutation} {result : Except WriteError Item}
    (hanswer : h.answer? (.change m) = some result) :
    Answered h m (h.act (.change m)) result := by
  have hmutated := Collection.mutated h.collection h.store m
  simp only [answer?, Option.some.injEq] at hanswer
  subst hanswer
  simp only [act]
  generalize h.collection.mutate h.store m = after at hmutated
  cases hmutated with
  | refused error happly =>
    refine .refused (Collection.code_ne_of_apply happly) fun d answer happlied => ?_
    rw [Collection.apply_eq_ok_iff.mpr happlied] at happly
    cases happly
  | stored happlied hwrite =>
    rw [Memory.write_eq_ok hwrite, ← happlied.sameFile.filePath]
    exact .stored (Memory.disabled_of_write hwrite) happlied
  | unstored happlied hwrite =>
    rw [Memory.write_eq_error hwrite]
    exact .unstored rfl (Memory.disabled_of_write_error hwrite) happlied

section

variable {h : Held Memory} {m : Mutation}

theorem act_of_refused {error : WriteError} (hanswer : h.answer? (.change m) = some (.error error))
    (hcode : error.code ≠ "store-error") : h.act (.change m) = h := by
  have hanswered := answered hanswer
  generalize h.act (.change m) = after at hanswered
  cases hanswered with
  | refused => rfl
  | unstored hstore => exact absurd hstore hcode

theorem act_of_unstored {error : WriteError} (hanswer : h.answer? (.change m) = some (.error error))
    (hcode : error.code = "store-error") : (h.act (.change m)).store = h.store ∧
      ∃ answer, Applied h.collection m (h.act (.change m)).collection answer := by
  have hanswered := answered hanswer
  generalize h.act (.change m) = after at hanswered
  cases hanswered with
  | refused hother => exact absurd hcode hother
  | unstored _ _ happlied => exact ⟨rfl, _, happlied⟩

theorem act_of_stored {answer : Item} (hanswer : h.answer? (.change m) = some (.ok answer)) :
    Applied h.collection m (h.act (.change m)).collection answer ∧
      (h.act (.change m)).store.get? h.collection.filePath =
        some (textOfItems (h.act (.change m)).collection.items) ∧
      (h.act (.change m)).store.writes = h.store.writes + 1 := by
  have hanswered := answered hanswer
  generalize h.act (.change m) = after at hanswered
  cases hanswered with
  | stored hdisabled happlied =>
    refine ⟨happlied, ?_, rfl⟩
    rw [← happlied.sameFile.filePath]
    exact (Memory.get?_put _ _ _ _).trans (if_pos (Path.sameAs_refl _))

/-- A change is stored exactly if it can be made and writing is switched on. -/
theorem exists_ok_iff : (∃ answer, h.answer? (.change m) = some (.ok answer)) ↔
    h.store.disabled = false ∧ ∃ d answer, Applied h.collection m d answer := by
  obtain ⟨result, hresult⟩ : ∃ result, h.answer? (.change m) = some result := ⟨_, rfl⟩
  have hanswered := answered hresult
  rw [hresult]
  generalize h.act (.change m) = after at hanswered
  cases hanswered with
  | refused hcode hnone =>
    exact ⟨nofun, fun ⟨_, d, answer, happlied⟩ => absurd happlied (hnone d answer)⟩
  | unstored hcode hdisabled happlied =>
    refine ⟨nofun, fun hon => ?_⟩
    rw [hdisabled] at hon
    cases hon.1
  | stored hdisabled happlied => exact ⟨fun _ => ⟨hdisabled, _, _, happlied⟩, fun _ => ⟨_, rfl⟩⟩

end

/-! ## Runs -/

/-- Nothing but switching writes off and on happens to the store from outside. -/
def Switching : Action Memory → Prop
  | .change _ => True
  | .outside change => ∃ disabled, change = (·.withDisabled disabled)

section

variable {σ : Type} [Storage σ]

/-- The items that an action has stored. -/
def stores? (h : Held σ) (action : Action σ) : Option (List Item) :=
  match h.answer? action with
  | some (.ok _) => some (h.act action).collection.items
  | _ => none

/-- The items at the last change that was stored. -/
def lastStored? (h : Held σ) : List (Action σ) → Option (List Item)
  | [] => none
  | action :: rest => ((h.act action).lastStored? rest).or (h.stores? action)

/-- How many changes were stored. -/
def storedCount (h : Held σ) : List (Action σ) → Nat
  | [] => 0
  | action :: rest => (if (h.stores? action).isSome then 1 else 0) + (h.act action).storedCount rest

end

/-- What an action leaves of the file and of the count of writes. -/
theorem store_act (h : Held Memory) {action : Action Memory} (haction : Switching action) :
    (h.act action).store.get? h.collection.filePath =
        ((h.stores? action).map textOfItems).or (h.store.get? h.collection.filePath) ∧
      (h.act action).store.writes =
        h.store.writes + if (h.stores? action).isSome then 1 else 0 := by
  cases action with
  | outside change =>
    obtain ⟨disabled, rfl⟩ := haction
    exact ⟨rfl, rfl⟩
  | change m =>
    unfold stores?
    cases hresult : h.answer? (.change m) with
    | none => cases hresult
    | some result =>
      cases result with
      | ok answer => exact (act_of_stored hresult).2
      | error error =>
        by_cases hcode : error.code = "store-error"
        · rw [(act_of_unstored hresult hcode).1]
          exact ⟨rfl, rfl⟩
        · rw [act_of_refused hresult hcode]
          exact ⟨rfl, rfl⟩

/-- The file holds what it held in the beginning, or the text of all items at the last change that
was stored. -/
theorem get?_run (h : Held Memory) {actions : List (Action Memory)}
    (hactions : ∀ action ∈ actions, Switching action) :
    (h.run actions).store.get? h.collection.filePath =
      ((h.lastStored? actions).map textOfItems).or (h.store.get? h.collection.filePath) := by
  induction actions generalizing h with
  | nil => rfl
  | cons action rest ih =>
    obtain ⟨haction, hrest⟩ := List.forall_mem_cons.mp hactions
    have hrun := ih (h.act action) hrest
    rw [(h.sameFile_act action).filePath, (h.store_act haction).1] at hrun
    refine hrun.trans ?_
    -- what is stored later replaces what this action has stored
    rw [lastStored?]
    cases (h.act action).lastStored? rest <;> rfl

theorem writes_run (h : Held Memory) {actions : List (Action Memory)}
    (hactions : ∀ action ∈ actions, Switching action) :
    (h.run actions).store.writes = h.store.writes + h.storedCount actions := by
  induction actions generalizing h with
  | nil => rfl
  | cons action rest ih =>
    obtain ⟨haction, hrest⟩ := List.forall_mem_cons.mp hactions
    refine (ih (h.act action) hrest).trans ?_
    rw [(h.store_act haction).2, storedCount, Nat.add_assoc]

/-- What changes in a run leave behind. -/
structure OutcomesSound (h : Held Memory) (actions : List (Action Memory)) : Prop where
  /-- a change that is refused leaves everything as it was -/
  refused : ∀ {m error}, (h.run actions).answer? (.change m) = some (.error error) →
    error.code ≠ "store-error" → (h.run actions).act (.change m) = h.run actions
  /-- a change that is not stored is made in the collection, and the store is as it was -/
  unstored : ∀ {m error}, (h.run actions).answer? (.change m) = some (.error error) →
    error.code = "store-error" →
      ((h.run actions).act (.change m)).store = (h.run actions).store ∧
        ∃ answer, Applied (h.run actions).collection m
          ((h.run actions).act (.change m)).collection answer
  /-- a change that is stored leaves the text of all items in the file, and is one write more -/
  stored : ∀ {m answer}, (h.run actions).answer? (.change m) = some (.ok answer) →
    Applied (h.run actions).collection m ((h.run actions).act (.change m)).collection answer ∧
      ((h.run actions).act (.change m)).store.get? h.collection.filePath =
        some (textOfItems ((h.run actions).act (.change m)).collection.items) ∧
      ((h.run actions).act (.change m)).store.writes = (h.run actions).store.writes + 1
  /-- a change is stored exactly if it can be made and writing is switched on -/
  ok_iff : ∀ {m}, (∃ answer, (h.run actions).answer? (.change m) = some (.ok answer)) ↔
    (h.run actions).store.disabled = false ∧
      ∃ d answer, Applied (h.run actions).collection m d answer
  /-- the file holds the text that was loaded, or that of all items at the last change that was
  stored -/
  file : ∃ text, h.store.get? h.collection.filePath = some text ∧
    Collection.itemsOfText text = .ok h.collection.items ∧
      (h.run actions).store.get? h.collection.filePath =
        some (((h.lastStored? actions).map textOfItems).getD text)
  /-- every change that is stored is counted -/
  writes : (h.run actions).store.writes = h.store.writes + h.storedCount actions

/-- For a collection that was loaded and changed, with writing switched off and on in between:
refused changes leave no trace, failed writes leave the change in the collection alone, and the file
is always whole. -/
theorem outcomesSound_run {store : Memory} {library : Library} {urlPath : String} {c : Collection}
    (hload : Collection.load store library urlPath = .ok c) {actions : List (Action Memory)}
    (hactions : ∀ action ∈ actions, Switching action) :
    (⟨store, c⟩ : Held Memory).OutcomesSound actions := by
  obtain ⟨text, -, hread, hitems, -⟩ := Collection.load_eq_ok hload
  rw [Memory.read_eq_ok_iff] at hread
  have hfile := (⟨store, c⟩ : Held Memory).sameFile_run actions
  exact {
    refused := act_of_refused
    unstored := act_of_unstored
    stored := by
      rw [← hfile.filePath]
      exact act_of_stored
    ok_iff := exists_ok_iff
    file := by
      refine ⟨text, hread, hitems, ?_⟩
      rw [get?_run _ hactions, hread]
      cases (⟨store, c⟩ : Held Memory).lastStored? actions <;> rfl
    writes := writes_run _ hactions }

/-- An item is inserted without being stored, a change is refused, and one more item is inserted. -/
def switchedActions : List (Action Memory) :=
  [.outside (·.withDisabled true), .change (.insert [("text", .string "late")]),
    .outside (·.withDisabled false), .change (.delete 5), .change (.insert [])]

theorem switching_of_mem_switchedActions : ∀ action ∈ switchedActions, Switching action := by
  simp only [switchedActions, List.forall_mem_cons, Switching, true_and]
  exact ⟨⟨true, rfl⟩, ⟨false, rfl⟩, fun _ hmem => absurd hmem List.not_mem_nil⟩

/-- Both items are stored at once. -/
theorem outcomesSound_switchedActions :
    (⟨Collection.sampleStore, Collection.sampleCollection⟩ : Held Memory).OutcomesSound
        switchedActions ∧
      (⟨Collection.sampleStore, Collection.sampleCollection⟩ : Held Memory).lastStored?
        switchedActions = some
          [[("id", .number (.ofNat 0)), ("text", .string "late")], [("id", .number (.ofNat 1))]] ∧
      (⟨Collection.sampleStore, Collection.sampleCollection⟩ : Held Memory).storedCount
        switchedActions = 1 :=
  ⟨outcomesSound_run Collection.load_sampleStore switching_of_mem_switchedActions,
    rfl, by decide +kernel⟩

end Held

end JsonCollections
