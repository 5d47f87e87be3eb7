import JsonCollections.Http.Service
import JsonCollections.Proofs.Collection.Reload
import JsonCollections.Proofs.Http.Targets

set_option autoImplicit false

/-!
# From requests to commands

A request on a resource is one command (`Service.answerResource_eq`), and a command is one look at a
collection, or one change of it that is stored (`Service.execute_mutate_ok`).  So a request writes
one file at most (`Service.atMostOneWrite_handle`).
-/

namespace JsonCollections.Http

/-! ## Targets -/

/-- What the path of the request addresses below `/api/`, escapes resolved. -/
def Request.target? (r : Request) : Option Target :=
  match Route.ofPath? r.path with
  | some (.resource path) =>
    (Text.Utf8.decode? (Text.percentDecode (Text.Utf8.encode path))).bind fun path =>
      Target.ofText? (String.ofList path)
  | _ => none

theorem Request.target?_eq_some {r : Request} {target : Target} (h : r.target? = some target) :
    ∃ path decoded, Route.ofPath? r.path = some (.resource path) ∧
      Text.Utf8.decode? (Text.percentDecode (Text.Utf8.encode path)) = some decoded ∧
      Target.ofText? (String.ofList decoded) = some target := by
  unfold Request.target? at h
  split at h
  · rename_i path hroute
    obtain ⟨decoded, hdecoded, htarget⟩ := Option.bind_eq_some_iff.mp h
    exact ⟨path, decoded, hroute, hdecoded, htarget⟩
  · cases h

/-- The ids that targets name are words. -/
theorem Target.lt_bound {path urlPath : String} {k : ItemId}
    (h : Target.ofText? path = some (.item urlPath k)) : k < ItemId.bound := by
  cases Target.addresses_of_ofText? h with
  | item hpath hid => exact hid.2.2

namespace Service

variable {σ : Type} [Storage σ]

/-! ## Commands -/

/-- The service after a command, and the result; a command that is refused changes nothing. -/
def perform (s : Service σ) : Except Failure Command → Service σ × Except Failure Reply
  | .ok command => s.execute command
  | .error failure => (s, .error failure)

theorem answerResource_eq (s : Service σ) (r : Request) (path : String) :
    ∃ counters, s.answerResource r path =
      ({ (s.perform (Command.ofRequest r path)).1 with counters },
        respond (s.perform (Command.ofRequest r path)).2) := by
  unfold answerResource perform
  cases Command.ofRequest r path with
  | ok command =>
    cases Activity.of? r.method (Target.ofText? path) with
    | some activity => exact ⟨_, rfl⟩
    | none => exact ⟨(s.execute command).1.counters, rfl⟩
  | error failure =>
    cases Activity.of? r.method (Target.ofText? path) with
    | some activity => exact ⟨_, rfl⟩
    | none => exact ⟨s.counters, rfl⟩

section

variable {s : Service σ} {urlPath : String}

theorem execute_query {c : Collection}
    (hload : Collection.load s.store s.library urlPath = .ok c) (q : Query) :
    s.execute (.query urlPath q) = (s, .ok ⟨200, .array ((q.run c.items).map .object)⟩) := by
  simp only [execute, hload]
  rfl

theorem execute_mutate_error {c : Collection}
    (hload : Collection.load s.store s.library urlPath = .ok c) {change : Mutation}
    {e : WriteError} (happly : c.apply change = .error e) :
    s.execute (.mutate urlPath change) = (s, .error (.ofWriteError urlPath e)) := by
  simp only [execute, hload, Collection.mutate, happly]

/-- A change that can be made is stored, and the next request loads what was made. -/
theorem execute_mutate_ok [Storage.Lawful σ] {c d : Collection}
    (hload : Collection.load s.store s.library urlPath = .ok c)
    (hwrite : ∀ text, (Storage.write s.store c.filePath text).2 = .ok ()) {change : Mutation}
    {item : Item} (happly : c.apply change = .ok (d, item)) (hchange : change.WellFormed)
    (hreadable : Collection.AreReadable d.items) :
    ∃ store, s.execute (.mutate urlPath change) =
        ({ s with store }, .ok (.ofMutation change item)) ∧
      Collection.load store s.library urlPath =
        .ok { d with lastId := Collection.greatestId d.items } := by
  have hfile := (Collection.applied_of_apply happly).sameFile.filePath
  obtain ⟨store, hwritten⟩ : ∃ store,
      Storage.write s.store c.filePath (Collection.textOfItems d.items) = (store, .ok ()) :=
    ⟨_, Prod.ext rfl (hwrite _)⟩
  have hmutate : c.mutate s.store change = (store, d, .ok item) := by
    simp only [Collection.mutate, happly, Collection.storeIn, hfile, hwritten]
  refine ⟨store, ?_, ?_⟩
  · simp only [execute, hload, hmutate]
  · have hbacked := (Collection.backed_of_load hload).mutate hchange hmutate
    rw [hbacked.load_eq, if_pos hreadable]

end

/-! ## What is written -/

/-- The second store is the first, or what a write of one file leaves of it. -/
def AtMostOneWrite (store store' : σ) : Prop :=
  store' = store ∨ ∃ p text, store' = (Storage.write store p text).1

theorem atMostOneWrite_execute (s : Service σ) (command : Command) :
    AtMostOneWrite s.store (s.execute command).1.store := by
  cases command with
  | query urlPath q =>
    simp only [execute]
    split <;> exact .inl rfl
  | find urlPath id =>
    simp only [execute]
    split
    · split <;> exact .inl rfl
    · exact .inl rfl
  | mutate urlPath change =>
    simp only [execute]
    split
    · rename_i c hload
      have hmutated := Collection.mutated c s.store change
      generalize c.mutate s.store change = after at hmutated
      cases hmutated with
      | refused error => exact .inl rfl
      | stored happlied hwrite => exact .inr ⟨_, _, (congrArg Prod.fst hwrite).symm⟩
      | unstored happlied hwrite => exact .inr ⟨_, _, (congrArg Prod.fst hwrite).symm⟩
    · exact .inl rfl

theorem atMostOneWrite_perform (s : Service σ) (command : Except Failure Command) :
    AtMostOneWrite s.store (s.perform command).1.store := by
  cases command with
  | ok command => exact atMostOneWrite_execute s command
  | error failure => exact .inl rfl

theorem atMostOneWrite_handle (s : Service σ) (r : Request) :
    AtMostOneWrite s.store (s.handle r).1.store := by
  simp only [handle]
  split
  · exact .inl rfl
  · exact .inl rfl
  · rename_i route _ _
    split
    · cases route with
      | health | counters | listing | assets path => exact .inl rfl
      | resource path =>
        simp only [answerRoute]
        split
        · rename_i decoded hdecoded
          obtain ⟨counters, hanswer⟩ := answerResource_eq s r (String.ofList decoded)
          rw [hanswer]
          exact atMostOneWrite_perform s _
        · exact .inl rfl
    · exact .inl rfl

end Service

end JsonCollections.Http
