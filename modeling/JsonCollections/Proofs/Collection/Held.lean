import JsonCollections.Proofs.Collection.Stored

set_option autoImplicit false

/-!
# A collection that is held

A client that holds a collection changes it again and again, whether its writes succeed or fail.
In between the store may change from outside.  What one change does is `Collection.Mutated`; the
facts about all that can happen are facts about `Held.run`.
-/

namespace JsonCollections

/-- A loaded collection and the store that holds its file. -/
structure Held (σ : Type) where
  store : σ
  collection : Collection

/-- A change of a held collection, or of the store from outside. -/
inductive Action (σ : Type) where
  | change (m : Mutation)
  | outside (change : σ → σ)

namespace Held

variable {σ : Type} [Storage σ]

/-- What is held after an action. -/
def act (h : Held σ) : Action σ → Held σ
  | .change m =>
    let (store, collection, _) := h.collection.mutate h.store m
    ⟨store, collection⟩
  | .outside change => { h with store := change h.store }

/-- What the holder is answered. -/
def answer? (h : Held σ) : Action σ → Option (Except WriteError Item)
  | .change m => some (h.collection.mutate h.store m).2.2
  | .outside _ => none

/-- What is held after actions in order. -/
def run (h : Held σ) (actions : List (Action σ)) : Held σ := actions.foldl act h

theorem run_append (h : Held σ) (actions more : List (Action σ)) :
    h.run (actions ++ more) = (h.run actions).run more := List.foldl_append

/-- An action leaves the collection as it is, or makes a change whether it can be stored or not. -/
theorem collection_act (h : Held σ) (action : Action σ) :
    (h.act action).collection = h.collection ∨
      ∃ m answer, action = .change m ∧
        Collection.Applied h.collection m (h.act action).collection answer := by
  cases action with
  | outside change => exact .inl rfl
  | change m =>
    have hmutated := Collection.mutated h.collection h.store m
    simp only [act]
    generalize h.collection.mutate h.store m = after at hmutated
    cases hmutated with
    | refused error => exact .inl rfl
    | stored happlied | unstored happlied => exact .inr ⟨m, _, rfl, happlied⟩

/-- A held collection keeps its file. -/
theorem sameFile_act (h : Held σ) (action : Action σ) :
    Collection.SameFile h.collection (h.act action).collection := by
  rcases h.collection_act action with heq | ⟨m, answer, -, happlied⟩
  · rw [heq]
    exact Collection.SameFile.refl h.collection
  · exact happlied.sameFile

theorem sameFile_run (h : Held σ) (actions : List (Action σ)) :
    Collection.SameFile h.collection (h.run actions).collection := by
  induction actions generalizing h with
  | nil => exact Collection.SameFile.refl h.collection
  | cons action rest ih => exact (h.sameFile_act action).trans (ih (h.act action))

end Held

end JsonCollections
