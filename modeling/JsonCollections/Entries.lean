set_option autoImplicit false

/-!
# Entries: keys with values, in order

The order in which keys were first set is kept; a key that is set again keeps its place.
`get?_insert` and `keys_insert` say what setting a key does to the values and to the keys, and
`nodup_keys_ofList` that entries set one after the other do not repeat a key.
-/

namespace JsonCollections

/-- Keys with their values, in the order in which the keys were first set. -/
abbrev Entries (α : Type) : Type := List (String × α)

namespace Entries

variable {α : Type}

/-- The keys in order. -/
def keys (entries : Entries α) : List String := entries.map Prod.fst

/-- The value under a key. -/
def get? (entries : Entries α) (key : String) : Option α := entries.lookup key

/-- Sets a key: it keeps its place if it is there and comes last if it is not. -/
def insert : Entries α → String → α → Entries α
  | [], key, value => [(key, value)]
  | (k, v) :: rest, key, value =>
    if k = key then (k, value) :: rest else (k, v) :: insert rest key value

/-- The entries of a list set one after the other. -/
def ofList (entries : List (String × α)) : Entries α :=
  entries.foldl (fun done entry => insert done entry.1 entry.2) []

/-- Takes a key out; the last entry moves into its place. -/
def remove? (entries : Entries α) (key : String) : Option (α × Entries α) :=
  match entries.findIdx? (·.1 == key), entries.getLast? with
  | some i, some last => (get? entries key).map fun value => (value, (entries.set i last).dropLast)
  | _, _ => none

theorem get?_cons (k : String) (v : α) (rest : Entries α) (key : String) :
    get? ((k, v) :: rest) key = if key = k then some v else get? rest key := by
  unfold get?
  rw [List.lookup_cons]
  by_cases h : key = k
  · simp [h]
  · simp [h, beq_false_of_ne h]

/-- A key that was set has its new value, and every other key is as before. -/
theorem get?_insert (entries : Entries α) (key : String) (value : α) (other : String) :
    (entries.insert key value).get? other =
      if other = key then some value else entries.get? other := by
  induction entries with
  | nil => simp [insert, get?_cons]
  | cons entry rest ih =>
    obtain ⟨k, v⟩ := entry
    by_cases hk : k = key
    · subst hk
      by_cases ho : other = k <;> simp [insert, get?_cons, ho]
    · by_cases ho : other = k
      · subst ho
        simp [insert, get?_cons, hk]
      · simp [insert, get?_cons, hk, ho, ih]

/-- Setting a key adds it at the end unless it is there. -/
theorem keys_insert (entries : Entries α) (key : String) (value : α) :
    (entries.insert key value).keys =
      if key ∈ entries.keys then entries.keys else entries.keys ++ [key] := by
  induction entries with
  | nil => simp [insert, keys]
  | cons entry rest ih =>
    obtain ⟨k, v⟩ := entry
    by_cases hk : k = key
    · simp [insert, keys, hk]
    · have hk' : key ≠ k := fun h => hk h.symm
      simp only [insert, if_neg hk, keys, List.map_cons, List.mem_cons, hk', false_or] at ih ⊢
      rw [ih]
      by_cases hm : key ∈ rest.map Prod.fst <;> simp only [hm, if_true, if_false, List.cons_append]

theorem nodup_keys_insert {entries : Entries α} (h : entries.keys.Nodup) (key : String)
    (value : α) : (entries.insert key value).keys.Nodup := by
  rw [keys_insert]
  split
  · exact h
  · rename_i hk
    rw [List.nodup_append]
    refine ⟨h, List.nodup_cons.mpr ⟨List.not_mem_nil, List.nodup_nil⟩, ?_⟩
    intro a ha b hb hab
    rw [List.mem_singleton] at hb
    exact hk (hb ▸ hab ▸ ha)

theorem nodup_keys_ofList (entries : List (String × α)) : (ofList entries).keys.Nodup := by
  have keep : ∀ done : Entries α, done.keys.Nodup →
      (entries.foldl (fun done entry => insert done entry.1 entry.2) done).keys.Nodup := by
    induction entries with
    | nil => exact fun _ h => h
    | cons entry rest ih => exact fun done h => ih _ (nodup_keys_insert h entry.1 entry.2)
  exact keep [] List.nodup_nil

end Entries

end JsonCollections
