import JsonCollections.Proofs.Entries
import JsonCollections.Query.Basic
import Mathlib.Data.List.Induction

set_option autoImplicit false

/-!
# Projections

A projection is made by setting one selected key after the other.  A key that is selected again is
set to the value that it has (`Item.project_concat_of_mem`), so a projection has each key once and in
the order of first selection, and a projection of a projection is one of the item
(`Item.project_project`).
-/

namespace JsonCollections

namespace Entries

variable {α : Type}

theorem ofList_concat (entries : List (String × α)) (entry : String × α) :
    ofList (entries ++ [entry]) = (ofList entries).insert entry.1 entry.2 := by
  rw [ofList, List.foldl_append]
  rfl

/-- Setting a key to the value that it has changes nothing. -/
theorem insert_of_get? {entries : Entries α} {key : String} {value : α}
    (h : entries.get? key = some value) : entries.insert key value = entries := by
  induction entries with
  | nil => cases h
  | cons entry rest ih =>
    obtain ⟨k, v⟩ := entry
    rw [get?_cons] at h
    rw [insert]
    by_cases hk : key = k
    · rw [if_pos hk] at h
      rw [if_pos hk.symm, Option.some.inj h]
    · rw [if_neg hk] at h
      rw [if_neg (Ne.symm hk), ih h]

end Entries

namespace Item

/-! ## One key more -/

/-- A key that is selected last is set last, if the item has it. -/
theorem project_concat (item : Item) (select : List String) (key : String) :
    item.project (select ++ [key]) =
      match item.get? key with
      | some value => (item.project select).insert key value
      | none => item.project select := by
  unfold project
  cases hkey : item.get? key with
  | none =>
    simp only [List.filterMap_append, List.filterMap_cons, List.filterMap_nil, hkey,
      Option.map_none, List.append_nil]
  | some value =>
    simp only [List.filterMap_append, List.filterMap_cons, List.filterMap_nil, hkey,
      Option.map_some, Entries.ofList_concat]

theorem get?_project (item : Item) (select : List String) (key : String) :
    (item.project select).get? key = if key ∈ select then item.get? key else none := by
  induction select using List.reverseRecOn with
  | nil => rfl
  | append_singleton select last ih =>
    rw [project_concat]
    cases hlast : item.get? last with
    | none =>
      by_cases hkey : key = last
      · rw [hkey] at ih ⊢
        simp only [ih, hlast, ite_self]
      · simp only [ih, List.mem_append, List.mem_singleton, hkey, or_false]
    | some value =>
      rw [Entries.get?_insert, ih]
      by_cases hkey : key = last
      · rw [if_pos hkey, if_pos (hkey ▸ List.mem_concat_self), hkey, hlast]
      · simp only [hkey, List.mem_append, List.mem_singleton, or_false, if_false]

theorem mem_keys_project {item : Item} {select : List String} {key : String} :
    key ∈ (item.project select).keys ↔ key ∈ select ∧ item.get? key ≠ none := by
  rw [← not_iff_not, ← Entries.get?_eq_none_iff, get?_project]
  split
  · simp only [*, true_and, not_not]
  · simp only [*, false_and, not_false_iff]

/-- A key that is selected again changes nothing. -/
theorem project_concat_of_mem (item : Item) {select : List String} {key : String}
    (h : key ∈ select) : item.project (select ++ [key]) = item.project select := by
  rw [project_concat]
  split
  · rename_i value hvalue
    refine Entries.insert_of_get? ?_
    rw [get?_project, if_pos h, hvalue]
  · rfl

theorem project_of_repeated (item : Item) {before : List String} {key : String}
    (h : key ∈ before) (after : List String) :
    item.project (before ++ key :: after) = item.project (before ++ after) := by
  induction after using List.reverseRecOn with
  | nil => rw [project_concat_of_mem item h, List.append_nil]
  | append_singleton after last ih =>
    rw [← List.cons_append, ← List.append_assoc, ← List.append_assoc, project_concat,
      project_concat, ih]

/-! ## The order of keys -/

/-- Keys come in the order in which they are first selected. -/
theorem pairwise_keys_project (item : Item) (select : List String) :
    (item.project select).keys.Pairwise fun a b => select.idxOf a < select.idxOf b := by
  induction select using List.reverseRecOn with
  | nil => exact .nil
  | append_singleton select last ih =>
    have hselect : ∀ key ∈ (item.project select).keys, key ∈ select :=
      fun key hkey => (mem_keys_project.mp hkey).1
    have hkept : (item.project select).keys.Pairwise fun a b =>
        (select ++ [last]).idxOf a < (select ++ [last]).idxOf b := by
      refine ih.imp_of_mem fun {a b} ha hb hlt => ?_
      rwa [List.idxOf_append_of_mem (hselect a ha), List.idxOf_append_of_mem (hselect b hb)]
    by_cases hlast : last ∈ select
    · rwa [project_concat_of_mem item hlast]
    · rw [project_concat]
      split
      · have hnew : last ∉ (item.project select).keys := fun hkey => hlast (hselect last hkey)
        rw [Entries.keys_insert, if_neg hnew, List.pairwise_append]
        refine ⟨hkept, List.pairwise_singleton _ _, fun a ha b hb => ?_⟩
        rw [List.mem_singleton.mp hb, List.idxOf_append_of_mem (hselect a ha),
          List.idxOf_append_of_notMem hlast]
        exact Nat.lt_add_right _ (List.idxOf_lt_length_of_mem (hselect a ha))
      · exact hkept

/-! ## Projections of projections -/

theorem project_project (item : Item) (select others : List String) :
    (item.project select).project others = item.project (others.filter (· ∈ select)) := by
  unfold project
  rw [List.filterMap_filter]
  refine congrArg Entries.ofList (List.filterMap_congr fun key _ => ?_)
  change ((item.project select).get? key).map (key, ·) = _
  rw [get?_project]
  by_cases hkey : key ∈ select
  · rw [if_pos hkey, if_pos (decide_eq_true hkey)]
  · rw [if_neg hkey, if_neg (fun h => hkey (of_decide_eq_true h)), Option.map_none]

/-- What a projection of an item is. -/
structure Projected (item : Item) (select : List String) : Prop where
  /-- its entries are those of the item under the selected keys -/
  mem_iff : ∀ key value, (key, value) ∈ item.project select ↔
    key ∈ select ∧ item.get? key = some value
  /-- it has no key twice -/
  nodup : (item.project select).keys.Nodup
  /-- its keys are in the order in which they are first selected -/
  ordered : (item.project select).keys.Pairwise fun a b => select.idxOf a < select.idxOf b
  /-- projecting it again selects from what was selected -/
  composed : ∀ others,
    (item.project select).project others = item.project (others.filter (· ∈ select))
  /-- projecting it to the same keys changes nothing -/
  idempotent : (item.project select).project select = item.project select
  /-- selecting a key again changes nothing -/
  repeated : ∀ before key after, select = before ++ key :: after → key ∈ before →
    item.project select = item.project (before ++ after)

/-- A projection has the selected keys of the item, and projections compose. -/
theorem projection (item : Item) (select : List String) : item.Projected select where
  mem_iff key value := by
    have hnodup : (item.project select).keys.Nodup := Entries.nodup_keys_ofList _
    have hget : (key, value) ∈ item.project select ↔
        (item.project select).get? key = some value :=
      ⟨Entries.get?_of_mem hnodup, Entries.mem_of_get?_eq_some⟩
    rw [hget, get?_project]
    split
    · exact (and_iff_right ‹_›).symm
    · exact ⟨nofun, fun h => absurd h.1 ‹_›⟩
  nodup := Entries.nodup_keys_ofList _
  ordered := pairwise_keys_project item select
  composed := project_project item select
  idempotent := by
    have hall : select.filter (· ∈ select) = select :=
      List.filter_eq_self.mpr fun _ hkey => decide_eq_true hkey
    rw [project_project, hall]
  repeated before key after hselect hkey := by
    rw [hselect, project_of_repeated item hkey]

/-- The second `b` does not move the key, and `c` is missing. -/
example : Item.project [("a", .bool true), ("b", .null)] ["b", "c", "a", "b"] =
    [("b", .null), ("a", .bool true)] := rfl

end Item

end JsonCollections
