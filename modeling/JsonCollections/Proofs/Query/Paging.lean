import JsonCollections.Query.Basic

set_option autoImplicit false

/-!
# Pages of an answer

The offset and the limit of a query cut a page out of what the filters keep, and the selection
changes what is shown of each item and not which items are shown.  So two pages side by side are one
longer page (`run_append_run`), and the pages of one size one after the other are the whole answer
(`flatten_pages`).
-/

namespace JsonCollections.Query

/-! ## One page -/

/-- The query for a page of another place and size. -/
def onPage (q : Query) (offset limit : UInt64) : Query :=
  { q with offset := some offset, limit := some limit }

/-- The query that shows the items as they are stored. -/
def whole (q : Query) : Query := { q with select := none }

/-- The items that pass the filters of the query, as they are stored. -/
def kept (q : Query) (items : List Item) : List Item := items.filter q.keeps

theorem run_onPage (q : Query) (offset limit : UInt64) (items : List Item) :
    (q.onPage offset limit).run items =
      (((q.kept items).map q.shows).drop offset.toNat).take limit.toNat := rfl

theorem page_map {α β : Type} (q : Query) (f : α → β) (xs : List α) :
    q.page (xs.map f) = (q.page xs).map f := by
  unfold page
  cases q.limit with
  | none => exact List.map_drop.symm
  | some n => simp only [List.map_drop, List.map_take]

theorem page_sublist {α : Type} (q : Query) (xs : List α) : (q.page xs).Sublist xs := by
  have hrest := List.drop_sublist (q.offset.getD 0).toNat xs
  unfold page
  cases q.limit with
  | none => exact hrest
  | some n => exact (List.take_sublist n.toNat _).trans hrest

/-- Which items are shown does not depend on what is shown of them. -/
theorem run_eq_map_whole (q : Query) (items : List Item) :
    q.run items = (q.whole.run items).map q.shows := by
  have hwhole : q.whole.run items = q.page (q.kept items) := congrArg q.page (List.map_id _)
  rw [hwhole, ← page_map]
  rfl

theorem whole_run_sublist (q : Query) (items : List Item) :
    (q.whole.run items).Sublist (q.kept items) := by
  have hwhole : q.whole.run items = q.page (q.kept items) := congrArg q.page (List.map_id _)
  exact hwhole ▸ q.page_sublist (q.kept items)

/-! ## Pages side by side -/

/-- Two pages side by side are one page of the size of both. -/
theorem run_append_run (q : Query) (items : List Item) {offset first second : UInt64}
    (hoffset : offset.toNat + first.toNat < UInt64.size)
    (hlimit : first.toNat + second.toNat < UInt64.size) :
    (q.onPage offset first).run items ++ (q.onPage (offset + first) second).run items =
      (q.onPage offset (first + second)).run items := by
  have hstart : (offset + first).toNat = offset.toNat + first.toNat := by
    rw [UInt64.toNat_add, Nat.mod_eq_of_lt hoffset]
  have hsize : (first + second).toNat = first.toNat + second.toNat := by
    rw [UInt64.toNat_add, Nat.mod_eq_of_lt hlimit]
  rw [run_onPage, run_onPage, run_onPage, hstart, hsize, List.take_add, List.drop_drop]

/-- The first pages of one size, one for each place. -/
def pages (q : Query) (size : UInt64) (count : Nat) (items : List Item) : List (List Item) :=
  (List.range count).map fun i => (q.onPage (.ofNat (i * size.toNat)) size).run items

/-- How many pages of a size a number of items fills, the last one perhaps in part. -/
def pageCount (size : UInt64) (length : Nat) : Nat := (length + size.toNat - 1) / size.toNat

/-- The first pages hold what is shown first. -/
theorem flatten_pages_eq_take (q : Query) (items : List Item) (size : UInt64) {count : Nat}
    (hcount : ∀ i < count, i * size.toNat < UInt64.size) :
    (q.pages size count items).flatten =
      ((q.kept items).map q.shows).take (count * size.toNat) := by
  induction count with
  | zero => rw [Nat.zero_mul]; rfl
  | succ count ih =>
    have hplace : (UInt64.ofNat (count * size.toNat)).toNat = count * size.toNat :=
      UInt64.toNat_ofNat_of_lt (hcount count (Nat.lt_succ_self count))
    have hpages : q.pages size (count + 1) items =
        q.pages size count items ++ [(q.onPage (.ofNat (count * size.toNat)) size).run items] := by
      unfold pages
      rw [List.range_succ, List.map_append, List.map_singleton]
    rw [hpages, List.flatten_append, List.flatten_singleton,
      ih fun i hi => hcount i (Nat.lt_succ_of_lt hi), run_onPage, hplace, Nat.succ_mul,
      List.take_add]

/-- A page is counted only if an item is on it. -/
theorem mul_lt_of_lt_pageCount {size : UInt64} (hsize : 0 < size.toNat) {length i : Nat}
    (hi : i < pageCount size length) : i * size.toNat < length := by
  have hnext : (i + 1) * size.toNat ≤ length + size.toNat - 1 :=
    (Nat.le_div_iff_mul_le hsize).mp hi
  rw [Nat.succ_mul] at hnext
  omega

theorem le_pageCount_mul {size : UInt64} (hsize : 0 < size.toNat) (length : Nat) :
    length ≤ pageCount size length * size.toNat := by
  have hrest := Nat.mod_lt (length + size.toNat - 1) hsize
  have hparts := Nat.div_add_mod' (length + size.toNat - 1) size.toNat
  unfold pageCount
  omega

/-- All pages of one size together are all that is shown. -/
theorem flatten_pages (q : Query) {items : List Item} {size : UInt64} (hsize : 0 < size.toNat)
    (hlength : (q.kept items).length < UInt64.size) :
    (q.pages size (pageCount size (q.kept items).length) items).flatten =
      (q.kept items).map q.shows := by
  have hplaces : ∀ i < pageCount size (q.kept items).length, i * size.toNat < UInt64.size :=
    fun i hi => Nat.lt_trans (mul_lt_of_lt_pageCount hsize hi) hlength
  rw [flatten_pages_eq_take q items size hplaces, List.take_of_length_le]
  rw [List.length_map]
  exact le_pageCount_mul hsize _

/-- How the pages of an answer fit together, and what the selection has to do with them. -/
structure Paged (q : Query) (items : List Item) : Prop where
  /-- two pages side by side are one page of the size of both -/
  tiled : ∀ offset first second : UInt64, offset.toNat + first.toNat < UInt64.size →
    first.toNat + second.toNat < UInt64.size →
      (q.onPage offset first).run items ++ (q.onPage (offset + first) second).run items =
        (q.onPage offset (first + second)).run items
  /-- keys are selected from each item that is shown without a selection -/
  projected : ∀ keys, ({ q with select := some keys }).run items =
    (q.whole.run items).map (·.project keys)
  /-- without a selection some of the items that pass the filters are shown, in stored order -/
  stored : (q.whole.run items).Sublist (items.filter q.keeps)
  /-- and all of them, each once and in stored order, on all pages of one size -/
  complete : ∀ size : UInt64, 0 < size.toNat → (items.filter q.keeps).length < UInt64.size →
    (q.whole.pages size (pageCount size (items.filter q.keeps).length) items).flatten =
      items.filter q.keeps

/-- Pages tile the answer to every query, and the selection does not interfere. -/
theorem paged (q : Query) (items : List Item) : Paged q items where
  tiled _ _ _ hoffset hlimit := run_append_run q items hoffset hlimit
  projected keys := run_eq_map_whole { q with select := some keys } items
  stored := whole_run_sublist q items
  complete _ hsize hlength := (flatten_pages q.whole hsize hlength).trans (List.map_id _)

/-- Three items are on two pages of two, the last one filled in part. -/
theorem paged_three :
    (({} : Query).whole.pages 2 2 [[("a", .null)], [("b", .null)], [("c", .null)]]).flatten =
      [[("a", .null)], [("b", .null)], [("c", .null)]] :=
  (paged {} [[("a", .null)], [("b", .null)], [("c", .null)]]).complete 2 (by decide) (by decide)

end JsonCollections.Query
