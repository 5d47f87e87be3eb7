import JsonCollections.Query.Clause

set_option autoImplicit false

/-!
# Query: selecting, filtering and paging

A query keeps the items that meet all clauses of one of its filters, projects what is left to the
selected keys, skips `offset` of them and takes `limit`, always in that order.
-/

namespace JsonCollections

/-- Clauses that must all be met. -/
abbrev Filter : Type := List Clause

/-- A query; what is absent restricts nothing. -/
structure Query where
  select : Option (List String) := none
  filters : Option (List Filter) := none
  limit : Option UInt64 := none
  offset : Option UInt64 := none
  deriving DecidableEq, Repr, Inhabited

/-- Whether the item meets all clauses. -/
def Filter.matchesItem (filter : Filter) (item : Item) : Bool :=
  filter.all (·.matchesItem item)

/-- Whether the item meets one of the filters; no filters at all are met by every item. -/
def Filter.anyMatches (filters : List Filter) (item : Item) : Bool :=
  filters.isEmpty || filters.any (·.matchesItem item)

/-- The item with the selected keys only, in the order in which they are first selected; keys that
the item lacks are left out. -/
def Item.project (item : Item) (select : List String) : Item :=
  Entries.ofList (select.filterMap fun key => (item.get? key).map (key, ·))

namespace Query

/-- Whether the item passes the filters of the query. -/
def keeps (q : Query) (item : Item) : Bool := Filter.anyMatches (q.filters.getD []) item

/-- The item as the query shows it. -/
def shows (q : Query) (item : Item) : Item :=
  match q.select with
  | some select => item.project select
  | none => item

/-- The part of a list that the offset and the limit leave. -/
def page {α : Type} (q : Query) (items : List α) : List α :=
  let rest := items.drop (q.offset.getD 0).toNat
  match q.limit with
  | some n => rest.take n.toNat
  | none => rest

/-- The answer to the query. -/
def run (q : Query) (items : List Item) : List Item :=
  q.page ((items.filter q.keeps).map q.shows)

end Query

end JsonCollections
