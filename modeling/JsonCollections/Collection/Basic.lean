import JsonCollections.Collection.Error
import JsonCollections.Collection.Location
import JsonCollections.Json.Writer
import JsonCollections.Query.Basic

set_option autoImplicit false

/-!
# Collection: loading and changing

A collection is one file that holds an array of objects.  It is loaded as a whole; `apply` is the
pure change that a mutation makes, and `mutate` stores the whole collection after it.  A failed
write leaves the change in the collection and not in the file.
-/

namespace JsonCollections

/-- Where collections are kept and how large they may grow. -/
structure Library where
  base : Path
  maxItems : Nat := 1000

/-- A loaded collection.  `lastId` is the greatest id seen at loading and assigned since. -/
structure Collection where
  filePath : Path
  urlPath : String
  lastId : Option ItemId
  maxItems : Nat
  items : List Item

/-- A change of one item. -/
inductive Mutation where
  | insert (item : Item)
  | update (id : ItemId) (item : Item)
  | patch (id : ItemId) (patch : Json.Patch)
  | delete (id : ItemId)

namespace Collection

/-! ## Loading -/

/-- The greatest numeric id of the items. -/
def greatestId (items : List Item) : Option ItemId := (items.filterMap Item.numericId?).max?

/-- The items that a text holds. -/
def itemsOfText (text : String) : Except LoadError (List Item) :=
  match Json.read text with
  | .error fault => .error (.notJson fault)
  | .ok document =>
    match document.objects? with
    | some items => .ok items
    | none => .error .notObjects

/-- The text that items are stored as. -/
def textOfItems (items : List Item) : String :=
  (Json.array (items.map .object)).indented ++ "\n"

/-- The collection behind a URL path. -/
def load {σ : Type} [Storage σ] (store : σ) (library : Library) (urlPath : String) :
    Except LoadError Collection :=
  match Location.resolve store library.base urlPath with
  | none => .error .notFound
  | some filePath =>
    match Storage.read store filePath with
    | .error fault => .error (.ofReadFault fault)
    | .ok text => do
      let items ← itemsOfText text
      .ok { filePath, urlPath, lastId := greatestId items, maxItems := library.maxItems, items }

/-! ## Looking -/

/-- The place of the first item with an id. -/
def position? (c : Collection) (id : ItemId) : Option Nat :=
  c.items.findIdx? fun item => item.id? == some id

/-- The first item with an id. -/
def find? (c : Collection) (id : ItemId) : Option Item :=
  c.items.find? fun item => item.id? == some id

/-- The answer to a query. -/
def query (c : Collection) (q : Query) : List Item := q.run c.items

/-! ## Changing -/

/-- The id that comes after the last one. -/
def nextId? : Option ItemId → Option ItemId
  | none => some 0
  | some n => if n + 1 < ItemId.bound then some (n + 1) else none

/-- The collection after a change and the item it answers: the new one, or the deleted one. -/
def apply (c : Collection) : Mutation → Except WriteError (Collection × Item)
  | .insert item =>
    if (item.get? Item.idKey).isSome then .error .extraId
    else if c.maxItems ≤ c.items.length then .error (.maxItems c.maxItems)
    else
      match nextId? c.lastId with
      | none => .error .idExhausted
      | some id =>
        let item := item.leadingId id
        .ok ({ c with lastId := some id, items := c.items ++ [item] }, item)
  | .update id item =>
    match c.position? id with
    | none => .error (.notFound id)
    | some i =>
      let item := item.withId id
      .ok ({ c with items := c.items.set i item }, item)
  | .patch id patch =>
    match c.position? id, c.find? id with
    | some i, some old =>
      match patch.run (.object old) with
      | .error error => .error (.invalidPatch error)
      | .ok (.object item) => .ok ({ c with items := c.items.set i item }, item)
      | .ok _ => .error (.patchNotObject id)
    | _, _ => .error (.notFound id)
  | .delete id =>
    match c.position? id, c.find? id with
    | some i, some old => .ok ({ c with items := c.items.eraseIdx i }, old)
    | _, _ => .error (.notFound id)

/-- Stores the collection: the whole file is replaced. -/
def storeIn {σ : Type} [Storage σ] (c : Collection) (store : σ) : σ × Except WriteFault Unit :=
  Storage.write store c.filePath (textOfItems c.items)

/-- Changes the collection and stores it. -/
def mutate {σ : Type} [Storage σ] (c : Collection) (store : σ) (m : Mutation) :
    σ × Collection × Except WriteError Item :=
  match c.apply m with
  | .error error => (store, c, .error error)
  | .ok (changed, item) =>
    match changed.storeIn store with
    | (store, .ok ()) => (store, changed, .ok item)
    | (store, .error fault) => (store, changed, .error (.store fault))

end Collection

end JsonCollections
