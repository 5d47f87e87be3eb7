import JsonCollections.Json.Writer
import JsonCollections.Query.Basic

set_option autoImplicit false

/-!
# Query: queries as documents

A clause is written as the triple of its path, the name of its operator and its operand; a query
is an object with the keys `select`, `filters`, `limit` and `offset`, absent parts left out.
Reading takes the entries in the order of the document and reports the first bad thing; it also
takes a list of the parts.
-/

namespace JsonCollections

/-- Why a document is no clause or no query. -/
inductive DocumentFault where
  /-- it does not have the form -/
  | shape
  /-- it has the form, but a clause in it is refused -/
  | query (error : QueryError)
  deriving DecidableEq, Repr

/-! ## Parts of documents -/

/-- The text that a document is. -/
def Json.readString : Json → Except DocumentFault String
  | .string s => .ok s
  | _ => .error .shape

/-- The list that a document is, each item read. -/
def Json.readList {α : Type} (read : Json → Except DocumentFault α) :
    Json → Except DocumentFault (List α)
  | .array items => items.mapM read
  | _ => .error .shape

/-- The unsigned 64-bit integer that a document is. -/
def Json.readWord : Json → Except DocumentFault UInt64
  | .number (.integer i _) => if 0 ≤ i then .ok (.ofNat i.toNat) else .error .shape
  | _ => .error .shape

/-- What a document is, `null` standing for nothing. -/
def Json.readOptional {α : Type} (read : Json → Except DocumentFault α) :
    Json → Except DocumentFault (Option α)
  | .null => .ok none
  | v => some <$> read v

namespace Clause

/-! ## Clauses -/

/-- The triple of a clause. -/
def toJson (clause : Clause) : Json :=
  .array [.array (clause.path.map .string), .string clause.condition.operator.name,
    clause.condition.operand]

/-- The condition of an operator and a document as operand. -/
def conditionOfJson (op : Operator) (v : Json) : Except QueryError Condition :=
  match op, v with
  | .comparison op, .number n => .ok (.comparison op n.toDouble)
  | .contains, .string s => .ok (.contains s)
  | .equality op, v =>
    match Primitive.ofJson? v with
    | some p => .ok (.equality op p)
    | none => .error (.invalidValue v.compact)
  | _, v => .error (.invalidValue v.compact)

/-- The clause that a document is. -/
def ofJson : Json → Except DocumentFault Clause
  | .array [path, .string name, v] => do
    let path ← Json.readList Json.readString path
    let condition ← ((Operator.ofName name).bind (conditionOfJson · v)).mapError .query
    .ok ⟨path, condition⟩
  | _ => .error .shape

end Clause

namespace Query

/-! ## Queries -/

/-- The document of a query. -/
def toJson (q : Query) : Json :=
  .object <|
    (q.select.map fun keys => ("select", .array (keys.map .string))).toList ++
    (q.filters.map fun filters =>
      ("filters", .array (filters.map fun f => .array (f.map Clause.toJson)))).toList ++
    (q.limit.map fun n => ("limit", .number (.ofNat n.toNat))).toList ++
    (q.offset.map fun n => ("offset", .number (.ofNat n.toNat))).toList

/-- The query with one entry of a document read into it; unknown keys are passed over. -/
def setEntry (q : Query) (entry : String × Json) : Except DocumentFault Query :=
  match entry with
  | ("select", v) => do
    let select ← Json.readOptional (Json.readList Json.readString) v
    .ok { q with select }
  | ("filters", v) => do
    let filters ← Json.readOptional (Json.readList (Json.readList Clause.ofJson)) v
    .ok { q with filters }
  | ("limit", v) => do
    let limit ← Json.readOptional Json.readWord v
    .ok { q with limit }
  | ("offset", v) => do
    let offset ← Json.readOptional Json.readWord v
    .ok { q with offset }
  | _ => .ok q

/-- The keys of the parts, in the order in which a list gives them. -/
def partNames : List String := ["select", "filters", "limit", "offset"]

/-- The query that a document is: an object with the parts as entries, or a list of the parts from
the first on. -/
def ofJson : Json → Except DocumentFault Query
  | .object fields => fields.foldlM setEntry default
  | .array parts => do
    let q ← (partNames.zip parts).foldlM setEntry default
    if parts.length ≤ partNames.length then .ok q else .error .shape
  | _ => .error .shape

end Query

end JsonCollections
