import JsonCollections.Query.Basic
import JsonCollections.Text.Form

set_option autoImplicit false

/-!
# Query: queries as parameters

A query is given by decoded pairs.  All values of `select` count together, each value of `filter`
is one filter with its clauses between commas, and of `limit` and `offset` the first value counts.
A bad limit is reported before a bad offset and that before a bad clause.
-/

namespace JsonCollections.Query

/-- The values of a parameter, in order. -/
def values (name : String) (pairs : List (String × String)) : List String :=
  (pairs.filter (·.1 == name)).map Prod.snd

/-- The index in the first value of a parameter, or the given error. -/
def indexOf (name : String) (error : QueryError) (pairs : List (String × String)) :
    Except QueryError (Option UInt64) :=
  match (values name pairs).head? with
  | none => .ok none
  | some text =>
    match Numeral.index? text.toList with
    | some n => .ok (some n)
    | none => .error error

/-- The pieces of a text between commas. -/
def pieces (s : List Char) : List (List Char) := s.splitOn ','

/-- The selected keys, if any value selects. -/
def selectOf (texts : List String) : Option (List String) :=
  if texts = [] then none
  else some ((pieces ([','].intercalate (texts.map String.toList))).map String.ofList)

/-- The clauses of one value of `filter`. -/
def filterOf (text : String) : Except QueryError Filter :=
  (pieces text.toList).mapM Clause.ofChars

/-- The filters, if there is a value. -/
def filtersOf (texts : List String) : Except QueryError (Option (List Filter)) :=
  if texts = [] then .ok none else some <$> texts.mapM filterOf

/-- The query that decoded pairs stand for. -/
def ofPairs (pairs : List (String × String)) : Except QueryError Query := do
  let limit ← indexOf "limit" .invalidLimit pairs
  let offset ← indexOf "offset" .invalidOffset pairs
  let filters ← filtersOf (values "filter" pairs)
  .ok { select := selectOf (values "select" pairs), filters, limit, offset }

/-- The query that a form-encoded query string stands for. -/
def ofQueryString (s : String) : Except QueryError Query := ofPairs (Text.formPairs s)

end JsonCollections.Query
