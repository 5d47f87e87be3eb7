set_option autoImplicit false

/-!
# Query: why a query is refused

`code` is the stable name of the cause, `message` the text for people.
-/

namespace JsonCollections

/-- Why a query is refused. -/
inductive QueryError where
  /-- the limit is no index -/
  | invalidLimit
  /-- the offset is no index -/
  | invalidOffset
  /-- the text has fewer than three parts -/
  | invalidClause (text : String)
  /-- there is no operator of this name -/
  | invalidOperator (name : String)
  /-- the operator does not take this operand -/
  | invalidValue (text : String)
  deriving DecidableEq, Repr

namespace QueryError

/-- The stable name of the cause. -/
def code : QueryError → String
  | .invalidLimit => "invalid-limit"
  | .invalidOffset => "invalid-offset"
  | .invalidClause _ => "invalid-filter-clause"
  | .invalidOperator _ => "invalid-filter-operator"
  | .invalidValue _ => "invalid-filter-value"

/-- The text for people. -/
def message : QueryError → String
  | .invalidLimit => "Limit must be a number"
  | .invalidOffset => "Offset must be a number"
  | .invalidClause text => "Clause " ++ text ++ " is not a valid filter clause"
  | .invalidOperator name => "Operator " ++ name ++ " is not a valid operator"
  | .invalidValue text => "Value " ++ text ++ " is not a valid number"

end QueryError

end JsonCollections
