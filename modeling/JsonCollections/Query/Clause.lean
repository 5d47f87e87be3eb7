import JsonCollections.Collection.Item
import JsonCollections.Query.Error
import JsonCollections.Query.Primitive
import JsonCollections.Text.Cut
import JsonCollections.Text.Search

set_option autoImplicit false

/-!
# Query: clauses

A clause is a path into an item and a condition on the value there.  A path leads through objects
only; a clause whose path leads nowhere, or to an object or an array, matches under no operator.
-/

namespace JsonCollections

/-! ## Operators -/

/-- The order operators. -/
inductive Comparison where
  | lt
  | gt
  | lte
  | gte
  deriving DecidableEq, Repr

/-- The equality operators. -/
inductive Equality where
  | eq
  | neq
  deriving DecidableEq, Repr

/-- An operator as it is named in a clause. -/
inductive Operator where
  | comparison (op : Comparison)
  | contains
  | equality (op : Equality)
  deriving DecidableEq, Repr

namespace Operator

/-- The name in clauses. -/
def name : Operator → String
  | .comparison .lt => "lt"
  | .comparison .gt => "gt"
  | .comparison .lte => "lte"
  | .comparison .gte => "gte"
  | .contains => "sub"
  | .equality .eq => "eq"
  | .equality .neq => "neq"

/-- All operators. -/
def all : List Operator :=
  [.comparison .lt, .comparison .gt, .comparison .lte, .comparison .gte, .contains,
    .equality .eq, .equality .neq]

/-- The operator of this name. -/
def ofName? (s : String) : Option Operator := all.find? (·.name == s)

/-- The operator of this name, or the error that names it. -/
def ofName (s : String) : Except QueryError Operator :=
  match ofName? s with
  | some op => .ok op
  | none => .error (.invalidOperator s)

/-- Names are read back, and nothing else is. -/
theorem ofName?_eq_some_iff (s : String) (op : Operator) : ofName? s = some op ↔ s = op.name := by
  constructor
  · intro h
    have := List.find?_some h
    rw [beq_iff_eq] at this
    exact this.symm
  · rintro rfl
    cases op with
    | comparison op => cases op <;> rfl
    | contains => rfl
    | equality op => cases op <;> rfl

end Operator

/-! ## Conditions -/

/-- An operator with an operand of the type it takes. -/
inductive Condition where
  | comparison (op : Comparison) (operand : Double)
  | contains (operand : String)
  | equality (op : Equality) (operand : Primitive)
  deriving DecidableEq, Repr

namespace Condition

/-- The operator of the condition. -/
def operator : Condition → Operator
  | .comparison op _ => .comparison op
  | .contains _ => .contains
  | .equality op _ => .equality op

/-- The operand as a document. -/
def operand : Condition → Json
  | .comparison _ x => .number (.ofOperand x)
  | .contains s => .string s
  | .equality _ p => p.toJson

end Condition

/-- The order of values that an operator asks for. -/
def Comparison.holds (op : Comparison) (x y : Double) : Bool :=
  match op with
  | .lt => x.lt y
  | .gt => y.lt x
  | .lte => x.le y
  | .gte => y.le x

/-- Whether a value meets the condition; objects and arrays meet none. -/
def Condition.holds : Condition → Json → Bool
  | _, .object _ => false
  | _, .array _ => false
  | .comparison op x, .number n => op.holds n.toDouble x
  | .comparison _ _, _ => false
  | .contains s, .string t => Text.occursIn s.toList t.toList
  | .contains _, _ => false
  | .equality .eq p, v => p.matchesJson v
  | .equality .neq p, v => !p.matchesJson v

/-! ## Clauses -/

/-- A condition on the value at a path. -/
structure Clause where
  path : List String
  condition : Condition
  deriving DecidableEq, Repr

namespace Item

/-- The value at a path of keys through nested objects; the empty path leads nowhere. -/
def valueAt? : Item → List String → Option Json
  | _, [] => none
  | item, [key] => item.get? key
  | item, key :: rest =>
    match item.get? key with
    | some (.object inner) => valueAt? inner rest
    | _ => none

end Item

namespace Clause

/-- The keys of a path written with dots. -/
def pathOfText (s : List Char) : List String := (s.splitOn '.').map String.ofList

/-- Whether the item meets the clause. -/
def matchesItem (clause : Clause) (item : Item) : Bool :=
  match Item.valueAt? item clause.path with
  | some v => clause.condition.holds v
  | none => false

/-- The condition of an operator and the text of an operand. -/
def conditionOfText (op : Operator) (value : List Char) : Except QueryError Condition :=
  match op with
  | .comparison op =>
    match Double.ofText? value with
    | some x => .ok (.comparison op x)
    | none => .error (.invalidValue (String.ofList value))
  | .contains => .ok (.contains (String.ofList value))
  | .equality op => .ok (.equality op (.ofText value))

/-- The clause written as path, operator and operand with colons between; the operand may hold
colons itself. -/
def ofChars (s : List Char) : Except QueryError Clause := do
  match Text.cut? ':' s with
  | none => .error (.invalidClause (String.ofList s))
  | some (path, rest) =>
    match Text.cut? ':' rest with
    | none => .error (.invalidClause (String.ofList s))
    | some (name, value) =>
      let op ← Operator.ofName (String.ofList name)
      let condition ← conditionOfText op value
      .ok ⟨pathOfText path, condition⟩

/-- The clause that a text stands for. -/
def ofText (s : String) : Except QueryError Clause := ofChars s.toList

end Clause

end JsonCollections
