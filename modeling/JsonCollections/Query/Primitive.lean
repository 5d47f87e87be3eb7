import JsonCollections.Json.Basic
import JsonCollections.Number.Literal

set_option autoImplicit false

/-!
# Query: primitive operands

The values that clauses compare with.  Numbers are doubles whatever their form was; they match a
number whose nearest double has the same value.
-/

namespace JsonCollections

/-- A primitive value with numbers as doubles. -/
inductive Primitive where
  | null
  | bool (value : Bool)
  | number (value : Double)
  | string (value : String)
  deriving DecidableEq, Repr

namespace Primitive

/-- The primitive that a document is. -/
def ofJson? : Json → Option Primitive
  | .null => some .null
  | .bool b => some (.bool b)
  | .number n => some (.number n.toDouble)
  | .string s => some (.string s)
  | .array _ | .object _ => none

/-- The document of an operand; integral numbers are in integer form. -/
def toJson : Primitive → Json
  | .null => .null
  | .bool b => .bool b
  | .number x => .number (.ofOperand x)
  | .string s => .string s

/-- The document with numbers left as doubles. -/
def toDoubleJson : Primitive → Json
  | .number x => .number (.double x)
  | p => p.toJson

/-- Same kind and same value. -/
def matchesJson : Primitive → Json → Bool
  | .null, .null => true
  | .bool a, .bool b => a == b
  | .number x, .number n => n.toDouble.sameValue x
  | .string a, .string b => a == b
  | _, _ => false

/-- The primitive that the text of an operand stands for: a literal, else a number, else the text
itself. -/
def ofText (s : List Char) : Primitive :=
  if s = "true".toList then .bool true
  else if s = "false".toList then .bool false
  else if s = "null".toList then .null
  else
    match Double.ofText? s with
    | some x => .number x
    | none => .string (String.ofList s)

end Primitive

end JsonCollections
