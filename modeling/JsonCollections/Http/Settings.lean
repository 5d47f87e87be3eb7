import JsonCollections.Collection.Basic
import JsonCollections.CommandLine.Arguments
import JsonCollections.Http.Address

set_option autoImplicit false

/-!
# Http: settings of a server

The base directory, the endpoint to listen on, and the greatest size of a collection, as arguments
give them.
-/

namespace JsonCollections.Http

open JsonCollections.CommandLine

/-- The settings of a server. -/
structure Settings where
  base : String
  endpoint : Endpoint
  maxItems : Nat
  deriving DecidableEq, Repr

namespace Settings

/-- The settings without any arguments. -/
def initial : Settings := ⟨".", ⟨.v4 0 0 0 0, 4000⟩, 1000⟩

/-- Something is read, or the value is refused. -/
def judge {α : Type} (read : String → Option α) (s : String) : Except ArgumentFault Unit :=
  if (read s).isSome then .ok () else .error .badValue

/-- The number of items that a text stands for. -/
def maxItems? (s : String) : Option Nat := (Numeral.word? s.toList).map UInt64.toNat

/-- The arguments of a server. -/
def grammar : Grammar where
  options :=
    [{ name := "host", judge := judge Address.ofText? },
      { name := "port", short := some 'p', judge := judge Endpoint.number? },
      { name := "max-items", judge := judge maxItems? }]
  positionals := [{ name := "base", judge := judgePath }]

/-- The settings that arguments give. -/
def ofArguments (arguments : List String) : Except ArgumentFault Settings := do
  let values ← grammar.read arguments
  .ok {
    base := (values.get? "base").getD initial.base
    endpoint := {
      host := ((values.get? "host").bind Address.ofText?).getD initial.endpoint.host
      number := ((values.get? "port").bind Endpoint.number?).getD initial.endpoint.number }
    maxItems := ((values.get? "max-items").bind maxItems?).getD initial.maxItems }

/-- The library that is served. -/
def library (s : Settings) : Library := { base := .ofText s.base, maxItems := s.maxItems }

end Settings

end JsonCollections.Http
