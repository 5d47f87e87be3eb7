import JsonCollections.Number.Decimal
import JsonCollections.Text.Blank

set_option autoImplicit false

/-!
# Number: numbers written by people

The numerals that filter values, textual ids and page limits hold, white space around them apart.
-/

namespace JsonCollections

/-- The finite double that a text stands for. -/
def Double.ofText? (s : List Char) : Option Double :=
  (Numeral.read? (Text.trim s)).bind Decimal.toDouble?

/-- The word that digits with an optional plus sign stand for, if they are below `2 ^ 64`. -/
def Numeral.word? (s : List Char) : Option UInt64 :=
  let body :=
    match s with
    | '+' :: t => t
    | t => t
  let n := Nat.ofDigitChars 10 body 0
  if body ≠ [] ∧ body.all Char.isDigit ∧ n < UInt64.size then some (.ofNat n) else none

/-- The word that a text stands for. -/
def Numeral.index? (s : List Char) : Option UInt64 := word? (Text.trim s)

end JsonCollections
