import JsonCollections.Number.Double

set_option autoImplicit false

/-!
# Number: decimal numerals and the doubles nearest to them

A decimal is a sign, a natural number of digits and a power of ten.  `Decimal.toDouble?` is the
correctly rounded double.  `Double.ofText?` reads the numerals that filter clauses and textual ids
may hold: an optional sign, digits with an optional point on either side, an optional exponent.
-/

namespace JsonCollections

/-- The number `± digits * 10 ^ exponent`. -/
structure Decimal where
  negative : Bool
  digits : Nat
  exponent : Int
  deriving DecidableEq, Repr

namespace Decimal

/-- The power of ten just above the number: `|x| < 10 ^ ceiling`. -/
def ceiling (d : Decimal) : Int := (Nat.toDigits 10 d.digits).length + d.exponent

/-- The nearest double; `none` if the number is beyond the largest one.  Outside `10 ^ ±330` the
answer is known without computing the power. -/
def toDouble? (d : Decimal) : Option Double :=
  if d.digits = 0 then some (.zero d.negative)
  else if 330 < d.ceiling then none
  else if d.ceiling < -330 then some (.zero d.negative)
  else
    match d.exponent with
    | .ofNat e => Double.nearest? d.negative (d.digits * Nat.pow 10 e * Double.unit) 1
    | .negSucc e => Double.nearest? d.negative (d.digits * Double.unit) (Nat.pow 10 (e + 1))

/-- The decimal written as an integer part, a fraction part and an exponent. -/
def ofParts (negative : Bool) (whole fraction : List Char) (exponent : Int) : Decimal :=
  ⟨negative, Nat.ofDigitChars 10 (whole ++ fraction) 0, exponent - fraction.length⟩

end Decimal

/-! ## Numerals -/

namespace Numeral

/-- The leading digits and what follows them. -/
def digits (s : List Char) : List Char × List Char :=
  (s.takeWhile Char.isDigit, s.dropWhile Char.isDigit)

/-- An optional sign, as "is it a minus", and what follows it. -/
def sign : List Char → Bool × List Char
  | '-' :: s => (true, s)
  | '+' :: s => (false, s)
  | s => (false, s)

/-- A run of digits that is the whole text, with an optional sign in front. -/
def signedInteger? (s : List Char) : Option Int :=
  let (negative, body) := sign s
  if body ≠ [] ∧ body.all Char.isDigit then
    let n : Nat := Nat.ofDigitChars 10 body 0
    some (if negative then -(n : Int) else n)
  else none

/-- The exponent part that ends a numeral: nothing, or `e` and a signed integer. -/
def exponent? : List Char → Option Int
  | [] => some 0
  | c :: s => if c = 'e' ∨ c = 'E' then signedInteger? s else none

/-- A plain numeral: sign, digits with an optional point on either side, exponent. -/
def read? (s : List Char) : Option Decimal :=
  let (negative, body) := sign s
  let (whole, afterWhole) := digits body
  let (fraction, afterFraction) :=
    match afterWhole with
    | '.' :: t => digits t
    | t => ([], t)
  if whole = [] ∧ fraction = [] then none
  else (exponent? afterFraction).map (Decimal.ofParts negative whole fraction)

end Numeral

end JsonCollections
