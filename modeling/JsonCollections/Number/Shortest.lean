import JsonCollections.Number.Decimal

set_option autoImplicit false

/-!
# Number: the shortest decimal that reads back

For one, two, … seventeen digits the two decimals beside the value on that grid are tried, the
nearer first; the first that is read back as the same double is taken.  Should none be, the exact
decimal expansion is the answer, so `toDouble?_shortest` needs no count of digits.

`Layout` says how such a decimal is written down.
-/

namespace JsonCollections

namespace Double

/-! ## Grids of decimals -/

/-- Grids are counted in units of `10 ^ -gridBase`, finer than any grid in use. -/
def gridBase : Nat := 400

/-- The decimal exponent of the leading digit of a nonzero double. -/
def leadExponent (x : Double) : Int :=
  (Nat.toDigits 10 (x.magnitude * Nat.pow 10 gridBase / unit)).length - 1 - gridBase

/-- The decimals with step `10 ^ exponent` on both sides of the value, the nearer one first and of
two equally near the even one first. -/
def neighbours (x : Double) (exponent : Int) : List Decimal :=
  let num := x.magnitude * Nat.pow 10 gridBase
  let den := unit * Nat.pow 10 (exponent + gridBase).toNat
  let low := num / den
  let near := roundDiv num den
  let far := if near = low then low + 1 else low
  [⟨x.negative, near, exponent⟩, ⟨x.negative, far, exponent⟩]

/-- The exact value as a decimal: `2 ^ -1074` is `5 ^ 1074 * 10 ^ -1074`. -/
def exactDecimal (x : Double) : Decimal :=
  ⟨x.negative, x.magnitude * Nat.pow 5 fractionBits, -(fractionBits : Int)⟩

/-- A decimal with at most seventeen digits that is read back as `x`, with as few as possible. -/
def shortDecimal? (x : Double) : Option Decimal :=
  (List.range 17).findSome? fun (n : Nat) =>
    (x.neighbours (x.leadExponent - n)).find? fun d => d.toDouble? = some x

/-- The shortest decimal that is read back as the same double. -/
def shortest (x : Double) : Decimal :=
  if x.significand = 0 then ⟨x.negative, 0, 0⟩ else x.shortDecimal?.getD x.exactDecimal

end Double

/-! ## Writing decimals -/

/-- How decimals are laid out: which exponents of the leading digit are written positionally. -/
structure Layout where
  positionalFrom : Int
  positionalTo : Int
  deriving DecidableEq, Repr

namespace Layout

/-- The digits without the zeros at the end. -/
def significant (digits : List Char) : List Char :=
  (digits.reverse.dropWhile (· = '0')).reverse

/-- The digits with a point after the first `n`, padded so that digits stand on both sides. -/
def positional (digits : List Char) (n : Int) : List Char :=
  match n with
  | .ofNat (n + 1) =>
    let whole := (digits ++ List.replicate (n + 1 - digits.length) '0').take (n + 1)
    let fraction := digits.drop (n + 1)
    whole ++ '.' :: (if fraction = [] then ['0'] else fraction)
  | n => '0' :: '.' :: List.replicate (-n).toNat '0' ++ digits

/-- One digit, a point and the others if there are any, and the exponent with its sign. -/
def scientific (digits : List Char) (exponent : Int) : List Char :=
  let mantissa :=
    match digits with
    | d :: e :: rest => d :: '.' :: e :: rest
    | short => short
  mantissa ++ 'e' :: (if exponent < 0 then '-' else '+') :: Nat.toDigits 10 exponent.natAbs

/-- A decimal in this layout. -/
def write (layout : Layout) (d : Decimal) : List Char :=
  let all := Nat.toDigits 10 d.digits
  let exponent := if d.digits = 0 then 0 else d.exponent + all.length - 1
  let digits := if d.digits = 0 then ['0'] else significant all
  let body :=
    if layout.positionalFrom ≤ exponent ∧ exponent ≤ layout.positionalTo then
      positional digits (exponent + 1)
    else scientific digits exponent
  if d.negative then '-' :: body else body

end Layout

end JsonCollections
