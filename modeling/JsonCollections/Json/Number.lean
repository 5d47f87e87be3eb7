import JsonCollections.Number.Shortest

set_option autoImplicit false

/-!
# Json: the two forms of numbers

A number is an integer of at most 64 bits, signed or unsigned, or a double.  The form is kept: `1`
and `1.0` are different numbers with the same value.  `ofNumeral?` decides the form of a numeral,
`text` writes it, and the exact value in both forms is `scaled`, counted in units of `2 ^ -1074`.
-/

namespace JsonCollections.Json

/-- A number in integer form or as a double. -/
inductive Number where
  | integer (value : Int) (inRange : -0x8000000000000000 ≤ value ∧ value < 0x10000000000000000)
  | double (value : Double)
  deriving DecidableEq, Repr

namespace Number

/-! ## Values -/

/-- The exact value in units of `2 ^ -1074`. -/
def scaled : Number → Int
  | .integer i _ => i * Double.unit
  | .double x => x.scaled

/-- The nearest double. -/
def toDouble : Number → Double
  | .integer i _ => (Double.ofInt? i).getD default
  | .double x => x

/-- Same form and same value; the sign of zero does not count. -/
def same : Number → Number → Bool
  | .integer i _, .integer j _ => i == j
  | .double x, .double y => x.sameValue y
  | _, _ => false

/-- An integer in integer form if it has at most 64 bits. -/
def ofInt? (i : Int) : Option Number :=
  if h : -0x8000000000000000 ≤ i ∧ i < 0x10000000000000000 then some (.integer i h) else none

theorem ofInt?_of_inRange {i : Int} (h : -0x8000000000000000 ≤ i ∧ i < 0x10000000000000000) :
    ofInt? i = some (.integer i h) := dif_pos h

/-- A natural number, in integer form if it has at most 64 bits. -/
def ofNat (n : Nat) : Number := (ofInt? n).getD (.double ((Double.ofInt? n).getD default))

/-- A signed word in integer form. -/
def ofSigned (w : Int64) : Number :=
  .integer w.toInt ⟨w.le_toInt, Int.lt_trans w.toInt_lt (by decide)⟩

/-- The number of a filter operand: a double is cast to integer form if it is integral and its
absolute value is in range. -/
def ofOperand (x : Double) : Number := if x.isSigned then ofSigned x.toSigned else .double x

/-! ## Text -/

/-- The number a numeral stands for, from its sign, whole part, fraction part and exponent, the
last two if written.  Integer form needs neither, fits in 64 bits and is not a negative zero. -/
def ofNumeral? (negative : Bool) (whole : List Char) (fraction : Option (List Char))
    (exponent : Option Int) : Option Number :=
  let n : Nat := Nat.ofDigitChars 10 whole 0
  let integral := fraction.isNone && exponent.isNone && !(negative && n == 0)
  match if integral then ofInt? (if negative then -(n : Int) else n) else none with
  | some i => some i
  | none =>
    (Decimal.ofParts negative whole (fraction.getD []) (exponent.getD 0)).toDouble?.map .double

/-- Doubles with a leading digit from `10 ^ -5` to `10 ^ 15` are written positionally. -/
def layout : Layout := ⟨-5, 15⟩

/-- The text of a number. -/
def text : Number → List Char
  | .integer i _ => if i < 0 then '-' :: Nat.toDigits 10 i.natAbs else Nat.toDigits 10 i.natAbs
  | .double x => layout.write x.shortest

end Number

end JsonCollections.Json
