import JsonCollections.Number.Decimal
import JsonCollections.Text.Hex

set_option autoImplicit false

/-!
# Http: addresses to listen on

The two families of addresses in their usual spellings.  Four decimal octets without leading zeros
make the one; eight hexadecimal groups, a run of zero groups perhaps written as two colons and the
last two perhaps as four octets, make the other.
-/

namespace JsonCollections.Http

/-- An address: four octets, or eight groups of sixteen bits. -/
inductive Address where
  | v4 (a b c d : UInt8)
  | v6 (groups : Vector UInt16 8)
  deriving DecidableEq, Repr

namespace Address

/-! ## Reading -/

/-- Takes one given character. -/
def char? (c : Char) : List Char → Option (List Char)
  | [] => none
  | d :: rest => if d = c then some rest else none

/-- Takes an octet. -/
def octet? (s : List Char) : Option (UInt8 × List Char) :=
  let (digits, rest) := Numeral.digits s
  let n := Nat.ofDigitChars 10 digits 0
  let leadingZero := digits.head? = some '0' ∧ digits.length ≠ 1
  if digits ≠ [] ∧ digits.length ≤ 3 ∧ n < UInt8.size ∧ ¬leadingZero then some (.ofNat n, rest)
  else none

/-- Four octets. -/
abbrev Octets : Type := UInt8 × UInt8 × UInt8 × UInt8

/-- Takes four octets with points between. -/
def octets? (s : List Char) : Option (Octets × List Char) := do
  let (a, s) ← octet? s
  let (b, s) ← octet? (← char? '.' s)
  let (c, s) ← octet? (← char? '.' s)
  let (d, s) ← octet? (← char? '.' s)
  some ((a, b, c, d), s)

/-- The two groups that four octets are. -/
def groupsOf : Octets → List UInt16
  | (a, b, c, d) => [a.toUInt16 * 256 + b.toUInt16, c.toUInt16 * 256 + d.toUInt16]

/-- A hexadecimal digit. -/
def isHex (c : Char) : Bool := (Text.hexDigit? c).isSome

/-- Takes a group. -/
def group? (s : List Char) : Option (UInt16 × List Char) :=
  let digits := s.takeWhile isHex
  if digits ≠ [] ∧ digits.length ≤ 4 then
    some (.ofNat (Text.hexValue digits), s.dropWhile isHex)
  else none

/-- Takes at most so many groups with colons between, and tells whether the last two were written
as octets. -/
def groups : Nat → Bool → List Char → List UInt16 × Bool × List Char
  | 0, _, s => ([], false, s)
  | left + 1, first, s =>
    match if first then some s else char? ':' s with
    | none => ([], false, s)
    | some t =>
      match if left = 0 then none else octets? t with
      | some (found, rest) => (groupsOf found, true, rest)
      | none =>
        match group? t with
        | some (g, rest) =>
          let (later, mixed, rest) := groups left false rest
          (g :: later, mixed, rest)
        | none => ([], false, s)

/-- Takes eight groups, or fewer with two colons for the missing zeros. -/
def eightGroups? (s : List Char) : Option (List UInt16 × List Char) :=
  match groups 8 true s with
  | (front, mixed, rest) =>
    if front.length = 8 then some (front, rest)
    else if mixed then none
    else do
      let rest ← char? ':' (← char? ':' rest)
      let (back, _, rest) := groups (7 - front.length) true rest
      some (front ++ List.replicate (8 - front.length - back.length) 0 ++ back, rest)

/-- The address of eight groups. -/
def ofGroups? (groups : List UInt16) : Option Address :=
  if h : groups.length = 8 then some (.v6 ⟨groups.toArray, h⟩) else none

/-- The address that a text spells. -/
def ofText? (s : String) : Option Address :=
  match octets? s.toList with
  | some ((a, b, c, d), []) => some (.v4 a b c d)
  | _ =>
    match eightGroups? s.toList with
    | some (groups, []) => ofGroups? groups
    | _ => none

/-! ## Writing -/

/-- Numbers with a separator between. -/
def separated (separator : String) (base : Nat) (ns : List Nat) : String :=
  separator.intercalate (ns.map fun n => String.ofList (Nat.toDigits base n))

/-- The length of the run of zeros at the beginning. -/
def zeros (groups : List Nat) : Nat := (groups.takeWhile (· = 0)).length

/-- The place and the length of the first of the longest runs of zeros. -/
def longestZeros : Nat → List Nat → Nat × Nat
  | _, [] => (0, 0)
  | i, g :: rest =>
    let here := zeros (g :: rest)
    let (place, length) := longestZeros (i + 1) rest
    if length ≤ here then (i, here) else (place, length)

/-- The spelling of groups; two zeros or more in a row are left out once. -/
def groupsText (groups : List Nat) : String :=
  match groups with
  | [0, 0, 0, 0, 0, 0xFFFF, a, b] =>
    "::ffff:" ++ separated "." 10 [a / 256, a % 256, b / 256, b % 256]
  | _ =>
    match longestZeros 0 groups with
    | (place, length) =>
      if length ≤ 1 then separated ":" 16 groups
      else separated ":" 16 (groups.take place) ++ "::" ++
        separated ":" 16 (groups.drop (place + length))

/-- The spelling of an address before a colon. -/
def text : Address → String
  | .v4 a b c d => separated "." 10 [a.toNat, b.toNat, c.toNat, d.toNat]
  | .v6 groups => "[" ++ groupsText (groups.toList.map UInt16.toNat) ++ "]"

end Address

/-- An address and the number that tells the services of one host apart. -/
structure Endpoint where
  host : Address
  number : UInt16
  deriving DecidableEq, Repr

namespace Endpoint

/-- The number that a text stands for; a signed integer is read, so `-0` is one. -/
def number? (s : String) : Option UInt16 :=
  match Numeral.signedInteger? s.toList with
  | some i => if 0 ≤ i ∧ i < UInt16.size then some (.ofNat i.toNat) else none
  | none => none

/-- The spelling of an endpoint. -/
def text (e : Endpoint) : String := e.host.text ++ ":" ++ toString e.number

end Endpoint

end JsonCollections.Http
