set_option autoImplicit false

/-!
# Text: decoding UTF-8 octet by octet

`decode` turns octets into characters and marks every ill-formed stretch: a stretch is a longest
start of a well-formed sequence that does not go on, or a single octet that starts none.  Reading
strictly refuses marks, reading leniently writes the replacement character for each.
-/

namespace JsonCollections.Text.Utf8

/-- A sequence that has begun: the bits so far, how many octets are owed, and the range in which
the next one must lie. -/
structure Begun where
  bits : Nat
  owed : Nat
  low : Nat
  high : Nat
  deriving DecidableEq, Repr

/-- What the first octet of a sequence says. -/
inductive First where
  /-- a sequence of one octet -/
  | whole (c : Char)
  /-- the first octet of a longer sequence -/
  | start (b : Begun)
  /-- no sequence begins like this -/
  | never

/-- The well-formed beginnings of sequences. -/
def first (b : Nat) : First :=
  if b < 0x80 then .whole (Char.ofNat b)
  else if b < 0xC2 then .never
  else if b < 0xE0 then .start ⟨b - 0xC0, 1, 0x80, 0xBF⟩
  else if b = 0xE0 then .start ⟨0, 2, 0xA0, 0xBF⟩
  else if b = 0xED then .start ⟨0xD, 2, 0x80, 0x9F⟩
  else if b < 0xF0 then .start ⟨b - 0xE0, 2, 0x80, 0xBF⟩
  else if b = 0xF0 then .start ⟨0, 3, 0x90, 0xBF⟩
  else if b < 0xF4 then .start ⟨b - 0xF0, 3, 0x80, 0xBF⟩
  else if b = 0xF4 then .start ⟨4, 3, 0x80, 0x8F⟩
  else .never

/-- Reads on, between sequences or inside one.  `none` marks an ill-formed stretch. -/
def decodeFrom : Option Begun → List UInt8 → List (Option Char)
  | none, [] => []
  | some _, [] => [none]
  | state, octet :: rest =>
    let b := octet.toNat
    let restart (marks : List (Option Char)) : List (Option Char) :=
      match first b with
      | .whole c => marks ++ some c :: decodeFrom none rest
      | .start begun => marks ++ decodeFrom (some begun) rest
      | .never => marks ++ none :: decodeFrom none rest
    match state with
    | none => restart []
    | some s =>
      if s.low ≤ b ∧ b ≤ s.high then
        let bits := s.bits * 64 + (b - 0x80)
        if s.owed = 1 then some (Char.ofNat bits) :: decodeFrom none rest
        else decodeFrom (some ⟨bits, s.owed - 1, 0x80, 0xBF⟩) rest
      else restart [none]

/-- The characters of a text in octets, with a mark for every ill-formed stretch. -/
def decode (octets : List UInt8) : List (Option Char) := decodeFrom none octets

/-- The text, if it is well-formed. -/
def decode? (octets : List UInt8) : Option (List Char) := (decode octets).mapM id

/-- The text with the replacement character for every ill-formed stretch. -/
def decodeLossy (octets : List UInt8) : List Char := (decode octets).map (·.getD '\uFFFD')

/-- The octets of a text. -/
def encode (s : List Char) : List UInt8 := s.flatMap String.utf8EncodeChar

end JsonCollections.Text.Utf8
