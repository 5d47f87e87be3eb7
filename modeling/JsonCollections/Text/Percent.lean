import JsonCollections.Text.Hex

set_option autoImplicit false

/-!
# Text: percent escapes

A percent sign with two hexadecimal digits stands for an octet; any other percent sign stands for
itself.
-/

namespace JsonCollections.Text

/-- The octet that two hexadecimal digits stand for. -/
def escapedOctet? (high low : UInt8) : Option UInt8 :=
  match hexDigit? (Char.ofNat high.toNat), hexDigit? (Char.ofNat low.toNat) with
  | some high, some low => some (.ofNat (high * 16 + low))
  | _, _ => none

/-- Resolves percent escapes. -/
def percentDecode : List UInt8 → List UInt8
  | 0x25 :: high :: low :: rest =>
    match escapedOctet? high low with
    | some octet => octet :: percentDecode rest
    | none => 0x25 :: percentDecode (high :: low :: rest)
  | octet :: rest => octet :: percentDecode rest
  | [] => []

end JsonCollections.Text
