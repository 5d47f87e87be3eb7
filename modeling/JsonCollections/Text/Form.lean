import JsonCollections.Text.Cut
import JsonCollections.Text.Percent
import JsonCollections.Text.Utf8

set_option autoImplicit false

/-!
# Text: form-encoded pairs

A query string is a list of pairs separated by `&`, each cut at its first `=`.  In both halves `+`
is a blank and percent escapes are resolved after that.
-/

namespace JsonCollections.Text

/-- One half of a pair: `+` is a blank, escapes are octets, ill-formed stretches are replaced. -/
def formDecode (s : List Char) : String :=
  String.ofList (Utf8.decodeLossy (percentDecode (Utf8.encode
    (s.map fun c => if c = '+' then ' ' else c))))

/-- The pairs of a query string, in order; empty pieces are skipped. -/
def formPairs (s : String) : List (String × String) :=
  ((s.toList.splitOn '&').filter (· ≠ [])).map fun piece =>
    let (key, value) := (cut? '=' piece).getD (piece, [])
    (formDecode key, formDecode value)

end JsonCollections.Text
