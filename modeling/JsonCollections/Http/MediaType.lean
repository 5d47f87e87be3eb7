set_option autoImplicit false

/-!
# Http: media types

The value of a content type header: a type, a subtype, perhaps a suffix after the last plus sign,
and parameters.  Types are compared without regard to the case of ASCII letters.
-/

namespace JsonCollections.Http

/-- The names in a content type header; parameters do not count. -/
structure MediaType where
  type : List Char
  subtype : List Char
  suffix : Option (List Char)
  deriving DecidableEq, Repr

namespace MediaType

/-- The characters of names. -/
def isToken (c : Char) : Bool := c.isAlphanum || "!#$%&'*+-.^_`|~".toList.contains c

/-- The characters inside quotes; only ASCII reaches a header as text. -/
def isQuotable (c : Char) : Bool := 0x20 ≤ c.toNat && c.toNat ≤ 0x7E

/-- Where in the parameters a reader stands; `fresh` means that nothing has been read there. -/
inductive Reading where
  | name (fresh : Bool)
  | value (fresh : Bool)
  | quoted (fresh : Bool)
  | afterQuote
  deriving DecidableEq, Repr

/-- The parameters after a semicolon are well-formed. -/
def parametersOk : Reading → List Char → Bool
  | .name fresh, [] => fresh
  | .quoted _, [] => false
  | _, [] => true
  | .name fresh, c :: rest =>
    if c = ' ' ∧ fresh then parametersOk (.name true) rest
    else if isToken c then parametersOk (.name false) rest
    else c = '=' && !fresh && parametersOk (.value true) rest
  | .value fresh, c :: rest =>
    if c = '"' ∧ fresh then parametersOk (.quoted true) rest
    else if isToken c then parametersOk (.value false) rest
    else c = ';' && !fresh && parametersOk (.name true) rest
  | .quoted fresh, c :: rest =>
    if c = '"' ∧ !fresh then parametersOk .afterQuote rest
    else isQuotable c && parametersOk (.quoted false) rest
  | .afterQuote, c :: rest =>
    if c = ' ' then parametersOk .afterQuote rest
    else c = ';' && parametersOk (.name true) rest

/-- A subtype cut at its last plus sign that is not its first character. -/
def cutSuffix (s : List Char) : List Char × Option (List Char) :=
  let suffix := (s.reverse.takeWhile (· ≠ '+')).reverse
  let stem := s.take (s.length - suffix.length - 1)
  if suffix.length < s.length ∧ stem ≠ [] then (stem, some suffix) else (s, none)

/-- The media type that a header value names. -/
def ofChars? (s : List Char) : Option MediaType :=
  let s := s.map Char.toLower
  let type := s.takeWhile isToken
  match s.dropWhile isToken with
  | '/' :: rest =>
    let subtype := rest.takeWhile isToken
    let (stem, suffix) := cutSuffix subtype
    let found : MediaType := ⟨type, stem, suffix⟩
    if type = [] then none
    else
      match rest.dropWhile isToken with
      | [] => some found
      | ';' :: parameters =>
        if subtype ≠ [] ∧ parametersOk (.name true) parameters then some found else none
      | _ => none
  | _ => none

/-- Bodies of this type are JSON documents. -/
def isJson (m : MediaType) : Bool :=
  m.type == "application".toList &&
    (m.subtype == "json".toList || m.suffix == some "json".toList)

end MediaType

end JsonCollections.Http
