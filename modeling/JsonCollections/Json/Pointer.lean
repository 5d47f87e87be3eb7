import JsonCollections.Json.Basic

set_option autoImplicit false

/-!
# Json: places inside documents

A pointer is a text of tokens, each after a slash; `~1` and `~0` stand for a slash and a tilde.
The empty text is the whole document.  A token leads to the value under a key of an object or to
an item of an array, whose index is written without sign and without leading zeros.
-/

namespace JsonCollections.Json

/-! ## Tokens -/

/-- Resolves the two escapes of a token. -/
def unescapeToken : List Char → List Char
  | '~' :: '1' :: rest => '/' :: unescapeToken rest
  | '~' :: '0' :: rest => '~' :: unescapeToken rest
  | c :: rest => c :: unescapeToken rest
  | [] => []

/-- The tokens of a pointer. -/
def tokens? : List Char → Option (List String)
  | [] => some []
  | '/' :: rest => some ((rest.splitOn '/').map fun t => String.ofList (unescapeToken t))
  | _ => none

/-- The index that a token stands for. -/
def index? (token : String) : Option Nat :=
  match token.toList with
  | [] => none
  | ['0'] => some 0
  | '0' :: _ => none
  | digits => if digits.all Char.isDigit then some (Nat.ofDigitChars 10 digits 0) else none

/-! ## Looking and changing -/

/-- The value at a place. -/
def at? : Json → List String → Option Json
  | v, [] => some v
  | .object fields, token :: rest =>
    match Entries.get? fields token with
    | some v => v.at? rest
    | none => none
  | .array items, token :: rest =>
    match (index? token).bind (items[·]?) with
    | some v => v.at? rest
    | none => none
  | _, _ :: _ => none

/-- The document with the value at a place changed, if there is one and it can be. -/
def alter? (change : Json → Option Json) : Json → List String → Option Json
  | v, [] => change v
  | .object fields, token :: rest =>
    match Entries.get? fields token with
    | some v => (v.alter? change rest).map fun w => .object (Entries.insert fields token w)
    | none => none
  | .array items, token :: rest =>
    match index? token with
    | none => none
    | some i =>
      match items[i]? with
      | some v => (v.alter? change rest).map fun w => .array (items.set i w)
      | none => none
  | _, _ :: _ => none

/-- A container with a value set under a token: a key, an index up to the length, or the end. -/
def setChild? (token : String) (value : Json) : Json → Option Json
  | .object fields => some (.object (Entries.insert fields token value))
  | .array items =>
    if token = "-" then some (.array (items ++ [value]))
    else
      match index? token with
      | some i => if i ≤ items.length then some (.array (items.insertIdx i value)) else none
      | none => none
  | _ => none

/-- A container without the value under a token. -/
def takeChild? (token : String) : Json → Option Json
  | .object fields => (Entries.remove? fields token).map fun (_, rest) => .object rest
  | .array items =>
    match index? token with
    | some i => if i < items.length then some (.array (items.eraseIdx i)) else none
    | none => none
  | _ => none

/-- The document with a value put at a place. -/
def put? (document : Json) (place : List String) (value : Json) : Option Json :=
  match place.getLast? with
  | none => some value
  | some last => document.alter? (setChild? last value) place.dropLast

/-- The value at a place and the document without it; the whole document cannot be taken. -/
def take? (document : Json) (place : List String) : Option (Json × Json) :=
  match place.getLast? with
  | none => none
  | some last => do
    let value ← document.at? place
    let rest ← document.alter? (takeChild? last) place.dropLast
    some (value, rest)

end JsonCollections.Json
