set_option autoImplicit false

/-!
# Http: URIs

A request names its resource in one of three ways: by a path, by a scheme and an authority with a
path after them, or by an authority alone.  Who is asked does not matter; only the path and the
query string do.  The fragment, which begins at `#`, belongs to neither.
-/

namespace JsonCollections.Http.Uri

/-! ## Scheme and authority -/

/-- The characters of a scheme. -/
def isSchemeChar (c : Char) : Bool := c.isAlphanum || c == '+' || c == '-' || c == '.'

/-- What follows a scheme and `://`. -/
def afterScheme? (uri : List Char) : Option (List Char) :=
  match uri.dropWhile isSchemeChar with
  | ':' :: '/' :: '/' :: rest => some rest
  | _ => none

/-- The characters that end an authority. -/
def endsAuthority (c : Char) : Bool := c == '/' || c == '?' || c == '#'

/-- The path and what follows it: a path stands after its authority unless it is empty, and then
it is a slash; an authority alone has no path. -/
def fromPath (uri : List Char) : List Char :=
  match uri, afterScheme? uri with
  | '/' :: _, _ => uri
  | _, some rest =>
    match rest.dropWhile fun c => !endsAuthority c with
    | '/' :: path => '/' :: path
    | other => '/' :: other
  | _, none => []

/-! ## Path and query -/

/-- The path and the query string with its question mark. -/
def location (uri : List Char) : List Char := (fromPath uri).takeWhile (· ≠ '#')

/-- The path. -/
def path (uri : List Char) : List Char := (location uri).takeWhile (· ≠ '?')

/-- The query string; empty if there is none. -/
def queryString (uri : List Char) : List Char := ((location uri).dropWhile (· ≠ '?')).drop 1

end JsonCollections.Http.Uri
