import JsonCollections.Storage.Basic
import JsonCollections.Text.Blank

set_option autoImplicit false

/-!
# Collection: where a collection is kept

A URL path leads to `items.json` in the directory of that path if there is one, and to the path
with `.json` at its end otherwise.  Paths that are empty, or that go up or stand still, lead to
nothing, so no path leads out of the base directory.
-/

namespace JsonCollections

namespace Location

/-! ## URL paths -/

/-- A small letter. -/
def isLetter (c : Char) : Bool := 'a' ≤ c && c ≤ 'z'

/-- A name of a served collection, or of one that holds it: a small letter, then small letters,
underscores and hyphens. -/
def isSegment : List Char → Bool
  | [] => false
  | c :: rest => isLetter c && rest.all fun c => isLetter c || c == '_' || c == '-'

/-- The URL path without slashes at its ends. -/
def relative (urlPath : String) : Path :=
  .ofChars (Text.strip (· == '/') urlPath.toList)

/-- The path consists of names only, of one at least. -/
def isPlain (p : Path) : Bool :=
  p.components ≠ [] && p.components.all fun
    | .name _ => true
    | _ => false

/-! ## Files -/

/-- The name of the file in the directory of a collection. -/
def itemsFile : String := "items.json"

/-- The end of the name of a collection that is one file. -/
def fileSuffix : String := ".json"

/-- The file behind a URL path. -/
def resolve {σ : Type} [Storage σ] (store : σ) (base : Path) (urlPath : String) : Option Path :=
  let inside := relative urlPath
  if isPlain inside then
    let place := base.join inside
    if Storage.isDirectory store place then some (place.child itemsFile)
    else some (place.withSuffix fileSuffix)
  else none

end Location

end JsonCollections
