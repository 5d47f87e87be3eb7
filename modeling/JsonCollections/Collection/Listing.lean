import JsonCollections.Collection.Location
import JsonCollections.Text.Ending

set_option autoImplicit false

/-!
# Collection: the collections of a base directory

A walk through `api` lists the files `api/<name>.json` and `api/<name>/items.json`, in the order of
the walk.  Deeper collections are not listed.
-/

namespace JsonCollections

/-- A listed collection: its file and its URL path. -/
structure Listing where
  path : Path
  urlPath : String
  deriving DecidableEq, Repr

namespace Listing

/-- The directory that holds all collections. -/
def apiDirectory : String := "api"

/-- The end of the path of a collection that is a directory. -/
def itemsSuffix : String := "/" ++ Location.itemsFile

/-- The path of a file below the base directory: slashes are between the names that lead to it. -/
def spelled (names : List String) : List Char := ['/'].intercalate (names.map String.toList)

/-- The path of the file is that of the directory of collections, a name, and an ending. -/
def isCollection (ending : String) (file : List Char) : Bool :=
  let front := (apiDirectory ++ "/").toList
  let name := (file.drop front.length).take (file.length - front.length - ending.length)
  front ++ name ++ ending.toList == file && Location.isSegment name

/-- The URL path of a file is its path without the ending. -/
def urlPathOfFile (ending : String) (file : List Char) : String :=
  "/" ++ String.ofList (Text.trimEnd ending.toList file)

/-- The URL path of the collection that a file holds, if it holds one.  The names lead to the file
from the base directory. -/
def urlPath? (names : List String) : Option String :=
  let file := spelled names
  if isCollection itemsSuffix file then some (urlPathOfFile itemsSuffix file)
  else if isCollection Location.fileSuffix file then
    some (urlPathOfFile Location.fileSuffix file)
  else none

/-- The collections below a base directory. -/
def discover {σ : Type} [Storage σ] (store : σ) (base : Path) : List Listing :=
  let directory := base.child apiDirectory
  if Storage.isDirectory store directory then
    (Storage.files store directory).filterMap fun names =>
      (urlPath? (apiDirectory :: names)).map fun urlPath => ⟨directory.descend names, urlPath⟩
  else []

end Listing

end JsonCollections
