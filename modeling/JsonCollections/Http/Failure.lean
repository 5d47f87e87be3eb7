import JsonCollections.Collection.Error
import JsonCollections.Http.Message
import JsonCollections.Query.Error

set_option autoImplicit false

/-!
# Http: failures

Every failure has a status, a stable code and a message; a patch that fails names its operation.
-/

namespace JsonCollections.Http

/-- Why the body of a request is refused. -/
inductive BodyFault where
  /-- the body is not declared to be JSON -/
  | notDeclared
  /-- the body has more bytes than are taken -/
  | tooLong
  /-- the body is no document -/
  | notJson
  /-- the document is no patch -/
  | notPatch
  /-- the document is no object -/
  | notObject
  deriving DecidableEq, Repr

/-- The text for people.  What the reader of the body says of the place of a fault, in words of its
own after `.notJson` and `.notPatch`, is left out. -/
def BodyFault.message : BodyFault → String
  | .notDeclared => "Expected request with `Content-Type: application/json`"
  | .tooLong => "Failed to buffer the request body: length limit exceeded"
  | .notJson => "Failed to parse the request body as JSON"
  | .notPatch => "Failed to deserialize the JSON body into the target type"
  | .notObject => "Request body must be a JSON object"

/-- A failure as it is reported. -/
structure Failure where
  status : Nat
  code : String
  message : String
  operation : Option Nat := none
  deriving DecidableEq, Repr

namespace Failure

/-- Nothing is there. -/
def notFound (message : String) : Failure := ⟨404, "not-found", message, none⟩

/-- There is no item with this id. -/
def noItem (urlPath : String) (id : ItemId) : Failure :=
  notFound ("Item with id " ++ toString id ++ " not found in collection " ++ urlPath)

/-- The path addresses nothing. -/
def noTarget (path : String) : Failure := notFound ("No resource at /api/" ++ path)

/-- The method is not meant for what the path addresses. -/
def methodNotAllowed : Failure :=
  ⟨405, "method-not-allowed", "Method not allowed on this path", none⟩

/-- The query is refused. -/
def ofQueryError (e : QueryError) : Failure := ⟨400, e.code, e.message, none⟩

/-- The body is refused. -/
def ofBodyFault (fault : BodyFault) : Failure := ⟨400, "invalid-body", fault.message, none⟩

/-- The collection is not loaded. -/
def ofLoadError (urlPath : String) (e : LoadError) : Failure :=
  match e with
  | .notFound => notFound ("Collection with path " ++ urlPath ++ " not found")
  | e => ⟨500, e.code, e.message, none⟩

/-- The collection is not changed. -/
def ofWriteError (urlPath : String) (e : WriteError) : Failure :=
  match e with
  | .extraId => ⟨400, e.code, e.message, none⟩
  | .maxItems _ | .idExhausted => ⟨409, e.code, e.message, none⟩
  | .notFound id => noItem urlPath id
  | .invalidPatch error => ⟨422, e.code, e.message, some error.operation⟩
  | .patchNotObject _ => ⟨422, e.code, e.message, none⟩
  | .store _ => ⟨500, e.code, e.message, none⟩

/-- The document of a failure. -/
def toJson (f : Failure) : Json :=
  .object ([("code", .string f.code), ("message", .string f.message)] ++
    (f.operation.map fun i => ("meta", .object [("operation", .number (.ofNat i))])).toList)

/-- The response to a request that failed. -/
def response (f : Failure) : Response :=
  .json f.status (.object [("errors", .array [f.toJson])])

end Failure

end JsonCollections.Http
