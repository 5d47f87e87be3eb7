import JsonCollections.Http.Counter
import JsonCollections.Http.MediaType
import JsonCollections.Http.Uri
import JsonCollections.Json.Writer

set_option autoImplicit false

/-!
# Http: requests and responses

A request holds what routing and reading look at; the body of a response is a value that whoever
sends it writes down.
-/

namespace JsonCollections.Http

/-- The methods that are told apart. -/
inductive Method where
  | get
  | head
  | post
  | put
  | patch
  | delete
  | options
  | other
  deriving DecidableEq, Repr

/-- The method of this name. -/
def Method.ofName : String → Method
  | "GET" => .get
  | "HEAD" => .head
  | "POST" => .post
  | "PUT" => .put
  | "PATCH" => .patch
  | "DELETE" => .delete
  | "OPTIONS" => .options
  | _ => .other

/-- A request. -/
structure Request where
  method : Method
  uri : String
  headers : List (String × String) := []
  body : String := ""

namespace Request

/-- The path that is asked for. -/
def path (r : Request) : List Char := Uri.path r.uri.toList

/-- The query string; empty if there is none. -/
def queryString (r : Request) : String := String.ofList (Uri.queryString r.uri.toList)

/-- The first value of a header, whose name is compared without regard to case. -/
def header? (r : Request) (name : String) : Option String :=
  (r.headers.find? fun h => h.1.toList.map Char.toLower == name.toList).map Prod.snd

/-- The body is declared to be a JSON document. -/
def hasJson (r : Request) : Bool :=
  match (r.header? "content-type").bind fun v => MediaType.ofChars? v.toList with
  | some m => m.isJson
  | none => false

end Request

/-- The body of a response. -/
inductive Body where
  | empty
  | text (s : String)
  | json (v : Json)
  | counters (values : Counters)

/-- A response. -/
structure Response where
  status : Nat
  headers : List (String × String) := []
  body : Body := .empty

namespace Response

/-- The type of plain text. -/
def textType : String × String := ("content-type", "text/plain; charset=utf-8")

/-- A response with plain text. -/
def text (status : Nat) (s : String) : Response := ⟨status, [textType], .text s⟩

/-- A response with a document. -/
def json (status : Nat) (v : Json) : Response :=
  ⟨status, [("content-type", "application/json")], .json v⟩

/-- The response without its body. -/
def withoutBody (r : Response) : Response := { r with body := .empty }

/-- The response with one more header. -/
def withHeader (r : Response) (name value : String) : Response :=
  { r with headers := r.headers ++ [(name, value)] }

end Response

end JsonCollections.Http
