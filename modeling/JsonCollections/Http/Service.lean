import JsonCollections.Collection.Basic
import JsonCollections.Collection.Listing
import JsonCollections.Http.Failure
import JsonCollections.Http.Target
import JsonCollections.Query.Parameters

set_option autoImplicit false

/-!
# Http: answering requests

A request is routed by its path, read as a command on a collection, and the command is carried
out.  Nothing is kept between requests but the store and the counters: every command loads its
collection anew.  The static files beside the collections are read by a service of their own: it
refuses the methods that do not read, and whatever else it answers is passed on.
-/

namespace JsonCollections.Http

/-! ## Routes -/

/-- The places that are served. -/
inductive Route where
  | health
  | counters
  | listing
  | resource (path : List Char)
  | assets (path : List Char)
  deriving DecidableEq, Repr

namespace Route

/-- What a service that is mounted at a path is asked for: the part after it, which begins with a
slash. -/
def below? (mount path : List Char) : Option (List Char) :=
  if path = mount then some ['/']
  else if (mount ++ ['/']).isPrefixOf path then some (path.drop mount.length)
  else none

/-- The route of a path; the part after `/api/` is not empty. -/
def ofPath? (path : List Char) : Option Route :=
  if path = "/health".toList then some .health
  else if path = "/metrics".toList then some .counters
  else if path = "/api".toList then some .listing
  else if Target.root.isPrefixOf path ∧ path ≠ Target.root then
    some (.resource (path.drop Target.root.length))
  else (below? "/assets".toList path).map .assets

/-- The methods of the route, as they are listed in a header. -/
def allow : Route → String
  | .resource _ => "GET,HEAD,POST,PUT,PATCH,DELETE"
  | _ => "GET,HEAD"

/-- The route takes the method. -/
def takes : Route → Method → Bool
  | _, .get | _, .head => true
  | .resource _, .post | .resource _, .put | .resource _, .patch | .resource _, .delete => true
  | _, _ => false

end Route

/-! ## Commands -/

/-- What a request asks of a collection. -/
inductive Command where
  | query (urlPath : String) (q : Query)
  | find (urlPath : String) (id : ItemId)
  | mutate (urlPath : String) (m : Mutation)

namespace Command

/-- The greatest length of the body of a request in bytes. -/
def maxBodyBytes : Nat := 0x200000

/-- The body of a request that is declared to be JSON. -/
def bodyOf (r : Request) : Except BodyFault String :=
  if !r.hasJson then .error .notDeclared
  else if maxBodyBytes < r.body.utf8ByteSize then .error .tooLong
  else .ok r.body

/-- The object at the beginning of the body of a request. -/
def objectOf (r : Request) : Except BodyFault Item := do
  match Json.readLeading (← bodyOf r) with
  | .ok (.object fields) => .ok fields
  | .ok _ => .error .notObject
  | .error _ => .error .notJson

/-- The patch at the beginning of the body of a request. -/
def patchOf (r : Request) : Except BodyFault Json.Patch := do
  match Json.Patch.readLeading (← bodyOf r) with
  | .ok patch => .ok patch
  | .error .shape => .error .notPatch
  | .error (.text _) => .error .notJson

/-- The command of a request on a target.  The kind of target is judged before the body. -/
def ofTarget (r : Request) (target : Target) : Except Failure Command :=
  match r.method, target with
  | .post, .collection urlPath =>
    ((objectOf r).mapError .ofBodyFault).map fun item => .mutate urlPath (.insert item)
  | .put, .item urlPath id =>
    ((objectOf r).mapError .ofBodyFault).map fun item => .mutate urlPath (.update id item)
  | .patch, .item urlPath id =>
    ((patchOf r).mapError .ofBodyFault).map fun patch => .mutate urlPath (.patch id patch)
  | .delete, .item urlPath id => .ok (.mutate urlPath (.delete id))
  | .get, .collection urlPath | .head, .collection urlPath =>
    ((Query.ofQueryString r.queryString).mapError .ofQueryError).map (.query urlPath ·)
  | .get, .item urlPath id | .head, .item urlPath id => .ok (.find urlPath id)
  | _, _ => .error .methodNotAllowed

/-- The command of a request on a path below `/api/`. -/
def ofRequest (r : Request) (path : String) : Except Failure Command :=
  match Target.ofText? path with
  | some target => ofTarget r target
  | none => .error (.noTarget path)

end Command

/-! ## Answers -/

/-- The status and the data of a request that succeeded. -/
structure Reply where
  status : Nat
  data : Json

/-- The response to a request that succeeded. -/
def Reply.response (reply : Reply) : Response :=
  .json reply.status (.object [("data", reply.data)])

/-- The reply to a mutation that was stored. -/
def Reply.ofMutation (m : Mutation) (item : Item) : Reply :=
  match m with
  | .insert _ =>
    ⟨201, .object [("insertedId", (item.get? Item.idKey).getD .null)]⟩
  | .delete id => ⟨200, .object [("deletedId", .number (.ofNat id))]⟩
  | _ => ⟨200, .object item⟩

/-- The kind of work of a method on what a path addresses; reading nothing is no work. -/
def Activity.of? (method : Method) (target : Option Target) : Option Activity :=
  match method, target with
  | .post, _ => some .insert
  | .put, _ => some .update
  | .patch, _ => some .patch
  | .delete, _ => some .delete
  | _, some (.collection _) => some .query
  | _, some (.item _ _) => some .get
  | _, none => none

/-! ## The service -/

/-- A store of collections with counters, and what reads the static files beside them. -/
structure Service (σ : Type) where
  store : σ
  library : Library
  counters : Counters := fun _ => 0
  /-- the answer to a request that reads the file at a path below a directory; without any static
  files nothing is found -/
  assets : σ → Path → List Char → Request → Response := fun _ _ _ _ => ⟨404, [], .empty⟩

namespace Service

variable {σ : Type}

/-- The service with one more attempt and its result counted. -/
def count (s : Service σ) (activity : Activity) (ok : Bool) : Service σ :=
  { s with counters := (s.counters.bump (.timed activity)).bump (.ended activity ok) }

variable [Storage σ]

/-- Carries out a command. -/
def execute (s : Service σ) (command : Command) : Service σ × Except Failure Reply :=
  let withCollection (urlPath : String)
      (use : Collection → Service σ × Except Failure Reply) : Service σ × Except Failure Reply :=
    match Collection.load s.store s.library urlPath with
    | .ok c => use c
    | .error e => (s, .error (.ofLoadError urlPath e))
  match command with
  | .query urlPath q =>
    withCollection urlPath fun c => (s, .ok ⟨200, .array ((c.query q).map .object)⟩)
  | .find urlPath id =>
    withCollection urlPath fun c =>
      match c.find? id with
      | some item => (s, .ok ⟨200, .object item⟩)
      | none => (s, .error (.noItem urlPath id))
  | .mutate urlPath m =>
    withCollection urlPath fun c =>
      match c.mutate s.store m with
      | (store, _, .ok item) => ({ s with store }, .ok (.ofMutation m item))
      | (store, _, .error e) => ({ s with store }, .error (.ofWriteError urlPath e))

/-- The response to a result. -/
def respond : Except Failure Reply → Response
  | .ok reply => reply.response
  | .error failure => failure.response

/-- Answers a request on a path below `/api/`, escapes resolved. -/
def answerResource (s : Service σ) (r : Request) (path : String) : Service σ × Response :=
  let (s, result) :=
    match Command.ofRequest r path with
    | .ok command => s.execute command
    | .error failure => (s, .error failure)
  match Activity.of? r.method (Target.ofText? path) with
  | some activity => (s.count activity result.isOk, respond result)
  | none => (s, respond result)

/-- The list of collections as a document. -/
def listing (s : Service σ) : Json :=
  .array ((Listing.discover s.store s.library.base).map fun l =>
    .object [("path", .string l.path.text), ("urlPath", .string l.urlPath)])

/-- Answers a request whose method the route takes. -/
def answerRoute (s : Service σ) (r : Request) : Route → Service σ × Response
  | .health => (s, .text 200 "ok")
  | .counters => (s, ⟨200, [Response.textType], .counters s.counters⟩)
  | .listing => (s.count .discover true, (Reply.mk 200 s.listing).response)
  | .resource path =>
    match Text.Utf8.decode? (Text.percentDecode (Text.Utf8.encode path)) with
    | some path => s.answerResource r (String.ofList path)
    | none => (s, .text 400 "Invalid URL: Invalid UTF-8 in `path`")
  | .assets path => (s, s.assets s.store (s.library.base.child "assets") path r)

/-- Answers a request of a browser whether it may ask.  The methods of static files are known to
the service behind the route only, which is not asked. -/
def answerOptions (route : Option Route) : Response :=
  let allow :=
    match route with
    | none | some (.assets _) => []
    | some route => [("allow", route.allow)]
  ⟨200, allow ++ [("access-control-allow-methods", "*"), ("access-control-allow-headers", "*")],
    .empty⟩

/-- Answers a request. -/
def handle (s : Service σ) (r : Request) : Service σ × Response :=
  let route := Route.ofPath? r.path
  let (s, response) :=
    match r.method, route with
    | .options, _ => (s, answerOptions route)
    | _, none => (s, ⟨404, [], .empty⟩)
    | method, some route =>
      if route.takes method then s.answerRoute r route
      else (s, ⟨405, [("allow", route.allow)], .empty⟩)
  let response := response.withHeader "access-control-allow-origin" "*"
  (s, if r.method = .head then response.withoutBody else response)

/-- The service after requests in order, and the responses. -/
def handleAll (s : Service σ) : List Request → Service σ × List Response
  | [] => (s, [])
  | r :: rest =>
    let (s, response) := s.handle r
    let (s, responses) := s.handleAll rest
    (s, response :: responses)

end Service

end JsonCollections.Http
