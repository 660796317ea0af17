import RestArchive.Http.Library

/-! # The router

One archive serves several collections over HTTP. A request to a collection is answered in JSON and is
given an identifier of its own; the health check and the answers to requests that lead nowhere are not. -/

namespace RestArchive

/-- The names of the collections that are served. -/
structure Router where
  /-- The names. -/
  collections : List String

namespace Router

/-- Whether a byte is blank in a body without content. -/
def isBlank (byte : UInt8) : Bool :=
  byte = 32 || byte = 9 || byte = 10 || byte = 12 || byte = 13

/-- The value of a body; a blank one is an empty object. -/
def bodyOf (body : List UInt8) : Except RequestError Json :=
  if body.all isBlank then .ok (.object [])
  else
    match (Text.decodeUtf8? body).bind Json.ofText? with
    | some value => .ok value
    | none => .error .malformedBody

/-- The collection that a request goes to, and what it asks there: the collection must be served, then the
method must be one of the five, then the query string must not be rejected, and then the body must be
JSON. A parameter that the route does not have is empty. -/
def requestTo (router : Router) (method : String) (parameters : Entries String)
    (query : Except String (Entries String)) (body : List UInt8) :
    Except RequestError (String × Request) :=
  let name := (parameters.get? Route.collectionParameter).getD ""
  let path := (parameters.get? Route.pathParameter).getD ""
  if name ∉ router.collections then .error (.unknownCollection name)
  else
    match Verb.ofText? method, query with
    | none, _ => .error (.methodRefused method)
    | some _, .error reason => .error (.queryRejected reason)
    | some verb, .ok asked => (bodyOf body).map fun value => (name, ⟨verb, path, asked, value⟩)

/-- Answers a request to a collection. -/
def dispatch (router : Router) (validator : Validator) (archive : Archive) (method : String)
    (parameters : Entries String) (query : Except String (Entries String)) (body : List UInt8) :
    Except RequestError Reply × Archive :=
  match router.requestTo method parameters query body with
  | .error error => (.error error, archive)
  | .ok (name, request) => archive.handle validator name request

/-- Answers a request at an endpoint; `written` are the parameters as the path writes them. -/
def answer (library : HttpLibrary) (router : Router) (validator : Validator) (archive : Archive)
    (request : HttpRequest) (written : Entries String) : Endpoint → HttpResponse × Archive
  | .health => (.json 200 false (.object [("status", .string "ok")]), archive)
  | .unknownRoute =>
    (.json RequestError.unknownRoute.status false RequestError.unknownRoute.toJson, archive)
  | .dispatch =>
    match library.parameters written, library.refusal? request.body with
    | .error response, _ => (response, archive)
    | .ok _, some response => (response, archive)
    | .ok parameters, none =>
      let (answer, archive) := router.dispatch validator archive request.method parameters
        (library.query request.query) request.body
      (.ofAnswer answer, archive)

/-- Answers a request, on top of an HTTP library. -/
def respondWith (library : HttpLibrary) (router : Router) (validator : Validator)
    (archive : Archive) (request : HttpRequest) : HttpResponse × Archive :=
  let (response, archive) :=
    match library.route? Route.all request.path with
    | none => router.answer library validator archive request [] Route.fallback
    | some (route, written) =>
      if library.takes route.methods request.method then
        router.answer library validator archive request written route.endpoint
      else (library.methodNotAllowed route.methods, archive)
  (library.sent request.method response, archive)

/-- Answers a request. -/
def respond (router : Router) (validator : Validator) (archive : Archive) (request : HttpRequest) :
    HttpResponse × Archive :=
  router.respondWith .standard validator archive request

end Router

end RestArchive
