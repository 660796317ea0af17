import RestArchive.Http.Message
import RestArchive.Http.Route
import RestArchive.Text.Percent

/-! # The HTTP library

What the router leaves to the library that it is built on is a parameter, `HttpLibrary`: which route a path
takes, which methods a route takes, what parameters and query strings are read as, and which bodies are
refused. `HttpLibrary.standard` is the library that the program runs with. -/

namespace RestArchive

/-- What is left to an HTTP library. -/
structure HttpLibrary where
  /-- The route of a list that a path takes, and its parameters as the path writes them. -/
  route? : List Route → String → Option (Route × Entries String)
  /-- Whether a route for these methods takes a method. -/
  takes : Methods → String → Bool
  /-- The response to a method that a route for these methods does not take. -/
  methodNotAllowed : Methods → HttpResponse
  /-- What the parameters of a path stand for, or the response when they stand for nothing. -/
  parameters : Entries String → Except HttpResponse (Entries String)
  /-- The parameters of a query string, or why it is rejected. -/
  query : String → Except String (Entries String)
  /-- The response to a body that is refused. -/
  refusal? : List UInt8 → Option HttpResponse
  /-- A response as it is sent to a request with a method. -/
  sent : String → HttpResponse → HttpResponse

namespace PatternPart

/-- The parameters that a pattern gets from the segments of a path, if it matches them. A parameter is empty
only when more segments follow, and the rest of a path is not empty. -/
def match? : List PatternPart → List String → Option (Entries String)
  | [], [] => some []
  | .literal text :: parts, segment :: segments =>
    if segment = text then match? parts segments else none
  | .parameter name :: parts, segment :: segments =>
    if segment = "" ∧ segments = [] then none
    else (match? parts segments).map ((name, segment) :: ·)
  | [.rest name], segments =>
    if Text.join '/' segments = "" then none else some [(name, Text.join '/' segments)]
  | _, _ => none

end PatternPart

namespace Route

/-- The parameters that a route gets from a path, if its pattern matches the path. -/
def match? (route : Route) (path : String) : Option (Entries String) :=
  match path.toList with
  | '/' :: below => PatternPart.match? route.pattern (Text.split '/' (String.ofList below))
  | _ => none

end Route

namespace HttpResponse

/-- A response in plain text. -/
def plain (status : Nat) (text : String) : HttpResponse where
  status := status
  contentType := some "text/plain; charset=utf-8"
  allow := none
  identified := false
  payload := .text text

/-- The response to a request with a parameter that is no text. -/
def undecodable (parameter : String) : HttpResponse :=
  plain 400 ("Invalid URL: Invalid UTF-8 in `" ++ parameter ++ "`")

/-- The response to a request with a body that is too long. -/
def tooLong : HttpResponse := plain 413 "Failed to buffer the request body: length limit exceeded"

end HttpResponse

namespace HttpLibrary

/-- The most bytes that a body may have. -/
def bodyLimit : Nat := 2 * Nat.pow 2 20

/-- What percent-encoded parameters stand for. -/
def decodedParameters : Entries String → Except HttpResponse (Entries String)
  | [] => .ok []
  | (name, written) :: others =>
    match Text.percentDecoded? written with
    | none => .error (.undecodable name)
    | some text => (decodedParameters others).map ((name, text) :: ·)

/-- The library that the program runs with. A route without parameters comes before the others, and these in
their order. -/
def standard : HttpLibrary where
  route? routes path :=
    let found := routes.filterMap fun route => (route.match? path).map fun values => (route, values)
    (found.find? fun (route, _) => route.isStatic).or found.head?
  takes
    | .get, method => method = "GET" || method = "HEAD"
    | .any, _ => true
  methodNotAllowed methods :=
    { status := 405, contentType := none, identified := false, payload := .none
      allow := match methods with
        | .get => some "GET,HEAD"
        | .any => none }
  parameters := decodedParameters
  query text := .ok (Text.formParameters text)
  refusal? body := if bodyLimit < body.length then some .tooLong else none
  sent method response := if method = "HEAD" then response.headOnly else response

end HttpLibrary

namespace HttpRequest

/-- The request with a method, a URI and a body. A fragment of the URI does not count, nor do its scheme and
host. -/
def ofUri (method uri body : String) : HttpRequest :=
  let (sent, _) := Text.cut '#' uri
  let (before, query) := Text.cut '?' sent
  let path :=
    match Text.split '/' before with
    | "" :: _ => before
    | _ :: "" :: _ :: below => "/" ++ Text.join '/' below
    | _ => before
  ⟨method, path, query.getD "", Text.bytesOf body⟩

end HttpRequest

end RestArchive
