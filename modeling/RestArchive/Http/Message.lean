import RestArchive.Service

/-! # Requests and responses

What the HTTP library hands over and takes back. -/

namespace RestArchive

/-- A request as it comes in. -/
structure HttpRequest where
  /-- The name of the method. -/
  method : String
  /-- The path, as it is written. -/
  path : String
  /-- The query string; empty without one. -/
  query : String
  /-- The bytes of the body. -/
  body : List UInt8

/-- The body of a response. -/
inductive Payload where
  /-- No body. -/
  | none
  /-- Plain text. -/
  | text (content : String)
  /-- A JSON value. -/
  | json (value : Json)

/-- The answer to a request. -/
structure HttpResponse where
  /-- The status code. -/
  status : Nat
  /-- The type of the content, if there is a content to have one. -/
  contentType : Option String
  /-- The methods that are allowed, where the request's method is not. -/
  allow : Option String
  /-- Whether the request was given an identifier. -/
  identified : Bool
  /-- The body. -/
  payload : Payload

namespace HttpResponse

/-- A JSON response. -/
def json (status : Nat) (identified : Bool) (value : Json) : HttpResponse :=
  { status, contentType := some "application/json", allow := none, identified
    payload := .json value }

/-- The response that a collection's answer is. -/
def ofAnswer : Except RequestError Reply → HttpResponse
  | .ok reply =>
    match reply.body with
    | some value => json reply.status true value
    | none =>
      { status := reply.status, contentType := none, allow := none, identified := true
        payload := .none }
  | .error error => json error.status true error.toJson

/-- The response without its body, as `HEAD` asks for. -/
def headOnly (response : HttpResponse) : HttpResponse := { response with payload := .none }

end HttpResponse

end RestArchive
