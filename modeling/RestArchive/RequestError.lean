import RestArchive.Failure

/-! # Errors of requests

Why a request is refused. Each error is a cause; its kind (and so its status code), its wording and its
details are functions of the cause. Failures of the store become request errors of the kind that fits
them. -/

namespace RestArchive

/-- The three kinds of request errors. -/
inductive ErrorKind where
  /-- The request makes no sense. -/
  | badRequest
  /-- What the request names is not there. -/
  | notFound
  /-- The fault is not the request's. -/
  | internal
  deriving DecidableEq, Repr

namespace ErrorKind

/-- The status code of a kind. -/
def status : ErrorKind → Nat
  | .badRequest => 400
  | .notFound => 404
  | .internal => 500

/-- The name of a kind. -/
def reason : ErrorKind → String
  | .badRequest => "Bad Request"
  | .notFound => "Not Found"
  | .internal => "Server Error"

end ErrorKind

/-- A part of an error: what is wrong, with which field, and where in the request. -/
structure ErrorDetail where
  /-- What is wrong. -/
  message : String
  /-- The field or parameter that is wrong. -/
  field : Option String
  /-- The part of the request that holds it. -/
  location : Option String
  deriving DecidableEq, Repr

namespace ErrorDetail

/-- A fault of a field of the body. -/
def ofBody (message field : String) : ErrorDetail := ⟨message, some field, some "body"⟩

/-- A fault of a parameter of the query string. -/
def ofQuery (message parameter : String) : ErrorDetail := ⟨message, some parameter, some "query"⟩

end ErrorDetail

/-- Why a request is refused. -/
inductive RequestError where
  /-- An identifier in a path does not follow the name of a field. -/
  | strayIdentifier (id : ObjectId)
  /-- The first segment of a path is no identifier. What only looks it up finds nothing; a write makes
  no sense. -/
  | invalidRoot (isWrite : Bool) (text : String)
  /-- Nothing has this identifier. -/
  | idNotFound (text : String)
  /-- A value has no such field. -/
  | fieldNotFound (name : String)
  /-- What the path names does not take the method. -/
  | methodRefused (method : String)
  /-- The request needs a filter. -/
  | filterRequired
  /-- A parameter is not the JSON that it should be. -/
  | malformedParameter (name : String)
  /-- A filter uses an unknown operator. -/
  | unsupportedOperator (operator : String)
  /-- A projection both includes and excludes fields. -/
  | mixedProjection
  /-- The body of a nested write lacks the new value. -/
  | missingUpdate
  /-- The store refuses. -/
  | store (failure : StoreFailure)
  /-- The store answers something that the request cannot be answered with. -/
  | unexpectedOutcome (found : String)
  /-- No such collection is served. -/
  | unknownCollection (name : String)
  /-- Nothing is served at the path. -/
  | unknownRoute
  /-- The query string is no list of parameters, for a reason. -/
  | queryRejected (reason : String)
  /-- The body is not JSON. -/
  | malformedBody

namespace RequestError

/-- The kind of a failure of the store. -/
def kindOfFailure : StoreFailure → ErrorKind
  | .validation _ => .badRequest
  | .cast _ _ => .badRequest
  | .invalid _ => .badRequest
  | .alreadyExists _ _ => .badRequest
  | .notFound _ _ => .notFound
  | .serialization _ => .internal
  | .initialization _ => .internal
  | .backend _ => .internal

/-- The kind of an error. -/
def kind : RequestError → ErrorKind
  | .strayIdentifier _ => .badRequest
  | .invalidRoot isWrite _ => if isWrite then .badRequest else .notFound
  | .idNotFound _ => .notFound
  | .fieldNotFound _ => .badRequest
  | .methodRefused _ => .badRequest
  | .filterRequired => .badRequest
  | .malformedParameter _ => .badRequest
  | .unsupportedOperator _ => .badRequest
  | .mixedProjection => .badRequest
  | .missingUpdate => .badRequest
  | .store failure => kindOfFailure failure
  | .unexpectedOutcome _ => .internal
  | .unknownCollection _ => .notFound
  | .unknownRoute => .notFound
  | .queryRejected _ => .badRequest
  | .malformedBody => .badRequest

/-- The wording for an identifier that nothing has. -/
def idNotFoundText (text : String) : String :=
  "The resource specified by ID: " ++ text ++ " was not found"

/-- The wording for a document that cannot be stored. -/
def rejectedText : String := "The document provided failed validation"

/-- The wording for a nested write without the new value. -/
def missingUpdateText : String := "Requests on nested fields must contain the 'update' field"

/-- The wording for a failure of the store. -/
def messageOfFailure : StoreFailure → String
  | .validation _ => rejectedText
  | .cast _ _ => rejectedText
  | .invalid _ => rejectedText
  | .notFound id _ => idNotFoundText id
  | failure => failure.message

/-- The wording of an error. -/
def message : RequestError → String
  | .strayIdentifier id =>
    "The identifier " ++ id.toHex ++ " must follow the name of the array field it indexes"
  | .invalidRoot _ text => "The ID provided: " ++ text ++ " is not a valid id"
  | .idNotFound text => idNotFoundText text
  | .fieldNotFound name => "The requested key: " ++ name ++ " does not exist on this document"
  | .methodRefused method => "Cannot " ++ method ++ " to the route specified"
  | .filterRequired => "Query parameter (query) is required"
  | .malformedParameter name =>
    "Query parameter (" ++ name ++ ") provided is invalid. Error parsing JSON contents"
  | .unsupportedOperator operator => "Unsupported query operator: " ++ operator
  | .mixedProjection =>
    "Query parameter (fields) is invalid. Cannot both include and exclude in a projection"
  | .missingUpdate => missingUpdateText
  | .store failure => messageOfFailure failure
  | .unexpectedOutcome found => "The store returned " ++ found ++ " where none was expected"
  | .unknownCollection name => "The collection specified: " ++ name ++ " does not exist"
  | .unknownRoute => "The route specified does not exist"
  | .queryRejected _ => "The query string could not be parsed"
  | .malformedBody => "The request body is not valid JSON"

/-- The details of a failure of the store: one for each leaf of a failed validation. -/
def detailsOfFailure : StoreFailure → List ErrorDetail
  | .validation failure => failure.flatten.map fun (path, message) => .ofBody message path
  | .cast path defect => [.ofBody (defect.message path) path]
  | .invalid defect => [⟨defect.message, none, some "body"⟩]
  | _ => []

/-- The details of an error. -/
def details : RequestError → List ErrorDetail
  | .filterRequired => [.ofQuery "Query parameter query is required" "query"]
  | .malformedParameter name => [.ofQuery ("Invalid value for " ++ name) name]
  | .unsupportedOperator _ => [.ofQuery "Invalid value for query" "query"]
  | .mixedProjection =>
    [.ofQuery "Invalid value for fields - cannot use inclusions and exclusions in the same query"
      "fields"]
  | .missingUpdate => [.ofBody missingUpdateText "update"]
  | .store failure => detailsOfFailure failure
  | .queryRejected reason => [⟨reason, none, some "query"⟩]
  | .malformedBody => [⟨"The text is no JSON value", none, some "body"⟩]
  | _ => []

/-- The status code of an error. -/
def status (error : RequestError) : Nat := error.kind.status

/-- The text of an error: its kind and its wording. -/
def text (error : RequestError) : String := error.kind.reason ++ ": " ++ error.message

/-- The JSON form of a detail; absent parts are left out. -/
def detailToJson (detail : ErrorDetail) : Json :=
  let part (name : String) : Option String → List (String × Json)
    | some text => [(name, .string text)]
    | none => []
  .object ([("message", .string detail.message)] ++ part "fieldPath" detail.field
    ++ part "location" detail.location)

/-- The JSON form of an error, as replies carry it. -/
def toJson (error : RequestError) : Json :=
  .object [("error", .object
    [("reason", .string error.kind.reason),
      ("code", .integer error.status),
      ("message", .string error.message),
      ("detail", .array (error.details.map detailToJson))])]

end RequestError

end RestArchive
