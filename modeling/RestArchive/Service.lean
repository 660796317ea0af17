import RestArchive.Access.Run
import RestArchive.Path.Descent
import RestArchive.Selection
import RestArchive.Value.ToJson

/-! # The service of a collection

A request to a collection is read as an action at an address, run as one access to the store, and answered
with a status code and a JSON body. A request that fails leaves the archive as the access left it. -/

namespace RestArchive

/-- A request to a collection. -/
structure Request where
  /-- The method. -/
  verb : Verb
  /-- The path below the collection. -/
  path : String
  /-- The parameters of the query string. -/
  parameters : Entries String
  /-- The body; an empty object when there is none. -/
  body : Json

/-- The answer to a request that succeeds. -/
structure Reply where
  /-- The status code. -/
  status : Nat
  /-- The body, if there is one. -/
  body : Option Json

namespace Reply

/-- A reply with a value wrapped as data. -/
def data (status : Nat) (value : Json) : Reply := ⟨status, some (.object [("data", value)])⟩

/-- A reply with a bare value. -/
def bare (status : Nat) (value : Json) : Reply := ⟨status, some value⟩

/-- A reply without a body. -/
def empty : Reply := ⟨204, none⟩

end Reply

namespace Request

/-- The action that a request asks for. The parameters are read for every method but `POST`. -/
def action (request : Request) : Except RequestError Action :=
  match request.verb with
  | .post => .ok (.append request.body)
  | .get => (Selection.ofParameters request.parameters).map fun selection =>
    .read selection.filter selection.projection selection.single
  | .put => (Selection.ofParameters request.parameters).map fun selection =>
    .replace request.body selection.filter
  | .patch => (Selection.ofParameters request.parameters).map fun selection =>
    .merge request.body selection.filter selection.single
  | .delete => (Selection.ofParameters request.parameters).map fun selection =>
    .remove selection.filter

end Request

namespace Outcome

/-- What an outcome is, for the error that it is not what was asked for. -/
def kindText : Outcome → String
  | .documents _ => "a document list"
  | .document _ => "a document"
  | .updated _ => "an update summary"
  | .deleted _ => "a delete count"

/-- The error that the document at an address is not there. -/
def rootNotFound (address : Address) : RequestError := .idNotFound (address.root.getD "")

/-- A document that may be absent, in JSON. -/
def optionalToJson (found : Option Document) : Json :=
  match found with
  | some held => held.toJson
  | none => .null

/-- The reply to a reading request. -/
def replyToRead (address : Address) : Outcome → Except RequestError Reply
  | .documents found => .ok (.data 200 (.array (found.map Document.toJson)))
  | .document found =>
    if address.isCollection then .ok (.data 200 (optionalToJson found))
    else
      match found with
      | some held =>
        ((Value.document held).descend address.segments).map fun value => .data 200 value.toJson
      | none => .error (rootNotFound address)
  | other => .error (.unexpectedOutcome other.kindText)

/-- The reply to a request that adds. -/
def replyToAppend (address : Address) : Outcome → Except RequestError Reply
  | .document (some held) =>
    .ok (if address.isCollection then .bare 201 held.toJson else .data 201 held.toJson)
  | .document none => .error (rootNotFound address)
  | other => .error (.unexpectedOutcome other.kindText)

/-- The reply to a request that replaces. -/
def replyToReplace (address : Address) : Outcome → Except RequestError Reply
  | .document found =>
    if address.isCollection then .ok (.data 200 (optionalToJson found))
    else
      match found with
      | some held =>
        .ok (if address.isNested then .data 200 held.toJson else .bare 200 held.toJson)
      | none => .error (rootNotFound address)
  | other => .error (.unexpectedOutcome other.kindText)

/-- The reply to a request that merges. -/
def replyToMerge (address : Address) : Outcome → Except RequestError Reply
  | .updated summary =>
    .ok (.data 200 (.object
      [("matched", .integer summary.matched), ("modified", .integer summary.modified)]))
  | .document found =>
    if address.isCollection then .ok (.data 200 (optionalToJson found))
    else
      match found with
      | some held => .ok (.data 200 held.toJson)
      | none => .error (rootNotFound address)
  | other => .error (.unexpectedOutcome other.kindText)

/-- The reply to a request that removes. -/
def replyToRemove (address : Address) : Outcome → Except RequestError Reply
  | .deleted count =>
    if address.isCollection then .ok (.data 200 (.object [("deletedCount", .integer count)]))
    else if count = 0 then .error (rootNotFound address)
    else .ok .empty
  | .document (some held) => .ok (.data 200 held.toJson)
  | .document none => .error (rootNotFound address)
  | other => .error (.unexpectedOutcome other.kindText)

/-- The reply to an action at an address. -/
def replyTo (address : Address) : Action → Outcome → Except RequestError Reply
  | .read _ _ _ => replyToRead address
  | .append _ => replyToAppend address
  | .replace _ _ => replyToReplace address
  | .merge _ _ _ => replyToMerge address
  | .remove _ => replyToRemove address

end Outcome

namespace Archive

/-- Runs an action at an address of a collection, and answers it. -/
def act (validator : Validator) (collection : String) (archive : Archive) (address : Address)
    (action : Action) : Except RequestError Reply × Archive :=
  match action.accessAt address with
  | .error error => (.error error, archive)
  | .ok access =>
    match access.run validator collection archive with
    | (.error failure, archive) => (.error (.store failure), archive)
    | (.ok outcome, archive) => (Outcome.replyTo address action outcome, archive)

/-- Answers a request to a collection. -/
def handle (validator : Validator) (collection : String) (archive : Archive) (request : Request) :
    Except RequestError Reply × Archive :=
  match request.action with
  | .error error => (.error error, archive)
  | .ok action =>
    match Address.parse request.path action.omitsLast with
    | .error error => (.error error, archive)
    | .ok address => archive.act validator collection address action

end Archive

end RestArchive
