import RestArchive.Action
import RestArchive.Path.Address
import RestArchive.Value.OfJson

/-! # Accesses

An action at an address is one access to the store, or is refused before the store is touched. A write
inside a document becomes a scoped update of it. -/

namespace RestArchive

/-- One access to the store. -/
inductive Access where
  /-- Reads the documents that meet a filter, or the first one. -/
  | query (filter : Option Filter) (projection : Option Projection) (single : Bool)
  /-- Reads a document; the path leads from it to the value asked for. -/
  | fetch (id : ObjectId) (projection : Option Projection) (path : List Segment)
  /-- Adds a document. -/
  | create (body : Document)
  /-- Puts a document in the place of another, or adds it. -/
  | replace (id : ObjectId) (body : Document) (upsert : Bool)
  /-- Puts a document in the place of the first one that meets a filter. -/
  | replaceFirst (filter : Filter) (body : Document)
  /-- Puts values into the documents that meet a filter, or into the first one. -/
  | merge (filter : Filter) (body : Document) (single : Bool)
  /-- Puts a value at a scoped path of a document; at the empty path, each member of the value. -/
  | set (id : ObjectId) (path : String) (value : Value) (scopes : List Scope)
  /-- Adds a value to the array at a scoped path of a document. -/
  | push (id : ObjectId) (path : String) (value : Value) (scopes : List Scope)
  /-- Removes an element from the array at a scoped path of a document. -/
  | pull (id : ObjectId) (path : String) (element : ObjectId) (scopes : List Scope)
  /-- Removes the documents that meet a filter. -/
  | deleteMatching (filter : Filter)
  /-- Removes a document. -/
  | delete (id : ObjectId)
  deriving Repr

namespace Access

/-- The name of an access. -/
def name : Access → String
  | .query _ _ _ => "collection query"
  | .fetch _ _ _ => "document fetch"
  | .create _ => "document create"
  | .replace _ _ _ => "document replace"
  | .replaceFirst _ _ => "collection replace"
  | .merge _ _ _ => "collection merge"
  | .set _ _ _ _ => "scoped set"
  | .push _ _ _ _ => "scoped push"
  | .pull _ _ _ _ => "scoped pull"
  | .deleteMatching _ => "collection delete"
  | .delete _ => "document delete"

end Access

namespace Action

/-- The document that a body is. -/
def documentOf (body : Json) : Except RequestError Document :=
  (Body.document body).mapError .store

/-- The value that a part of a body is, at a path of the document. -/
def valueOf (path : String) (body : Json) : Except RequestError Value :=
  (Body.valueAt (some path) body).mapError .store

/-- The new value that the body of a nested write carries. -/
def updateOf (path : String) (body : Json) : Except RequestError Value :=
  match body.member? "update" with
  | some value => valueOf path value
  | none => .error .missingUpdate

/-- The filter that the action needs. -/
def required : Option Filter → Except RequestError Filter
  | some filter => .ok filter
  | none => .error .filterRequired

/-- The access for an action on a whole collection. -/
def onCollection : Action → Except RequestError Access
  | .read filter projection single => .ok (.query filter projection single)
  | .append body => (documentOf body).map .create
  | .replace body filter => do
    let filter ← required filter
    let document ← documentOf body
    return .replaceFirst filter document
  | .merge body filter single => do
    let document ← documentOf body
    return .merge (filter.getD .everything) document single
  | .remove filter => (required filter).map .deleteMatching

/-- The access for an action on a document. -/
def onDocument (id : ObjectId) : Action → Except RequestError Access
  | .read _ projection _ => .ok (.fetch id projection [])
  | .append _ => .error (.methodRefused Verb.post.text)
  | .replace body _ => do
    let document ← documentOf body
    return .replace id (document.insert idField (.objectId id)) true
  | .merge body _ _ => do
    let document ← documentOf body
    return .set id "" (.document document) []
  | .remove _ => .ok (.delete id)

/-- The access for an action inside a document. -/
def onPlace (id : ObjectId) (address : Address) (action : Action) : Except RequestError Access :=
  let path := address.fieldPath
  let scopes := address.scopes
  match action, address.retained.getLast? with
  | .read _ _ _, _ => .ok (.fetch id none address.segments)
  | .append _, some (.identifier _) => .error (.methodRefused Verb.post.text)
  | .append body, _ => do
    let value ← valueOf path body
    return .push id path value scopes
  | .replace body _, some (.identifier element) => do
    let document ← documentOf body
    return .set id path (.document (document.insert idField (.objectId element))) scopes
  | .replace body _, _ => do
    let value ← updateOf path body
    return .set id path value scopes
  | .merge body _ _, some (.identifier _) => do
    let document ← documentOf body
    let changes := Entries.ofPairs (document.map fun (name, value) => (path ++ "." ++ name, value))
    return .set id "" (.document changes) scopes
  | .merge body _ _, _ => do
    let value ← updateOf path body
    return .set id path value scopes
  | .remove _, _ =>
    match address.final? with
    | some (.identifier element) => .ok (.pull id path element scopes)
    | _ => .error (.methodRefused Verb.delete.text)

/-- The access for an action at an address. -/
def accessAt (address : Address) (action : Action) : Except RequestError Access :=
  match address.root with
  | none => action.onCollection
  | some root =>
    match ObjectId.ofHex? root with
    | none => .error (.invalidRoot action.isWrite root)
    | some id =>
      if address.isNested then action.onPlace id address else action.onDocument id

end Action

end RestArchive
