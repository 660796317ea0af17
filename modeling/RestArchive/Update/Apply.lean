import RestArchive.Failure
import RestArchive.Update
import RestArchive.Value.Equality

/-! # Applying updates

A path is a list of steps. A step by name goes into a document, and makes one where nothing is there yet,
unless something is to be removed. A step by scope goes into every element of an array that carries the
scope's identifier; elements that do not are left alone, so an update whose scopes select nothing
changes nothing there. -/

namespace RestArchive

/-- A step of an update path. -/
inductive Step where
  /-- To the field of a name. -/
  | field (name : String)
  /-- To the elements that a scope selects. -/
  | scoped (scope : Scope)
  deriving DecidableEq, Repr

/-- What to do at the end of a path. -/
inductive Terminal where
  /-- Puts a value. -/
  | set (value : Value)
  /-- Adds a value at the end of an array. -/
  | push (value : Value)
  /-- Removes the elements that carry an identifier. -/
  | pull (id : ObjectId)
  deriving Repr

namespace Step

/-- The step that a token of a path is. -/
def ofToken (scopes : List Scope) (path token : String) : Except StoreFailure Step :=
  match placeholderLabel? token with
  | none => .ok (.field token)
  | some label =>
    match Scope.find? scopes label with
    | some scope => .ok (.scoped scope)
    | none => .error (.invalid (.unknownLabel label path))

/-- The steps that the tokens of a path are. -/
def ofTokens (scopes : List Scope) (path : String) : List String → Except StoreFailure (List Step)
  | [] => .ok []
  | token :: tokens => do
    let first ← ofToken scopes path token
    let others ← ofTokens scopes path tokens
    return first :: others

/-- The steps that a path is. -/
def parse (scopes : List Scope) (path : String) : Except StoreFailure (List Step) :=
  if path = "" then .error (.invalid .emptyPath) else ofTokens scopes path (Text.split '.' path)

end Step

namespace Terminal

/-- Whether what is missing on the way is made. -/
def createsMissing : Terminal → Bool
  | .pull _ => false
  | _ => true

/-- The value that takes the place of one that is there. -/
def onValue (terminal : Terminal) (field : String) (value : Value) : Except StoreFailure Value :=
  match terminal, value with
  | .set new, _ => .ok new
  | .push new, .array items => .ok (.array (items ++ [new]))
  | .pull id, .array items => .ok (.array (items.filter fun item => !id.namesElement item))
  | _, other => .error (.invalid (.notAnArray field other))

/-- The document with the field of a name changed. -/
def onField (terminal : Terminal) (document : Document) (name : String) :
    Except StoreFailure Document :=
  match terminal, document.get? name with
  | .set new, _ => .ok (document.insert name new)
  | .push new, none => .ok (document.insert name (.array [new]))
  | .pull _, none => .ok document
  | terminal, some value => (terminal.onValue name value).map (document.insert name)

/-- Changes the elements of a list that carry an identifier, each by itself. -/
def onElements (id : ObjectId) (change : Value → Except StoreFailure Value) :
    List Value → Except StoreFailure (List Value)
  | [] => .ok []
  | item :: items => do
    let first ← if id.namesElement item then change item else .ok item
    let others ← onElements id change items
    return first :: others

/-- The document with what the steps lead to changed. -/
def along (terminal : Terminal) : Document → List Step → Except StoreFailure Document
  | document, [] => .ok document
  | document, [.field name] => terminal.onField document name
  | document, .field name :: rest =>
    match document.get? name with
    | none =>
      if terminal.createsMissing then
        (terminal.along [] rest).map fun inner => document.insert name (.document inner)
      else .ok document
    | some (.document members) =>
      (terminal.along members rest).map fun inner => document.insert name (.document inner)
    | some other => .error (.invalid (.notADocument name other))
  | document, .scoped scope :: rest =>
    match document.get? scope.field with
    | none => .ok document
    | some (.array items) =>
      let change (item : Value) : Except StoreFailure Value :=
        match rest, item with
        | [], _ => terminal.onValue scope.field item
        | _, .document members => (terminal.along members rest).map .document
        | _, _ => .ok item
      (onElements scope.id change items).map fun changed =>
        document.insert scope.field (.array changed)
    | some _ => .error (.invalid (.notSelectable scope.field))
termination_by structural _ steps => steps

/-- The document with what a path leads to changed. -/
def atPath (terminal : Terminal) (scopes : List Scope) (document : Document) (path : String) :
    Except StoreFailure Document :=
  (Step.parse scopes path).bind (terminal.along document)

end Terminal

namespace Document

/-- The document with a value put at a path. The identifier of a document cannot be changed. -/
def setAt (scopes : List Scope) (document : Document) (path : String) (value : Value) :
    Except StoreFailure Document :=
  match decide (path = idField), document.get? idField with
  | true, some current =>
    if current.same value then (Terminal.set value).atPath scopes document path
    else .error (.invalid .immutableId)
  | _, _ => (Terminal.set value).atPath scopes document path

/-- The document with each value put at its path, one after the other. -/
def setAll (scopes : List Scope) (document : Document) : List (String × Value) →
    Except StoreFailure Document
  | [] => .ok document
  | (path, value) :: values =>
    (document.setAt scopes path value).bind fun changed => changed.setAll scopes values

end Document

namespace Update

/-- The document after an update. -/
def apply (update : Update) (document : Document) : Except StoreFailure Document :=
  match update.change with
  | .set values => document.setAll update.scopes values
  | .push path value => (Terminal.push value).atPath update.scopes document path
  | .pull path id => (Terminal.pull id).atPath update.scopes document path

end Update

end RestArchive
