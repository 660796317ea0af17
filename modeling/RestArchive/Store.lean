import RestArchive.Filter.Match
import RestArchive.Projection
import RestArchive.Update.Apply

/-! # The store

Collections of documents in the order in which they were stored. Each operation is a function on the
documents of one collection; the store takes over what it returns, and stays as it was when it fails.
Every document is checked in the form in which it would be stored before anything is taken over. -/

namespace RestArchive

/-- The check that a document to be stored in a collection must pass. -/
abbrev Validator : Type := String → Document → Except StoreFailure Unit

/-- The check that every document passes. -/
def Validator.none : Validator := fun _ _ => .ok ()

/-- How many documents an update met, and how many it changed. -/
structure UpdateSummary where
  /-- The documents that meet the filter. -/
  matched : Nat
  /-- Those of them that are different now. -/
  modified : Nat
  deriving DecidableEq, Repr

namespace Document

/-- The text of a document's identifier in messages. -/
def idText (document : Document) : String :=
  match document.get? idField with
  | some (.objectId id) => id.toHex
  | some value => value.text
  | none => ""

/-- The document with the identifier of another one in place of its own. -/
def withIdOf (document kept : Document) : Document :=
  match kept.get? idField with
  | some id => document.insert idField id
  | none => document.erase idField

end Document

/-- The documents of a collection in order. -/
abbrev Documents : Type := List Document

namespace Documents

/-- The documents that meet a filter (all without one), at most so many, as a projection shows them. -/
def find (filter : Option Filter) (projection : Option Projection) (limit : Option Nat)
    (documents : Documents) : List Document :=
  let found :=
    match filter with
    | some filter => documents.filter fun document => filter.accepts document
    | none => documents
  let taken :=
    match limit with
    | some limit => found.take limit
    | none => found
  match projection with
  | some projection => taken.map projection.apply
  | none => taken

/-- The first document that carries an identifier. -/
def get? (id : ObjectId) (documents : Documents) : Option Document :=
  List.find? id.names documents

/-- Adds a document at the end. It must carry an identifier that no other document carries. -/
def insert (check : Document → Except StoreFailure Unit) (name : String) (document : Document)
    (documents : Documents) : Except StoreFailure (Document × Documents) :=
  match document.get? idField with
  | none => .error (.invalid .unidentified)
  | some id => do
    check document
    let isTaken (other : Document) : Bool :=
      match other.get? idField with
      | some otherId => otherId.same id
      | none => false
    if documents.any isTaken then .error (.alreadyExists document.idText name)
    else .ok (document, documents ++ [document])

/-- Puts what `change` makes of the first document that passes a test in its place. -/
def changeFirst (test : Document → Bool) (change : Document → Except StoreFailure Document) :
    Documents → Except StoreFailure (Option Document × Documents)
  | [] => .ok (none, [])
  | document :: others =>
    if test document then
      (change document).map fun changed => (some changed, changed :: others)
    else
      (changeFirst test change others).map fun (answer, rest) => (answer, document :: rest)

/-- Puts a document in the place of the one that carries an identifier. When there is none, the document
is added at the end if `upsert` says so. -/
def replace (check : Document → Except StoreFailure Unit) (id : ObjectId) (document : Document)
    (upsert : Bool) (documents : Documents) : Except StoreFailure (Option Document × Documents) := do
  let replacement := document.insert idField (.objectId id)
  check replacement
  let (answer, rest) ← documents.changeFirst id.names fun _ => .ok replacement
  if answer.isNone && upsert then .ok (some replacement, rest ++ [replacement])
  else .ok (answer, rest)

/-- Puts a document in the place of the first one that meets a filter, under the identifier of that one. -/
def replaceFirst (check : Document → Except StoreFailure Unit) (filter : Filter)
    (document : Document) (documents : Documents) : Except StoreFailure (Option Document × Documents) :=
  documents.changeFirst (fun candidate => filter.accepts candidate) fun kept => do
    let replacement := document.withIdOf kept
    check replacement
    return replacement

/-- Updates the first document that carries an identifier. -/
def update (check : Document → Except StoreFailure Unit) (id : ObjectId) (update : Update)
    (documents : Documents) : Except StoreFailure (Option Document × Documents) :=
  documents.changeFirst id.names fun document => do
    let changed ← update.apply document
    check changed
    return changed

/-- Puts values at their paths in the first document that meets a filter. -/
def updateFirst (check : Document → Except StoreFailure Unit) (filter : Filter)
    (values : Document) (documents : Documents) : Except StoreFailure (Option Document × Documents) :=
  documents.changeFirst (fun candidate => filter.accepts candidate) fun document => do
    let changed ← document.setAll [] values
    check changed
    return changed

/-- Puts values at their paths in every document that meets a filter. A document that comes out the same is
kept as it was. -/
def updateMany (check : Document → Except StoreFailure Unit) (filter : Filter) (values : Document) :
    Documents → Except StoreFailure (UpdateSummary × Documents)
  | [] => .ok (⟨0, 0⟩, [])
  | document :: others =>
    if filter.accepts document then do
      let changed ← document.setAll [] values
      check changed
      let (summary, rest) ← updateMany check filter values others
      if document.same changed then
        return (⟨summary.matched + 1, summary.modified⟩, document :: rest)
      else
        return (⟨summary.matched + 1, summary.modified + 1⟩, changed :: rest)
    else do
      let (summary, rest) ← updateMany check filter values others
      return (summary, document :: rest)

/-- Removes the first document that carries an identifier; says whether there was one. -/
def delete (id : ObjectId) (documents : Documents) : Bool × Documents :=
  (documents.any id.names, documents.eraseP id.names)

/-- Removes every document that meets a filter; says how many there were. -/
def deleteMany (filter : Filter) (documents : Documents) : Nat × Documents :=
  (documents.countP fun document => filter.accepts document,
    documents.filter fun document => !filter.accepts document)

end Documents

/-- Collections of documents by name. -/
structure Store where
  /-- The documents of each collection that was ever written to. -/
  collections : Entries Documents
  deriving Repr

namespace Store

/-- The store without documents. -/
def empty : Store := ⟨[]⟩

/-- The documents of a collection. -/
def documents (store : Store) (name : String) : Documents :=
  (store.collections.get? name).getD []

/-- The store with the documents of a collection replaced. -/
def put (store : Store) (name : String) (documents : Documents) : Store :=
  ⟨store.collections.insert name documents⟩

/-- Runs an operation on the documents of a collection. The store takes the documents over if the operation
succeeds, and is left as it was otherwise. -/
def run {α : Type} (store : Store) (name : String)
    (operation : Documents → Except StoreFailure (α × Documents)) :
    Except StoreFailure α × Store :=
  match operation (store.documents name) with
  | .ok (answer, documents) => (.ok answer, store.put name documents)
  | .error failure => (.error failure, store)

@[simp] theorem documents_empty (name : String) : empty.documents name = [] := rfl

@[simp] theorem documents_put_self (store : Store) (name : String) (documents : Documents) :
    (store.put name documents).documents name = documents := by
  simp [Store.documents, put]

/-- Writing one collection leaves the others as they were. -/
theorem documents_put_of_ne (store : Store) {name other : String} (h : other ≠ name)
    (documents : Documents) : (store.put name documents).documents other = store.documents other := by
  simp [Store.documents, put, Entries.get?_insert_of_ne _ h]

end Store

end RestArchive
