import RestArchive.Access
import RestArchive.Stamp
import RestArchive.Store

/-! # Running accesses

An access is run on one collection of an archive: a store with its supply of identifiers. Identifiers are
stamped on what is written before the store sees it. -/

namespace RestArchive

/-- A store with the identifiers that it can still give out. -/
structure Archive where
  /-- The documents. -/
  store : Store
  /-- The identifiers to come. -/
  supply : IdSupply

/-- What an access gives back. -/
inductive Outcome where
  /-- Documents. -/
  | documents (found : List Document)
  /-- A document, or none. -/
  | document (found : Option Document)
  /-- How many documents an update met and changed. -/
  | updated (summary : UpdateSummary)
  /-- How many documents were removed. -/
  | deleted (count : Nat)
  deriving Repr

namespace Archive

/-- Runs an operation on the documents of a collection, once its identifiers are stamped. -/
def runWith {α : Type} (archive : Archive) (supply : IdSupply) (collection : String)
    (operation : Documents → Except StoreFailure (α × Documents)) (outcome : α → Outcome) :
    Except StoreFailure Outcome × Archive :=
  let (answer, store) := archive.store.run collection operation
  (answer.map outcome, ⟨store, supply⟩)

/-- Updates a document with values at their paths, which are stamped first. -/
def setIn (archive : Archive) (validator : Validator) (collection : String) (id : ObjectId)
    (values : Document) (scopes : List Scope) : Except StoreFailure Outcome × Archive :=
  let (values, supply) := values.stampInside archive.supply
  archive.runWith supply collection
    (Documents.update (validator collection) id ⟨.set values, scopes⟩) .document

end Archive

namespace Access

/-- Runs an access on a collection. -/
def run (validator : Validator) (collection : String) (archive : Archive) :
    Access → Except StoreFailure Outcome × Archive
  | .query filter projection single =>
    let found :=
      (archive.store.documents collection).find filter projection (if single then some 1 else none)
    (.ok (if single then .document found.head? else .documents found), archive)
  | .fetch id projection _ =>
    let documents := archive.store.documents collection
    let found :=
      match projection with
      | some projection => (documents.find (some (.ofId id)) (some projection) (some 1)).head?
      | none => documents.get? id
    (.ok (.document found), archive)
  | .create body =>
    let (body, supply) := body.stamp archive.supply
    archive.runWith supply collection (Documents.insert (validator collection) collection body)
      fun created => .document (some created)
  | .replace id body upsert =>
    let (body, supply) := body.stamp archive.supply
    archive.runWith supply collection (Documents.replace (validator collection) id body upsert)
      .document
  | .replaceFirst filter body =>
    let (body, supply) := body.stampInside archive.supply
    archive.runWith supply collection (Documents.replaceFirst (validator collection) filter body)
      .document
  | .merge filter body single =>
    let (body, supply) := body.stampInside archive.supply
    if single then
      archive.runWith supply collection (Documents.updateFirst (validator collection) filter body)
        .document
    else
      archive.runWith supply collection (Documents.updateMany (validator collection) filter body)
        .updated
  | .set id path value scopes =>
    if path = "" then
      match value with
      | .document values => archive.setIn validator collection id values scopes
      | other => (.error (.invalid (.notMergeable other)), archive)
    else archive.setIn validator collection id [(path, value)] scopes
  | .push id path value scopes =>
    let (value, supply) := value.stamp true archive.supply
    archive.runWith supply collection
      (Documents.update (validator collection) id ⟨.push path value, scopes⟩) .document
  | .pull id path element scopes =>
    archive.runWith archive.supply collection
      (Documents.update (validator collection) id ⟨.pull path element, scopes⟩) .document
  | .deleteMatching filter =>
    archive.runWith archive.supply collection (fun documents => .ok (documents.deleteMany filter))
      .deleted
  | .delete id =>
    archive.runWith archive.supply collection (fun documents => .ok (documents.delete id))
      fun found => .deleted found.toNat

end Access

end RestArchive
