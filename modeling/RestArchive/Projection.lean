import RestArchive.RequestError
import RestArchive.Text.Split

/-! # Projections

Which fields of a document a reply shows. A projection that includes some field besides the identifier
shows the fields it includes, and the identifier unless it excludes it; any other projection shows all
fields but those it excludes. Dotted paths reach into documents inside documents. -/

namespace RestArchive

namespace Document

/-- The value that the tokens of a path lead to, documents only. -/
def valueAt? (document : Document) : List String → Option Value
  | [] => none
  | [token] => document.get? token
  | token :: rest =>
    match document.get? token with
    | some (.document members) => valueAt? members rest
    | _ => none

/-- Puts a value where the tokens of a path lead; what is on the way and no document is replaced by one. -/
def putAt (document : Document) (value : Value) : List String → Document
  | [] => document
  | [token] => document.insert token value
  | token :: rest =>
    let inner : Document :=
      match document.get? token with
      | some (.document members) => members
      | _ => []
    document.insert token (.document (putAt inner value rest))

/-- Removes the value that the tokens of a path lead to, if there is one. -/
def removeAt (document : Document) : List String → Document
  | [] => document
  | [token] => document.erase token
  | token :: rest =>
    match document.get? token with
    | some (.document members) => document.insert token (.document (removeAt members rest))
    | _ => document

/-- The value at a dotted path, documents only. -/
def lookup? (document : Document) (path : String) : Option Value :=
  document.valueAt? (Text.split '.' path)

end Document

/-- Fields to include (`true`) or to exclude (`false`), in order. -/
structure Projection where
  /-- Each path, with whether it is included. -/
  fields : List (String × Bool)
  deriving DecidableEq, Repr

namespace Projection

/-- Whether the projection lists nothing. -/
def isEmpty (projection : Projection) : Bool := projection.fields.isEmpty

/-- Whether some field besides the identifier is included. -/
def isInclusive (projection : Projection) : Bool :=
  projection.fields.any fun (field, included) => included && field ≠ idField

/-- Whether the identifier is not excluded. -/
def keepsId (projection : Projection) : Bool :=
  !projection.fields.any fun (field, included) => !included && field = idField

/-- The paths that are included. -/
def inclusions (projection : Projection) : List String :=
  (projection.fields.filter fun (_, included) => included).map Prod.fst

/-- The paths that are excluded. -/
def exclusions (projection : Projection) : List String :=
  (projection.fields.filter fun (_, included) => !included).map Prod.fst

/-- The document of ones and zeros that writes the projection for a database. -/
def toDocument (projection : Projection) : Document :=
  Entries.ofPairs (projection.fields.map fun (field, included) =>
    (field, .int32 (if included then 1 else 0)))

/-- Copies the value at a path of the source, if there is one. -/
def reveal (source : Document) (shown : Document) (path : String) : Document :=
  match source.lookup? path with
  | some value => shown.putAt value (Text.split '.' path)
  | none => shown

/-- Drops the value at a path, if there is one. -/
def hide (shown : Document) (path : String) : Document :=
  shown.removeAt (Text.split '.' path)

/-- What a projection shows of a document. -/
def apply (projection : Projection) (document : Document) : Document :=
  if projection.isEmpty then document
  else if projection.isInclusive then
    let start : Document :=
      match projection.keepsId, document.get? idField with
      | true, some id => [(idField, id)]
      | _, _ => []
    projection.inclusions.foldl (reveal document) start
  else projection.exclusions.foldl hide document

/-- The entry that a text writes: a hyphen in front excludes the field. -/
def entryOfText (text : String) : String × Bool :=
  match text.toList with
  | '-' :: rest => (String.ofList rest, false)
  | _ => (text, true)

/-- The entries that the texts of a list write; other items do not count. -/
def entriesOfItems : List Json → List (String × Bool)
  | [] => []
  | .string text :: items => entryOfText text :: entriesOfItems items
  | _ :: items => entriesOfItems items

/-- The projection that a JSON value writes: a list that does not both include and exclude fields, the
identifier apart. -/
def ofJson : Json → Except RequestError Projection
  | .array items =>
    let fields := entriesOfItems items
    let isMixed :=
      (fields.any fun (field, included) => included && field ≠ idField)
        && (fields.any fun (field, included) => !included && field ≠ idField)
    if isMixed then .error .mixedProjection else .ok ⟨fields⟩
  | _ => .error (.malformedParameter "fields")

end Projection

end RestArchive
