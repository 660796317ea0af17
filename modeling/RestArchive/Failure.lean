import RestArchive.Json.Writer
import RestArchive.Value.Text

/-! # Failures of the store

Why a write is refused. Failures are causes; their wording is in one place. A failed validation is a
tree, since an array of documents fails element by element, and `Validation.flatten` lists its leaves. -/

namespace RestArchive

/-- What is wrong with one field of a document. -/
inductive FieldError where
  /-- The field itself is wrong. -/
  | leaf (message : String)
  /-- Fields of the elements of the array under the field are wrong. -/
  | group (message : String) (fields : List (String × FieldError))
  deriving Repr

/-- The fields of a document that failed validation, in the order in which they were reported. -/
abbrev Validation : Type := List (String × FieldError)

/-- Why a document or an update of one makes no sense. -/
inductive Defect where
  /-- A document to be stored carries no identifier. -/
  | unidentified
  /-- A body that should be an object is something else. -/
  | notAnObject (found : Json)
  /-- A value that should be merged into a document is none. -/
  | notMergeable (value : Value)
  /-- An update would change the identifier of a document. -/
  | immutableId
  /-- An update names no field. -/
  | emptyPath
  /-- A placeholder of a path has no scope. -/
  | unknownLabel (label path : String)
  /-- A field to push to, or to pull from, is no array. -/
  | notAnArray (field : String) (found : Value)
  /-- A field that an element is selected in is no array. -/
  | notSelectable (field : String)
  /-- A field on the way is no document. -/
  | notADocument (field : String) (found : Value)
  /-- Something else. -/
  | described (text : String)

/-- Why a value cannot be taken for the type of its field. -/
inductive CastDefect where
  /-- The value of an identifier field writes no identifier. -/
  | notAnId (value : Json)
  /-- Something else. -/
  | described (text : String)

/-- Why the store refuses. -/
inductive StoreFailure where
  /-- A value cannot be encoded. -/
  | serialization (text : String)
  /-- The store cannot be set up. -/
  | initialization (text : String)
  /-- The collection holds a document with the same identifier. -/
  | alreadyExists (id collection : String)
  /-- The collection holds no document with the identifier. -/
  | notFound (id collection : String)
  /-- A document or an update makes no sense. -/
  | invalid (defect : Defect)
  /-- The document fails validation. -/
  | validation (failure : Validation)
  /-- The value at a path cannot be taken for the type of its field. -/
  | cast (path : String) (defect : CastDefect)
  /-- The machinery behind the store fails. -/
  | backend (text : String)

/-- The wording of a defect. -/
def Defect.message : Defect → String
  | .unidentified => "document must carry an _id before it is stored"
  | .notAnObject found => "expected an object, found " ++ found.kindText
  | .notMergeable value => "cannot merge " ++ value.text ++ " into a document"
  | .immutableId =>
    "Performing an update on the path '_id' would modify the immutable field '_id'"
  | .emptyPath => "An update path cannot be empty"
  | .unknownLabel label path =>
    "No array filter found for identifier '" ++ label ++ "' in path '" ++ path ++ "'"
  | .notAnArray field found =>
    "The field '" ++ field ++ "' must be an array but is of type " ++ found.typeName
  | .notSelectable field =>
    "The path '" ++ field ++ "' must be an array to be filtered by identifier"
  | .notADocument field found =>
    "Cannot create field in element \x7b" ++ field ++ ": " ++ found.text ++ "\x7d"
  | .described text => text

/-- The wording of a cast that fails at a path. -/
def CastDefect.message (path : String) : CastDefect → String
  | .notAnId value =>
    "Cast to ObjectId failed for value " ++ value.text ++ " at path \"" ++ path ++ "\""
  | .described text => text

/-- The text of a failure. -/
def StoreFailure.message : StoreFailure → String
  | .serialization text => "Serialization error: " ++ text
  | .initialization text => "Initialization error: " ++ text
  | .alreadyExists id collection =>
    "Document " ++ id ++ " already exists in collection " ++ collection
  | .notFound id collection => "Document not found " ++ id ++ " in collection " ++ collection
  | .invalid defect => "Invalid document: " ++ defect.message
  | .validation failure =>
    "Validation failed: invalid fields [" ++ ", ".intercalate (failure.map Prod.fst) ++ "]"
  | .cast path defect => defect.message path
  | .backend text => "Backend error: " ++ text

namespace Validation

mutual

/-- The leaves below a field that stands at a path. -/
def fieldLeaves (path : String) : FieldError → List (String × String)
  | .leaf message => [(path, message)]
  | .group message [] => [(path, message)]
  | .group _ fields => leavesBelow path fields
termination_by structural error => error

/-- The leaves below the elements of the array at a path. Which element failed is not known, so a star
stands for it. -/
def leavesBelow (path : String) : List (String × FieldError) → List (String × String)
  | [] => []
  | (field, error) :: fields =>
    fieldLeaves (path ++ ".*." ++ field) error ++ leavesBelow path fields
termination_by structural fields => fields

end

/-- The path and the message of each leaf, in order. -/
def flatten (failure : Validation) : List (String × String) :=
  failure.flatMap fun (field, error) => fieldLeaves field error

end Validation

end RestArchive
