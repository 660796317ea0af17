import RestArchive.Path.Segment
import RestArchive.Text.Split
import RestArchive.Value

/-! # Scoped paths

An identifier in a path selects elements of the array under the field before it. In the dotted form of
the path, that field is written as a placeholder `$[label]`, and a scope says for each label which field
and which identifier it stands for. Labels are the names of the fields; a name that is taken gets a
number behind it. -/

namespace RestArchive

/-- What a placeholder of a scoped path stands for. -/
structure Scope where
  /-- The label of the placeholder. -/
  label : String
  /-- The field that holds the array. -/
  field : String
  /-- The identifier of the elements selected. -/
  id : ObjectId
  deriving DecidableEq, Repr

/-- The token that stands for a label in a scoped path. -/
def placeholder (label : String) : String := "$[" ++ label ++ "]"

/-- The label that a token stands for, if it has the shape of a placeholder. -/
def placeholderLabel? (token : String) : Option String :=
  match token.toList with
  | '$' :: '[' :: rest =>
    if rest.getLast? = some ']' then some (String.ofList rest.dropLast) else none
  | _ => none

namespace Scope

/-- The path of the selecting identifier below a label. -/
def idPath (scope : Scope) : String := scope.label ++ "." ++ idField

/-- The condition that a scope puts on the elements it selects. -/
def condition (scope : Scope) : Document := [(scope.idPath, .objectId scope.id)]

/-- The first scope with a label. -/
def find? (scopes : List Scope) (label : String) : Option Scope :=
  List.find? (fun scope => scope.label = label) scopes

end Scope

/-- The name of a field with a number behind it. -/
def numberedLabel (field : String) (number : Nat) : String := field ++ toString number

/-- The label for a field: its name, or the name with the least number from 2 on that makes it new.
Among one more numbers than there are labels issued, one is free. -/
def freeLabel (issued : List String) (field : String) : String :=
  if field ∉ issued then field
  else
    let candidates := (List.range (issued.length + 1)).map fun number =>
      numberedLabel field (number + 2)
    (candidates.find? fun label => label ∉ issued).getD field

/-- The dotted form of a path, token by token, and the scopes of its placeholders. -/
structure ScopedPath where
  /-- The tokens, one for each field. -/
  tokens : List String
  /-- The scopes, one for each identifier. -/
  scopes : List Scope
  deriving DecidableEq, Repr

namespace ScopedPath

/-- The scoped form of segments, when the labels `issued` are taken. An identifier that follows no field
has no scoped form and is left out. -/
def ofSegments (issued : List String) : List Segment → ScopedPath
  | [] => ⟨[], []⟩
  | .field name :: .identifier id :: rest =>
    let label := freeLabel issued name
    let behind := ofSegments (label :: issued) rest
    ⟨placeholder label :: behind.tokens, ⟨label, name, id⟩ :: behind.scopes⟩
  | .field name :: rest =>
    let behind := ofSegments issued rest
    ⟨name :: behind.tokens, behind.scopes⟩
  | .identifier _ :: rest => ofSegments issued rest

/-- The dotted text of a scoped path. -/
def text (path : ScopedPath) : String := Text.join '.' path.tokens

end ScopedPath

end RestArchive
