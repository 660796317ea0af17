import RestArchive.Failure
import RestArchive.Filter
import RestArchive.Update

/-! # MongoDB queries and updates

Filters and updates in the syntax of a MongoDB database. The database takes only short labels of
lowercase letters and digits, so a placeholder is renamed after the position of its scope, and is written
behind the name of its field. -/

namespace RestArchive

namespace Mongo

/-- The operand of a comparison; one that must be a list is made one. -/
def operand (comparison : Comparison) (value : Value) : Value :=
  match comparison.takesList, value with
  | true, .array items => .array items
  | true, single => .array [single]
  | false, value => value

mutual

/-- The query that a filter is. No clause at all is written so that it always, or never, holds. -/
def query : Filter → Document
  | .all [] => []
  | .all clauses => [("$and", .array (queries clauses))]
  | .any [] => [(idField, .document [("$exists", .bool false)])]
  | .any clauses => [("$or", .array (queries clauses))]
  | .not clause => [("$nor", .array [.document (query clause)])]
  | .present field expected => [(field, .document [("$exists", .bool expected)])]
  | .compare field comparison value =>
    [(field, .document [(comparison.operator, operand comparison value)])]
termination_by structural filter => filter

/-- The queries that a list of filters is. -/
def queries : List Filter → List Value
  | [] => []
  | clause :: clauses => .document (query clause) :: queries clauses
termination_by structural clauses => clauses

end

/-- The query for a filter that may be absent. -/
def queryOf : Option Filter → Document
  | some filter => query filter
  | none => []

/-- The label of the scope at a position. -/
def scopeAlias (position : Nat) : String := "scope" ++ toString position

/-- The first scope with a label, with its position. -/
def positionOf? (label : String) (position : Nat) : List Scope → Option (Nat × Scope)
  | [] => none
  | scope :: scopes =>
    if scope.label = label then some (position, scope)
    else positionOf? label (position + 1) scopes

/-- A token of an update path. -/
def token (scopes : List Scope) (path text : String) : Except StoreFailure String :=
  match placeholderLabel? text with
  | none => .ok text
  | some label =>
    match positionOf? label 0 scopes with
    | some (position, scope) => .ok (scope.field ++ "." ++ placeholder (scopeAlias position))
    | none => .error (.invalid (.unknownLabel label path))

/-- The tokens of an update path. -/
def tokens (scopes : List Scope) (path : String) : List String → Except StoreFailure (List String)
  | [] => .ok []
  | text :: texts => do
    let first ← token scopes path text
    let others ← tokens scopes path texts
    return first :: others

/-- An update path. -/
def path (scopes : List Scope) (text : String) : Except StoreFailure String :=
  (tokens scopes text (Text.split '.' text)).map (Text.join '.')

/-- The values to put at their paths. A path that comes again takes the last value. -/
def settings (scopes : List Scope) (written : Document) :
    List (String × Value) → Except StoreFailure Document
  | [] => .ok written
  | (text, value) :: values =>
    (path scopes text).bind fun rendered => settings scopes (written.insert rendered value) values

/-- The conditions on the elements that the scopes select. -/
def conditions (position : Nat) : List Scope → List Document
  | [] => []
  | scope :: scopes =>
    [(scopeAlias position ++ "." ++ idField, .objectId scope.id)] :: conditions (position + 1) scopes

/-- The modification that a change is. -/
def modification (scopes : List Scope) : Change → Except StoreFailure Document
  | .set values =>
    (settings scopes [] values).map fun written => [("$set", .document written)]
  | .push text value =>
    (path scopes text).map fun rendered => [("$push", .document [(rendered, value)])]
  | .pull text id =>
    (path scopes text).map fun rendered =>
      [("$pull", .document [(rendered, .document [(idField, .objectId id)])])]

/-- Whether a change puts no value at all. -/
def isIdle : Change → Bool
  | .set values => values.isEmpty
  | _ => false

/-- The modification and the conditions of an update, unless it has nothing to do. -/
def update (update : Update) : Except StoreFailure (Option (Document × List Document)) :=
  if isIdle update.change then .ok none
  else (modification update.scopes update.change).map fun modified =>
    some (modified, conditions 0 update.scopes)

end Mongo

end RestArchive
