import RestArchive.Path.Scope

/-! # Updates

Changes to places inside a document. The places are scoped paths, and the update carries the scopes of
their placeholders. -/

namespace RestArchive

/-- What to do at places inside a document. -/
inductive Change where
  /-- Puts each value at its path. -/
  | set (values : Document)
  /-- Adds a value at the end of the array at a path. -/
  | push (path : String) (value : Value)
  /-- Removes from the array at a path the elements that carry an identifier. -/
  | pull (path : String) (id : ObjectId)
  deriving Repr

/-- A change, with the scopes of the placeholders in its paths. -/
structure Update where
  /-- What to do. -/
  change : Change
  /-- What the placeholders stand for. -/
  scopes : List Scope
  deriving Repr

namespace Update

/-- The scope that the update has for a label. -/
def scopeOf? (update : Update) (label : String) : Option Scope := Scope.find? update.scopes label

end Update

end RestArchive
