import RestArchive.Filter.OfJson
import RestArchive.Json.Reader
import RestArchive.Projection

/-! # Selections

What the parameters of a request select: a filter, a projection, and whether one document or all are
meant. The filter is read before the projection, so its errors come first. -/

namespace RestArchive

/-- What the parameters of a request select. -/
structure Selection where
  /-- Which documents. -/
  filter : Option Filter
  /-- Which of their fields; a projection that lists nothing counts as none. -/
  projection : Option Projection
  /-- Whether only the first document is meant. -/
  single : Bool
  deriving Repr

namespace Selection

/-- The JSON value of a parameter. -/
def jsonOf (name text : String) : Except RequestError Json :=
  match Json.ofText? text with
  | some value => .ok value
  | none => .error (.malformedParameter name)

/-- What a parameter that may be absent is read as. -/
def readWith {α : Type} (read : Json → Except RequestError α) (parameters : Entries String)
    (name : String) : Except RequestError (Option α) :=
  match parameters.get? name with
  | none => .ok none
  | some text => ((jsonOf name text).bind read).map some

/-- The selection that parameters make. -/
def ofParameters (parameters : Entries String) : Except RequestError Selection := do
  let filter ← readWith Filter.ofJson parameters "query"
  let projection ← readWith Projection.ofJson parameters "fields"
  return {
    filter
    projection := projection.filter fun listed => !listed.isEmpty
    single := parameters.get? "multiplicity" = some "one" }

end Selection

end RestArchive
