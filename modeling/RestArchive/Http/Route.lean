import RestArchive.Text.Split

/-! # Routes

The routes under which collections are served, as the HTTP library is given them. Collections have no
routes of their own: their names are parameters. How a path takes a route is up to the library. -/

namespace RestArchive

/-- What the pattern of a route asks of a path between two slashes. -/
inductive PatternPart where
  /-- This text. -/
  | literal (text : String)
  /-- A segment, which becomes a parameter. -/
  | parameter (name : String)
  /-- The rest of the path with its slashes, which becomes a parameter. -/
  | rest (name : String)
  deriving DecidableEq, Repr

/-- The methods that a route is registered for. -/
inductive Methods where
  /-- `GET`, and `HEAD` with it. -/
  | get
  /-- All methods. -/
  | any
  deriving DecidableEq, Repr

/-- What answers a request. -/
inductive Endpoint where
  /-- The health check. -/
  | health
  /-- The collection that the parameters name. -/
  | dispatch
  /-- The answer for paths without a route. -/
  | unknownRoute
  deriving DecidableEq, Repr

/-- A route. -/
structure Route where
  /-- The parts of its pattern, one behind each slash. -/
  pattern : List PatternPart
  /-- The methods that it is registered for. -/
  methods : Methods
  /-- What answers its requests. -/
  endpoint : Endpoint
  deriving DecidableEq, Repr

namespace Route

/-- The parameter that names a collection. -/
def collectionParameter : String := "collection"

/-- The parameter that is the path below a collection. -/
def pathParameter : String := "path"

/-- `/health`. -/
def health : Route := ⟨[.literal "health"], .get, .health⟩

/-- `/{collection}`. -/
def collection : Route := ⟨[.parameter collectionParameter], .any, .dispatch⟩

/-- `/{collection}/`. -/
def collectionSlash : Route := ⟨[.parameter collectionParameter, .literal ""], .any, .dispatch⟩

/-- `/{collection}/{*path}`. -/
def below : Route := ⟨[.parameter collectionParameter, .rest pathParameter], .any, .dispatch⟩

/-- All routes. -/
def all : List Route := [health, collection, collectionSlash, below]

/-- What answers the requests whose path takes no route. -/
def fallback : Endpoint := .unknownRoute

/-- Whether a route has no parameters. -/
def isStatic (route : Route) : Bool :=
  route.pattern.all fun part => match part with
    | .literal _ => true
    | _ => false

end Route

end RestArchive
