import RestArchive.Path.Scope
import RestArchive.RequestError

/-! # Addresses

What a request path names: the whole collection, a document, or a place inside a document. One slash in
front and one at the end do not count. Each identifier behind the first segment must directly follow the
name of a field. -/

namespace RestArchive

/-- What a request path names. -/
structure Address where
  /-- The text that names the document; nothing for the whole collection. -/
  root : Option String
  /-- The way from the document to the place inside it. -/
  segments : List Segment
  /-- Whether the last segment is left out of the scoped path. A nested removal does so: its last
  identifier names the element to remove, not one to go into. -/
  omitsLast : Bool
  deriving DecidableEq, Repr

namespace Address

/-- The first identifier that follows no field, in segments behind a field or not. -/
def strayIdentifier? (afterField : Bool) : List Segment → Option ObjectId
  | [] => none
  | .field _ :: rest => strayIdentifier? true rest
  | .identifier id :: rest => if afterField then strayIdentifier? false rest else some id

/-- What stands in front of segments that start with no identifier does not count. -/
theorem strayIdentifier?_of_not_identifier {segments : List Segment}
    (h : ∀ id rest, segments ≠ .identifier id :: rest) (afterField : Bool) :
    strayIdentifier? afterField segments = strayIdentifier? false segments := by
  match segments with
  | [] => rfl
  | .field _ :: _ => rfl
  | .identifier id :: rest => exact absurd rfl (h id rest)

/-- Where no identifier is stray, none is in the segments in front. -/
theorem strayIdentifier?_of_append {afterField : Bool} {before behind : List Segment}
    (h : strayIdentifier? afterField (before ++ behind) = none) :
    strayIdentifier? afterField before = none := by
  induction before generalizing afterField with
  | nil => rfl
  | cons segment before ih =>
    cases segment with
    | field name => exact ih h
    | identifier id =>
      cases afterField with
      | true => exact ih h
      | false => cases h

/-- The address that a path is. -/
def parse (path : String) (omitsLast : Bool) : Except RequestError Address :=
  let trimmed := Text.dropTrailing '/' (Text.dropLeading '/' path)
  if trimmed = "" then .ok ⟨none, [], omitsLast⟩
  else
    match Text.split '/' trimmed with
    | [] => .ok ⟨none, [], omitsLast⟩
    | root :: rest =>
      let segments := rest.map Segment.ofText
      match strayIdentifier? false segments with
      | some id => .error (.strayIdentifier id)
      | none => .ok ⟨some root, segments, omitsLast⟩

/-- Whether the address is the whole collection. -/
def isCollection (address : Address) : Bool := address.root.isNone

/-- Whether the address is a place inside a document. -/
def isNested (address : Address) : Bool := !address.segments.isEmpty

/-- The segments that make up the scoped path. -/
def retained (address : Address) : List Segment :=
  if address.omitsLast then address.segments.dropLast else address.segments

/-- The last segment, left out of the scoped path or not. -/
def final? (address : Address) : Option Segment := address.segments.getLast?

/-- The scoped form of the address. -/
def scopedPath (address : Address) : ScopedPath := .ofSegments [] address.retained

/-- The dotted text of the scoped path. -/
def fieldPath (address : Address) : String := address.scopedPath.text

/-- The scopes of the placeholders of the scoped path. -/
def scopes (address : Address) : List Scope := address.scopedPath.scopes

/-- Whether the scoped path ends at an element of an array. -/
def endsAtElement (address : Address) : Bool :=
  match address.retained.getLast? with
  | some segment => segment.isIdentifier
  | none => false

end Address

end RestArchive
