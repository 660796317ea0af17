import RestArchive.Value

/-! # Stamping identifiers

A document that is to be stored, and every document that is an element of an array inside it, gets an
identifier when it has none. Documents that stand under a name get none. The identifier is the last
member of its document, and an outer document takes its identifier before the documents inside it. -/

namespace RestArchive

namespace Value

mutual

/-- The value with identifiers stamped; `isElement` says whether it is an element of an array. -/
def stamp (isElement : Bool) (supply : IdSupply) : Value → Value × IdSupply
  | .document members =>
    if isElement && !Entries.contains members idField then
      let (id, supply) := supply.take
      let (stamped, supply) := stampMembers supply members
      (.document (stamped ++ [(idField, .objectId id)]), supply)
    else
      let (stamped, supply) := stampMembers supply members
      (.document stamped, supply)
  | .array items =>
    let (stamped, supply) := stampItems supply items
    (.array stamped, supply)
  | other => (other, supply)
termination_by structural value => value

/-- The elements of an array with identifiers stamped. -/
def stampItems (supply : IdSupply) : List Value → List Value × IdSupply
  | [] => ([], supply)
  | item :: items =>
    let (first, supply) := stamp true supply item
    let (others, supply) := stampItems supply items
    (first :: others, supply)
termination_by structural items => items

/-- The members of a document with identifiers stamped inside them. -/
def stampMembers (supply : IdSupply) : List (String × Value) → List (String × Value) × IdSupply
  | [] => ([], supply)
  | (name, value) :: members =>
    let (first, supply) := stamp false supply value
    let (others, supply) := stampMembers supply members
    ((name, first) :: others, supply)
termination_by structural members => members

end

end Value

namespace Document

/-- The document with identifiers stamped inside it. -/
def stampInside (supply : IdSupply) (document : Document) : Document × IdSupply :=
  Value.stampMembers supply document

/-- The document with identifiers stamped on it and inside it. -/
def stamp (supply : IdSupply) (document : Document) : Document × IdSupply :=
  if document.contains idField then document.stampInside supply
  else
    let (id, supply) := supply.take
    let (stamped, supply) := document.stampInside supply
    (stamped ++ [(idField, .objectId id)], supply)

end Document

end RestArchive
