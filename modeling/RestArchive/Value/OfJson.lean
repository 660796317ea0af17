import RestArchive.Failure

/-! # Stored values from JSON

An integer becomes the narrowest stored integer that holds it, or a double when none does. A request body is
converted alike, but its identifier fields must write identifiers: under the name `_id`, at any depth,
only a text of twenty-four hexadecimal digits is accepted, and it is stored as an identifier. -/

namespace RestArchive

/-- The stored number for an integer. -/
def Value.ofInteger (n : Int) : Value :=
  if -0x80000000 ≤ n ∧ n < 0x80000000 then .int32 (Int32.ofInt n)
  else if -0x8000000000000000 ≤ n ∧ n < 0x8000000000000000 then .int64 (Int64.ofInt n)
  else .double (Binary64.ofInt n)

mutual

/-- The stored value for a JSON value. -/
def Value.ofJson : Json → Value
  | .null => .null
  | .bool value => .bool value
  | .integer value => .ofInteger value
  | .double value => .double value
  | .string text => .string text
  | .array items => .array (Value.itemsOfJson items)
  | .object members => .document (Value.membersOfJson members)
termination_by structural value => value

/-- The stored values for the items of an array. -/
def Value.itemsOfJson : List Json → List Value
  | [] => []
  | item :: items => Value.ofJson item :: Value.itemsOfJson items
termination_by structural items => items

/-- The stored values for the members of an object, under the same names. -/
def Value.membersOfJson : List (String × Json) → List (String × Value)
  | [] => []
  | (name, value) :: members => (name, Value.ofJson value) :: Value.membersOfJson members
termination_by structural members => members

end

namespace Body

/-- The stored value of an identifier field. -/
def castId (path : String) (value : Json) : Except StoreFailure Value :=
  match value with
  | .string text =>
    match ObjectId.ofHex? text with
    | some id => .ok (.objectId id)
    | none => .error (.cast path (.notAnId value))
  | _ => .error (.cast path (.notAnId value))

/-- The path of a member below a path, if there is one. -/
def memberPath (path : Option String) (name : String) : String :=
  match path with
  | some above => above ++ "." ++ name
  | none => name

mutual

/-- The stored value for a part of a body that stands at a path. The items of an array stand where the
array does. -/
def valueAt (path : Option String) : Json → Except StoreFailure Value
  | .object members => (membersAt path members).map .document
  | .array items => (itemsAt path items).map .array
  | other => .ok (Value.ofJson other)
termination_by structural value => value

/-- The stored values for the items of an array that stands at a path. -/
def itemsAt (path : Option String) : List Json → Except StoreFailure (List Value)
  | [] => .ok []
  | item :: items => do
    let first ← valueAt path item
    let others ← itemsAt path items
    return first :: others
termination_by structural items => items

/-- The stored members for the members of an object that stands at a path. -/
def membersAt (path : Option String) : List (String × Json) → Except StoreFailure (List (String × Value))
  | [] => .ok []
  | (name, value) :: members => do
    let inner := memberPath path name
    let first ← if name = idField then castId inner value else valueAt (some inner) value
    let others ← membersAt path members
    return (name, first) :: others
termination_by structural members => members

end

/-- The document that a whole body is. -/
def document : Json → Except StoreFailure Document
  | .object members => membersAt none members
  | other => .error (.invalid (.notAnObject other))

end Body

end RestArchive
