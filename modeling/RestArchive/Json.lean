import RestArchive.Entries
import RestArchive.Number.Numeral

/-! # JSON values

Request bodies, filters and replies. Objects keep the order in which their names were first given. -/

namespace RestArchive

/-- A JSON value. -/
inductive Json where
  /-- The null value. -/
  | null
  /-- A truth value. -/
  | bool (value : Bool)
  /-- A number written without point and exponent that fits in 64 bits, with or without sign. -/
  | integer (value : Int)
  /-- Any other number. -/
  | double (value : Binary64)
  /-- A text. -/
  | string (text : String)
  /-- A list of values. -/
  | array (items : List Json)
  /-- Named values in order. -/
  | object (members : List (String × Json))
  deriving Inhabited, Repr

namespace Json

/-- The JSON number that a numeral writes. -/
def ofNumeral : Numeral → Json
  | .integer value => .integer value
  | .double value => .double value

/-- The member of an object under a name; other values have none. -/
def member? : Json → String → Option Json
  | .object members, name => Entries.get? members name
  | _, _ => none

/-- What a value is, as error texts say it. -/
def kindText : Json → String
  | .null => "null"
  | .bool _ => "a boolean"
  | .integer _ => "a number"
  | .double _ => "a number"
  | .string _ => "a string"
  | .array _ => "an array"
  | .object _ => "an object"

/-- Whether a value counts as true: all do but null, `false` and zero. -/
def isTruthy : Json → Bool
  | .null => false
  | .bool value => value
  | .integer value => value ≠ 0
  | .double value => !value.isZero
  | _ => true

end Json

end RestArchive
