import RestArchive.Json
import RestArchive.Value.Text

/-! # Stored values as JSON

How replies show stored values. Identifiers and dates become texts, a double that is no finite number
becomes null, and the types that JSON does not know become their message texts. -/

namespace RestArchive

mutual

/-- The JSON form of a stored value. -/
def Value.toJson : Value → Json
  | .null => .null
  | .undefined => .null
  | .bool value => .bool value
  | .int32 value => .integer value.toInt
  | .int64 value => .integer value.toInt
  | .double value => if value.isFinite then .double value else .null
  | .string text => .string text
  | .objectId id => .string id.toHex
  | .date milliseconds => .string (CalendarTime.timestampOf milliseconds.toInt)
  | .array items => .array (Value.itemsToJson items)
  | .document members => .object (Value.membersToJson members)
  | .minKey => .string (Value.text .minKey)
  | .maxKey => .string (Value.text .maxKey)
  | .timestamp time increment => .string (Value.timestamp time increment).text
  | .symbol text => .string (Value.symbol text).text
  | .code text => .string (Value.code text).text
  | .regex pattern options => .string (Value.regex pattern options).text
  | .decimal128 value => .string (Value.decimal128 value).text
  | .binary subtype bytes => .string (Value.binary subtype bytes).text
  | .codeWithScope text scope => .string (Value.codeWithScope text scope).text
  | .dbPointer collection id => .string (Value.dbPointer collection id).text
termination_by structural value => value

/-- The JSON forms of the items of an array. -/
def Value.itemsToJson : List Value → List Json
  | [] => []
  | item :: items => item.toJson :: Value.itemsToJson items
termination_by structural items => items

/-- The JSON forms of the members of a document, under the same names. -/
def Value.membersToJson : List (String × Value) → List (String × Json)
  | [] => []
  | (name, value) :: members => (name, value.toJson) :: Value.membersToJson members
termination_by structural members => members

end

/-- The JSON form of a document. -/
def Document.toJson (document : Document) : Json := .object (Value.membersToJson document)

end RestArchive
