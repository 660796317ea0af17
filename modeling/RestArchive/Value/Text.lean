import RestArchive.Calendar
import RestArchive.Text.Base64
import RestArchive.Value

/-! # Stored values in messages

The text of a stored value inside an error message. Quotes are put around texts, and nothing is
escaped. -/

namespace RestArchive.Value

/-- Doubles in messages: always positional, whole numbers without a point, a tie going up. -/
def doubleStyle : NumeralStyle where
  positional _ := true
  pointZero := false
  tie := .up

/-- The text of a double, with names for what is no finite number. -/
def doubleText (x : Binary64) : String :=
  if x.isFinite then doubleStyle.text x
  else if x.isNaN then "NaN"
  else if x.isNegative then "-inf"
  else "inf"

mutual

/-- The text of a value. -/
def text : Value → String
  | .null => "null"
  | .undefined => "undefined"
  | .minKey => "MinKey"
  | .maxKey => "MaxKey"
  | .bool true => "true"
  | .bool false => "false"
  | .int32 value => toString value.toInt
  | .int64 value => toString value.toInt
  | .double value => doubleText value
  | .decimal128 value => value.text
  | .string content => "\"" ++ content ++ "\""
  | .binary subtype bytes =>
    "Binary(0x" ++ String.ofList (Nat.toDigits 16 subtype.toNat) ++ ", "
      ++ String.ofList (Text.base64 bytes) ++ ")"
  | .objectId id => "ObjectId(\"" ++ id.toHex ++ "\")"
  | .date milliseconds =>
    "DateTime(\"" ++ CalendarTime.messageOf milliseconds.toInt ++ "\")"
  | .timestamp time increment =>
    "Timestamp(" ++ toString time.toNat ++ ", " ++ toString increment.toNat ++ ")"
  | .symbol content => "Symbol(\"" ++ content ++ "\")"
  | .code content => content
  | .codeWithScope content _ => content
  | .regex pattern options => "/" ++ pattern ++ "/" ++ options
  | .dbPointer collection id => "DBPointer(" ++ collection ++ ", " ++ id.toHex ++ ")"
  | .array items => "[" ++ itemsText true items ++ "]"
  | .document [] => "\x7b\x7d"
  | .document members => "\x7b " ++ membersText true members ++ " \x7d"
termination_by structural value => value

/-- The items of an array, a comma before each but the first. -/
def itemsText (first : Bool) : List Value → String
  | [] => ""
  | item :: items => (if first then "" else ", ") ++ text item ++ itemsText false items
termination_by structural items => items

/-- The members of a document, a comma before each but the first. -/
def membersText (first : Bool) : List (String × Value) → String
  | [] => ""
  | (name, value) :: members =>
    (if first then "" else ", ") ++ "\"" ++ name ++ "\": " ++ text value ++ membersText false members
termination_by structural members => members

end

end RestArchive.Value
