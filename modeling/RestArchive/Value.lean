import RestArchive.Entries
import RestArchive.Number.Decimal128
import RestArchive.ObjectId

/-! # Stored values

Documents hold values of more types than JSON has: integers of two widths, identifiers, dates and the
rest of the binary JSON types, which are twenty-one in all. -/

namespace RestArchive

/-- A stored value. -/
inductive Value where
  /-- The null value. -/
  | null
  /-- The deprecated undefined value. -/
  | undefined
  /-- The value below all others. -/
  | minKey
  /-- The value above all others. -/
  | maxKey
  /-- A truth value. -/
  | bool (value : Bool)
  /-- An integer of 32 bits. -/
  | int32 (value : Int32)
  /-- An integer of 64 bits. -/
  | int64 (value : Int64)
  /-- A double. -/
  | double (value : Binary64)
  /-- A decimal number. -/
  | decimal128 (value : Decimal128)
  /-- A text. -/
  | string (text : String)
  /-- Bytes, with the number of what they are meant for. -/
  | binary (subtype : UInt8) (bytes : List UInt8)
  /-- An identifier. -/
  | objectId (id : ObjectId)
  /-- Milliseconds since the start of 1970. -/
  | date (milliseconds : Int64)
  /-- Seconds since the start of 1970, and a counter within the second. -/
  | timestamp (time increment : UInt32)
  /-- A symbol. -/
  | symbol (text : String)
  /-- Program code. -/
  | code (text : String)
  /-- Program code with the variables that it sees. -/
  | codeWithScope (text : String) (scope : List (String × Value))
  /-- A regular expression with its options. -/
  | regex (pattern options : String)
  /-- A pointer to a document of another collection. -/
  | dbPointer (collection : String) (id : ObjectId)
  /-- A list of values. -/
  | array (items : List Value)
  /-- Named values in order. -/
  | document (members : List (String × Value))
  deriving Inhabited, Repr

/-- A document: named values in order. -/
abbrev Document : Type := Entries Value

/-- The name under which a document, or an element of an array, carries its identifier. -/
def idField : String := "_id"

namespace Value

/-- The name of a value's type, as error texts say it. -/
def typeName : Value → String
  | .null => "Null"
  | .undefined => "Undefined"
  | .minKey => "MinKey"
  | .maxKey => "MaxKey"
  | .bool _ => "Boolean"
  | .int32 _ => "Int32"
  | .int64 _ => "Int64"
  | .double _ => "Double"
  | .decimal128 _ => "Decimal128"
  | .string _ => "String"
  | .binary _ _ => "Binary"
  | .objectId _ => "ObjectId"
  | .date _ => "DateTime"
  | .timestamp _ _ => "Timestamp"
  | .symbol _ => "Symbol"
  | .code _ => "JavaScriptCode"
  | .codeWithScope _ _ => "JavaScriptCodeWithScope"
  | .regex _ _ => "RegularExpression"
  | .dbPointer _ _ => "DbPointer"
  | .array _ => "Array"
  | .document _ => "EmbeddedDocument"

/-- Whether a value is one of the three types of numbers that are computed with. -/
def isNumber : Value → Bool
  | .int32 _ => true
  | .int64 _ => true
  | .double _ => true
  | _ => false

end Value

namespace ObjectId

/-- Whether a stored value denotes an identifier: the identifier itself, or a text that writes it. -/
def denotedBy (id : ObjectId) : Value → Bool
  | .objectId other => other = id
  | .string text => ofHex? text = some id
  | _ => false

/-- Whether a document carries an identifier. -/
def names (id : ObjectId) (document : Document) : Bool :=
  match document.get? idField with
  | some value => id.denotedBy value
  | none => false

/-- Whether an element of an array is a document that carries an identifier. -/
def namesElement (id : ObjectId) : Value → Bool
  | .document members => id.names members
  | _ => false

end ObjectId

end RestArchive
