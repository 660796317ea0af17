import RestArchive.ObjectId

/-! # Segments of request paths

A segment is read as an identifier when it is twenty-four hexadecimal digits, and as the name of a field
otherwise. What is stored plays no part. -/

namespace RestArchive

/-- A segment of a request path. -/
inductive Segment where
  /-- Names a document, or an element of an array. -/
  | identifier (id : ObjectId)
  /-- Names a field. -/
  | field (name : String)
  deriving DecidableEq, Repr

namespace Segment

/-- The segment that a text is. -/
def ofText (text : String) : Segment :=
  match ObjectId.ofHex? text with
  | some id => .identifier id
  | none => .field text

/-- The text of a segment; identifiers are in lowercase. -/
def text : Segment → String
  | .identifier id => id.toHex
  | .field name => name

/-- Whether a segment is an identifier. -/
def isIdentifier : Segment → Bool
  | .identifier _ => true
  | .field _ => false

@[simp] theorem ofText_toHex (id : ObjectId) : ofText id.toHex = .identifier id := by
  simp [ofText]

/-- A text that is no identifier is the name of a field. -/
theorem ofText_of_not_isIdText {text : String} (h : ObjectId.isIdText text = false) :
    ofText text = .field text := by
  simp [ofText, ObjectId.ofHex?, h]

end Segment

end RestArchive
