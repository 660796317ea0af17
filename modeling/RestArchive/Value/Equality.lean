import RestArchive.Number.Magnitude
import RestArchive.Value

/-! # Equality of stored values

Two values are the same when they have one type and one content. The order of names in a document does
not count; numbers of different types differ; a NaN differs from itself, and the two zeros are the
same. -/

namespace RestArchive.Value

mutual

/-- Whether two stored values are the same. -/
def same : Value → Value → Bool
  | .null, .null => true
  | .undefined, .undefined => true
  | .minKey, .minKey => true
  | .maxKey, .maxKey => true
  | .bool a, .bool b => a = b
  | .int32 a, .int32 b => a = b
  | .int64 a, .int64 b => a = b
  | .double a, .double b => a.same b
  | .decimal128 a, .decimal128 b => a = b
  | .string a, .string b => a = b
  | .binary a c, .binary b d => a = b && c = d
  | .objectId a, .objectId b => a = b
  | .date a, .date b => a = b
  | .timestamp a c, .timestamp b d => a = b && c = d
  | .symbol a, .symbol b => a = b
  | .code a, .code b => a = b
  | .codeWithScope a c, .codeWithScope b d => a = b && c.length = d.length && sameMembers c d
  | .regex a c, .regex b d => a = b && c = d
  | .dbPointer a c, .dbPointer b d => a = b && c = d
  | .array a, .array b => sameItems a b
  | .document a, .document b => a.length = b.length && sameMembers a b
  | _, _ => false
termination_by structural value => value

/-- Whether two lists hold the same values in the same order. -/
def sameItems : List Value → List Value → Bool
  | [], [] => true
  | a :: as, b :: bs => same a b && sameItems as bs
  | _, _ => false
termination_by structural items => items

/-- Whether every member of the first document is in the second one too. -/
def sameMembers : List (String × Value) → List (String × Value) → Bool
  | [], _ => true
  | (name, a) :: as, bs =>
    (match Entries.get? bs name with
      | some b => same a b
      | none => false)
      && sameMembers as bs
termination_by structural members => members

end

end RestArchive.Value

namespace RestArchive.Document

/-- Whether two documents hold the same members, in any order. -/
def same (a b : Document) : Bool := (Value.document a).same (.document b)

end RestArchive.Document
