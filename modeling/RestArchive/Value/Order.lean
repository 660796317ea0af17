import RestArchive.Number.Magnitude
import RestArchive.Value

/-! # Comparing stored values in filters

Filters compare numbers of all three types with one another. The types that filters do not know compare
as null, documents compare by their members in any order, and only truth values, numbers, dates,
identifiers and texts are ordered. -/

namespace RestArchive

namespace Value

/-- The number that a value is compared as, if it is one. -/
def magnitude? : Value → Option Magnitude
  | .int32 value => some (.ofInt value.toInt)
  | .int64 value => some (.ofInt value.toInt)
  | .double value => some value.magnitude
  | _ => none

/-- Whether a value is compared as null. -/
def isNullLike : Value → Bool
  | .null => true
  | .undefined => true
  | .minKey => true
  | .maxKey => true
  | .decimal128 _ => true
  | .binary _ _ => true
  | .timestamp _ _ => true
  | .symbol _ => true
  | .code _ => true
  | .codeWithScope _ _ => true
  | .regex _ _ => true
  | .dbPointer _ _ => true
  | _ => false

mutual

/-- Whether a filter takes two values for equal. -/
def alike : Value → Value → Bool
  | .bool a, .bool b => a = b
  | .string a, .string b => a = b
  | .objectId a, .objectId b => a = b
  | .date a, .date b => a = b
  | .array a, .array b => alikeItems a b
  | .document a, .document b => a.length = b.length && alikeMembers a b
  | a, b =>
    match a.magnitude?, b.magnitude? with
    | some m, some n => m.same n
    | none, none => a.isNullLike && b.isNullLike
    | _, _ => false
termination_by structural value => value

/-- Whether a filter takes the items of two lists for equal, one by one. -/
def alikeItems : List Value → List Value → Bool
  | [], [] => true
  | a :: as, b :: bs => alike a b && alikeItems as bs
  | _, _ => false
termination_by structural items => items

/-- Whether every member of the first document is like its namesake in the second. -/
def alikeMembers : List (String × Value) → List (String × Value) → Bool
  | [], _ => true
  | (name, a) :: as, bs =>
    (match Entries.get? bs name with
      | some b => alike a b
      | none => false)
      && alikeMembers as bs
termination_by structural members => members

end

/-- The order of two texts: that of their characters' code points, which is also the order of their bytes in
UTF-8. -/
def compareText : List Char → List Char → Ordering
  | [], [] => .eq
  | [], _ :: _ => .lt
  | _ :: _, [] => .gt
  | a :: as, b :: bs =>
    match compare a.toNat b.toNat with
    | .eq => compareText as bs
    | different => different

/-- How a filter orders two values, if it does. -/
def order? (a b : Value) : Option Ordering :=
  match a, b with
  | .bool a, .bool b => some (compare a.toNat b.toNat)
  | .date a, .date b => some (compare a.toInt b.toInt)
  | .objectId a, .objectId b => some (compare a.value b.value)
  | .string a, .string b => some (compareText a.toList b.toList)
  | a, b =>
    match a.magnitude?, b.magnitude? with
    | some m, some n => m.compare? n
    | _, _ => none

end Value

end RestArchive
