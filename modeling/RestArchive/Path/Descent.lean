import RestArchive.Path.Segment
import RestArchive.RequestError

/-! # Descent into values

Reading follows the segments of an address: the name of a field goes into a document, an identifier into
the first element of an array that carries it. -/

namespace RestArchive.Value

/-- The value one segment below. -/
def child (value : Value) : Segment → Except RequestError Value
  | .identifier id =>
    match value with
    | .array items =>
      match items.find? id.namesElement with
      | some item => .ok item
      | none => .error (.idNotFound id.toHex)
    | _ => .error (.idNotFound id.toHex)
  | .field name =>
    match value with
    | .document members =>
      match Entries.get? members name with
      | some member => .ok member
      | none => .error (.fieldNotFound name)
    | _ => .error (.fieldNotFound name)

/-- The value that segments lead to. -/
def descend : Value → List Segment → Except RequestError Value
  | value, [] => .ok value
  | value, segment :: rest =>
    match value.child segment with
    | .ok below => below.descend rest
    | .error error => .error error

@[simp] theorem descend_nil (value : Value) : value.descend [] = .ok value := by
  cases value <;> rfl

theorem descend_cons (value : Value) (segment : Segment) (rest : List Segment) :
    value.descend (segment :: rest) = (value.child segment).bind fun below => below.descend rest := by
  simp only [descend]
  cases value.child segment <;> rfl

/-- Descent along segments goes on from where descent along the first of them ends. -/
theorem descend_append (value : Value) (front behind : List Segment) :
    value.descend (front ++ behind) =
      (value.descend front).bind fun below => below.descend behind := by
  induction front generalizing value with
  | nil =>
    rw [List.nil_append, descend_nil]
    rfl
  | cons segment front ih =>
    rw [List.cons_append, descend_cons, descend_cons]
    cases value.child segment with
    | ok below => exact ih below
    | error error => rfl

end RestArchive.Value
