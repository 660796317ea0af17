import RestArchive.Filter
import RestArchive.Number.Numeral
import RestArchive.Text.Split
import RestArchive.Value.Order

/-! # Which documents meet a filter

A dotted path leads into documents by name. In an array a token that is a number leads to the item at
that position; any other token leads into every document of the array, so a path may reach several
values. A comparison looks at each value reached, and at each item of one that is an array. -/

namespace RestArchive

/-- The greatest position that a path can name. -/
def greatestIndex : Nat := Nat.pow 2 64 - 1

/-- The position in an array that a token of a path writes: decimal digits, at least one, with or
without a plus sign in front. -/
def arrayIndex? (token : String) : Option Nat :=
  let digits :=
    match token.toList with
    | '+' :: rest => rest
    | chars => chars
  if digits ≠ [] ∧ digits.all isDecimalDigit ∧ decimalValue digits ≤ greatestIndex then
    some (decimalValue digits)
  else none

namespace Value

/-- The values that the tokens of a path lead to. -/
def reach : Value → List String → List Value
  | value, [] => [value]
  | .document members, token :: rest =>
    match Entries.get? members token with
    | some member => member.reach rest
    | none => []
  | .array items, token :: rest =>
    match arrayIndex? token with
    | some index =>
      match items[index]? with
      | some item => item.reach rest
      | none => []
    | none =>
      items.flatMap fun
        | .document members =>
          match Entries.get? members token with
          | some member => member.reach rest
          | none => []
        | _ => []
  | _, _ :: _ => []

/-- What a comparison looks at: the value itself, and the items of an array. -/
def candidates (value : Value) : List Value :=
  match value with
  | .array items => value :: items
  | _ => [value]

/-- The values that an operand lists; a value that is no list lists itself. -/
def options (operand : Value) : List Value :=
  match operand with
  | .array items => items
  | _ => [operand]

end Value

namespace Document

/-- The values that a dotted path leads to. -/
def resolve (document : Document) (path : String) : List Value :=
  (Value.document document).reach (Text.split '.' path)

/-- The path of the identifier field leads to what stands in it. -/
theorem resolve_idField (document : Document) :
    document.resolve idField = (document.get? idField).toList := by
  have hsplit : Text.split '.' idField = [idField] := by decide
  rw [resolve, hsplit, Value.reach]
  cases Entries.get? document idField <;> rfl

/-- Whether some value that a path leads to passes a test. -/
def anyAt (document : Document) (path : String) (test : Value → Bool) : Bool :=
  (document.resolve path).any fun value => value.candidates.any test

end Document

namespace Comparison

/-- Whether the order of a value and the operand is one of those a comparison asks for. -/
def admits (comparison : Comparison) : Option Ordering → Bool
  | none => false
  | some ordering =>
    match comparison with
    | .greater => ordering = .gt
    | .greaterOrEqual => ordering ≠ .lt
    | .less => ordering = .lt
    | .lessOrEqual => ordering ≠ .gt
    | _ => false

/-- Whether a document holds a value at a path that compares so with the operand. -/
def holdsAt (comparison : Comparison) (document : Document) (path : String) (operand : Value) : Bool :=
  match comparison with
  | .equal => document.anyAt path fun value => value.alike operand
  | .notEqual => !document.anyAt path fun value => value.alike operand
  | .anyOf => document.anyAt path fun value => operand.options.any fun option => option.alike value
  | .noneOf => !document.anyAt path fun value => operand.options.any fun option => option.alike value
  | _ => document.anyAt path fun value => comparison.admits (value.order? operand)

end Comparison

namespace Filter

mutual

/-- Whether a document meets a filter. -/
def accepts (document : Document) : Filter → Bool
  | .all clauses => acceptsAll document clauses
  | .any clauses => acceptsAny document clauses
  | .not clause => !accepts document clause
  | .present field expected => (!(document.resolve field).isEmpty) = expected
  | .compare field comparison operand => comparison.holdsAt document field operand
termination_by structural filter => filter

/-- Whether a document meets every filter of a list. -/
def acceptsAll (document : Document) : List Filter → Bool
  | [] => true
  | clause :: clauses => accepts document clause && acceptsAll document clauses
termination_by structural clauses => clauses

/-- Whether a document meets some filter of a list. -/
def acceptsAny (document : Document) : List Filter → Bool
  | [] => false
  | clause :: clauses => accepts document clause || acceptsAny document clauses
termination_by structural clauses => clauses

end

end Filter

end RestArchive
