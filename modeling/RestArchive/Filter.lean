import RestArchive.Value

/-! # Filters

Conditions on documents: comparisons of the values at dotted paths, and their combinations. -/

namespace RestArchive

/-- How a value at a path is compared with an operand. -/
inductive Comparison where
  /-- Equal to the operand. -/
  | equal
  /-- Not equal to the operand. -/
  | notEqual
  /-- Greater than the operand. -/
  | greater
  /-- Greater than the operand or equal to it. -/
  | greaterOrEqual
  /-- Less than the operand. -/
  | less
  /-- Less than the operand or equal to it. -/
  | lessOrEqual
  /-- Equal to an item of the operand. -/
  | anyOf
  /-- Equal to no item of the operand. -/
  | noneOf
  deriving DecidableEq, Repr

namespace Comparison

/-- The operator that writes a comparison. -/
def operator : Comparison → String
  | .equal => "$eq"
  | .notEqual => "$ne"
  | .greater => "$gt"
  | .greaterOrEqual => "$gte"
  | .less => "$lt"
  | .lessOrEqual => "$lte"
  | .anyOf => "$in"
  | .noneOf => "$nin"

/-- Every comparison. -/
def all : List Comparison :=
  [.equal, .notEqual, .greater, .greaterOrEqual, .less, .lessOrEqual, .anyOf, .noneOf]

/-- The comparison that an operator writes. -/
def ofOperator? (operator : String) : Option Comparison :=
  all.find? fun comparison => comparison.operator = operator

/-- Whether the operand must be a list. -/
def takesList : Comparison → Bool
  | .anyOf => true
  | .noneOf => true
  | _ => false

@[simp] theorem ofOperator?_operator (comparison : Comparison) :
    ofOperator? comparison.operator = some comparison := by
  cases comparison <;> decide

end Comparison

/-- A condition on documents. -/
inductive Filter where
  /-- Every clause holds; without clauses, always. -/
  | all (clauses : List Filter)
  /-- Some clause holds; without clauses, never. -/
  | any (clauses : List Filter)
  /-- The clause does not hold. -/
  | not (clause : Filter)
  /-- A value is at the path, or none is. -/
  | present (field : String) (expected : Bool)
  /-- A value at the path compares so with the operand. -/
  | compare (field : String) (comparison : Comparison) (operand : Value)
  deriving Inhabited, Repr

namespace Filter

/-- The condition that every document meets. -/
def everything : Filter := .all []

/-- The condition that the document of an identifier meets. -/
def ofId (id : ObjectId) : Filter := .compare idField .equal (.objectId id)

/-- Both conditions; a conjunction takes the second as one more clause. -/
def and (filter other : Filter) : Filter :=
  match filter with
  | .all clauses => .all (clauses ++ [other])
  | _ => .all [filter, other]

/-- Either condition; a disjunction takes the second as one more clause. -/
def or (filter other : Filter) : Filter :=
  match filter with
  | .any clauses => .any (clauses ++ [other])
  | _ => .any [filter, other]

/-- A list of conditions as one: itself when it is single, else their conjunction. -/
def conjunction : List Filter → Filter
  | [filter] => filter
  | filters => .all filters

end Filter

end RestArchive
