import RestArchive.Filter
import RestArchive.RequestError
import RestArchive.Value.OfJson

/-! # Reading filters

A filter is written as a JSON object. Its members are logical operators with lists of filters, or fields
with conditions; a condition is an object of operators, or the value that the field equals. A text that
writes an identifier is compared as one under a path that ends in `_id`. -/

namespace RestArchive

/-- Whether a name is that of an operator. -/
def isOperatorName (name : String) : Bool := name.toList.head? = some '$'

/-- Whether the members of an object are operators: there are some, and each name is an operator's. -/
def areOperators (members : List (String × Json)) : Bool :=
  !members.isEmpty && members.all fun member => isOperatorName member.1

/-- Whether a path leads to an identifier field. -/
def isIdPath (field : String) : Bool :=
  field = idField || (('.' :: idField.toList).isSuffixOf field.toList)

namespace Filter

/-- The error for a filter that is not built as filters are. -/
def malformed : RequestError := .malformedParameter "query"

mutual

/-- An operand under an identifier path: texts that write identifiers are cast, in lists too. -/
def idOperand : Json → Value
  | .string text =>
    match ObjectId.ofHex? text with
    | some id => .objectId id
    | none => .string text
  | .array items => .array (idOperands items)
  | other => Value.ofJson other
termination_by structural value => value

/-- The items of a list operand under an identifier path. -/
def idOperands : List Json → List Value
  | [] => []
  | item :: items => idOperand item :: idOperands items
termination_by structural items => items

end

/-- The operand of a comparison of a field. -/
def operand (field : String) (value : Json) : Value :=
  if isIdPath field then idOperand value else Value.ofJson value

/-- The comparison of a field by an operator. -/
def comparisonOf (field operator : String) (value : Json) : Except RequestError Filter :=
  match Comparison.ofOperator? operator with
  | none => .error (.unsupportedOperator operator)
  | some comparison =>
    match comparison.takesList, value with
    | false, _ => .ok (.compare field comparison (operand field value))
    | true, .array _ => .ok (.compare field comparison (operand field value))
    | true, _ => .error malformed

mutual

/-- The filters that the operators of a condition write. -/
def operatorsOf (field : String) : List (String × Json) → Except RequestError (List Filter)
  | [] => .ok []
  | (operator, value) :: members => do
    let first ←
      if operator = "$exists" then .ok (.present field value.isTruthy)
      else if operator = "$not" then negationOf field value
      else comparisonOf field operator value
    let others ← operatorsOf field members
    return first :: others
termination_by structural members => members

/-- The negation of a condition, which must be an object of operators. -/
def negationOf (field : String) : Json → Except RequestError Filter
  | .object members =>
    if areOperators members then
      (operatorsOf field members).map fun filters => .not (conjunction filters)
    else .error malformed
  | _ => .error malformed
termination_by structural value => value

end

/-- The filters that the condition of a field writes: one for each operator, or an equality. -/
def conditionOf (field : String) : Json → Except RequestError (List Filter)
  | .object members =>
    if areOperators members then operatorsOf field members
    else .ok [.compare field .equal (operand field (.object members))]
  | value => .ok [.compare field .equal (operand field value)]

mutual

/-- The filter that a JSON value writes. -/
def ofJson : Json → Except RequestError Filter
  | .object members => (membersToFilters members).map conjunction
  | _ => .error malformed
termination_by structural value => value

/-- The filters that a list of clauses writes. -/
def clausesOfJson : Json → Except RequestError (List Filter)
  | .array clauses => itemsToFilters clauses
  | _ => .error malformed
termination_by structural value => value

/-- The filters that the items of a list write. -/
def itemsToFilters : List Json → Except RequestError (List Filter)
  | [] => .ok []
  | item :: items => do
    let first ← ofJson item
    let others ← itemsToFilters items
    return first :: others
termination_by structural items => items

/-- The filters that the members of an object write. -/
def membersToFilters : List (String × Json) → Except RequestError (List Filter)
  | [] => .ok []
  | (name, value) :: members => do
    let first ←
      if name = "$and" then (clausesOfJson value).map fun clauses => [.all clauses]
      else if name = "$or" then (clausesOfJson value).map fun clauses => [.any clauses]
      else if name = "$nor" then (clausesOfJson value).map fun clauses => [.not (.any clauses)]
      else if isOperatorName name then .error (.unsupportedOperator name)
      else conditionOf name value
    let others ← membersToFilters members
    return first ++ others
termination_by structural members => members

end

end Filter

end RestArchive
