import RestArchive.Store

/-! # Validation rules

Validators from rules. Rules are checked in order: some report the fields that are wrong and go on, others
fail at once. The fields reported make one failed validation at the end. -/

namespace RestArchive

/-- A rule that documents must meet. -/
inductive Rule where
  /-- The field must be there. -/
  | require (field : String)
  /-- Every element of the array under `array`, if there is one, must be a document with the field. -/
  | requireInElements (array field : String)
  /-- The field, if it is there, must hold a number. -/
  | number (field : String)
  /-- The field must not be there; this failure says why. -/
  | forbid (field : String) (failure : StoreFailure)

namespace Rule

/-- The error for a field that is not there. -/
def missing (field : String) : String × FieldError :=
  (field, .leaf ("Path `" ++ field ++ "` is required."))

/-- Whether a value is a document with a field. -/
def hasField (field : String) : Value → Bool
  | .document members => Entries.contains members field
  | _ => false

/-- The fields that break a rule, or a failure at once. -/
def check (document : Document) : Rule → Except StoreFailure Validation
  | .require field => .ok (if document.contains field then [] else [missing field])
  | .requireInElements array field =>
    match document.get? array with
    | some (.array items) =>
      let faults := (items.filter fun item => !hasField field item).map fun _ => missing field
      .ok (if faults.isEmpty then [] else [(array, .group "Validation failed" faults)])
    | _ => .ok []
  | .number field =>
    match document.get? field with
    | some value =>
      if value.isNumber then .ok []
      else .error (.cast field (.described
        ("Cast to Number failed for value " ++ value.text ++ " at path \"" ++ field ++ "\"")))
    | none => .ok []
  | .forbid field failure => if document.contains field then .error failure else .ok []

/-- The fields that break some rule, in order, or the first failure at once. -/
def checkAll (document : Document) : List Rule → Except StoreFailure Validation
  | [] => .ok []
  | rule :: rules => do
    let first ← rule.check document
    let others ← checkAll document rules
    return first ++ others

end Rule

/-- The validator that checks rules, the same in every collection. -/
def Validator.ofRules (rules : List Rule) : Validator := fun _ document =>
  match Rule.checkAll document rules with
  | .error failure => .error failure
  | .ok [] => .ok ()
  | .ok faults => .error (.validation faults)

end RestArchive
