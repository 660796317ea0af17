import RestArchive.Filter
import RestArchive.Json
import RestArchive.Projection

/-! # Actions

What a request asks for, apart from where: the five methods with what their parameters and bodies say. -/

namespace RestArchive

/-- The methods of requests. -/
inductive Verb where
  /-- Reads. -/
  | get
  /-- Adds. -/
  | post
  /-- Replaces. -/
  | put
  /-- Merges. -/
  | patch
  /-- Removes. -/
  | delete
  deriving DecidableEq, Repr

namespace Verb

/-- The name of a method. -/
def text : Verb → String
  | .get => "GET"
  | .post => "POST"
  | .put => "PUT"
  | .patch => "PATCH"
  | .delete => "DELETE"

/-- Every method. -/
def all : List Verb := [.get, .post, .put, .patch, .delete]

/-- The method of a name, in uppercase letters only. -/
def ofText? (text : String) : Option Verb := all.find? fun verb => verb.text = text

@[simp] theorem ofText?_text (verb : Verb) : ofText? verb.text = some verb := by
  cases verb <;> decide

end Verb

/-- What a request asks for. -/
inductive Action where
  /-- To see what is there. -/
  | read (filter : Option Filter) (projection : Option Projection) (single : Bool)
  /-- To add a value. -/
  | append (body : Json)
  /-- To put a value in the place of another. -/
  | replace (body : Json) (filter : Option Filter)
  /-- To change parts of a value. -/
  | merge (body : Json) (filter : Option Filter) (single : Bool)
  /-- To remove a value. -/
  | remove (filter : Option Filter)
  deriving Repr

namespace Action

/-- The method that asks for an action. -/
def verb : Action → Verb
  | .read _ _ _ => .get
  | .append _ => .post
  | .replace _ _ => .put
  | .merge _ _ _ => .patch
  | .remove _ => .delete

/-- Whether the last segment of the address is left out of the scoped path: it names what to remove. -/
def omitsLast : Action → Bool
  | .remove _ => true
  | _ => false

/-- Whether the action adds or changes something, rather than look it up to show or remove it. -/
def isWrite : Action → Bool
  | .read _ _ _ => false
  | .remove _ => false
  | _ => true

end Action

end RestArchive
