import Mathlib.Tactic.SplitIfs
import RestArchive.Proofs.Success
import RestArchive.Update.Apply

/-! # One step changes one member

An update that starts with a step acts on a single member of its document: what becomes of that
member depends on it alone, and the other members stay (`along_cons`). What a step does to its
member is of three kinds. The update ends there, or goes into the document that the member holds
(`Document.entered`), or changes elements of the array that it holds (`Value.listed`). A member that
is missing is entered like an empty document and listed like an empty array, so both kinds need no
case for it. -/

namespace RestArchive

namespace Entries

variable {α : Type}

/-- Puts a value under a name, if there is one to put. -/
def insert? (entries : Entries α) (key : String) : Option α → Entries α
  | some value => entries.insert key value
  | none => entries

/-- The other members stay. -/
theorem get?_insert?_of_ne (entries : Entries α) {key other : String} (h : other ≠ key)
    (value? : Option α) : (entries.insert? key value?).get? other = entries.get? other := by
  cases value? with
  | none => rfl
  | some value => exact get?_insert_of_ne entries h value

/-- A member takes what is put, and stays when nothing is. -/
theorem get?_insert?_self (entries : Entries α) (key : String) (value? : Option α) :
    (entries.insert? key value?).get? key = value?.or (entries.get? key) := by
  cases value? with
  | none => rfl
  | some value => exact get?_insert_self entries key value

/-- Writing what is there changes nothing. -/
theorem insert?_get? (entries : Entries α) (key : String) :
    entries.insert? key (entries.get? key) = entries := by
  induction entries with
  | nil => rfl
  | cons entry rest ih =>
    obtain ⟨name, value⟩ := entry
    by_cases hname : name = key
    · simp [insert?, hname]
    · cases hvalue : get? rest key with
      | none => simp [insert?, hname, hvalue]
      | some _ =>
        rw [hvalue] at ih
        simpa [insert?, hname, hvalue] using ih

/-- Writing a value where it is already changes nothing. -/
theorem insert_of_get? {entries : Entries α} {key : String} {value : α}
    (h : entries.get? key = some value) : entries.insert key value = entries := by
  have hsame := insert?_get? entries key
  rwa [h] at hsame

/-- Of two writes to one member the second one counts. -/
theorem insert?_insert?_self (entries : Entries α) (key : String) {first second : Option α}
    (h : second = none → first = none) :
    (entries.insert? key first).insert? key second = entries.insert? key second := by
  cases second with
  | none => rw [h rfl]; rfl
  | some value =>
    cases first with
    | none => rfl
    | some old => exact insert_insert_self entries key old value

/-- The names after a write. -/
theorem names_insert? (entries : Entries α) (key : String) (value? : Option α) :
    (entries.insert? key value?).names =
      if value?.isNone ∨ key ∈ entries.names then entries.names else entries.names ++ [key] := by
  cases value? with
  | none => rfl
  | some value => simp [insert?, names_insert]

/-- Writes under different names give the same values in either order. -/
theorem get?_insert?_comm (entries : Entries α) {first second : String} (hne : first ≠ second)
    (a b : Option α) (name : String) :
    ((entries.insert? first a).insert? second b).get? name =
      ((entries.insert? second b).insert? first a).get? name := by
  by_cases hfirst : name = first
  · subst hfirst
    rw [get?_insert?_of_ne _ hne, get?_insert?_self, get?_insert?_self, get?_insert?_of_ne _ hne]
  · rw [get?_insert?_of_ne _ hfirst]
    by_cases hsecond : name = second
    · subst hsecond
      rw [get?_insert?_self, get?_insert?_self, get?_insert?_of_ne _ hfirst]
    · rw [get?_insert?_of_ne _ hsecond, get?_insert?_of_ne _ hsecond,
        get?_insert?_of_ne _ hfirst]

/-- Writes under different names give the same names in either order. -/
theorem names_insert?_comm (entries : Entries α) {first second : String} (hne : first ≠ second)
    (a b : Option α) :
    ((entries.insert? first a).insert? second b).names.Perm
      ((entries.insert? second b).insert? first a).names := by
  have hmem : ∀ {key other : String} (value? : Option α), key ≠ other →
      (key ∈ (entries.insert? other value?).names ↔ key ∈ entries.names) := by
    intro key other value? hkey
    rw [mem_names_iff, mem_names_iff, get?_insert?_of_ne _ hkey]
  rw [names_insert? (entries.insert? first a), names_insert? (entries.insert? second b)]
  simp only [hmem a hne.symm, hmem b hne]
  rw [names_insert? entries first, names_insert? entries second]
  -- At most two names are new, and both orders put them behind the others.
  split_ifs
  · exact .refl _
  · exact .refl _
  · exact .refl _
  · rw [List.append_assoc, List.append_assoc]
    exact (List.Perm.swap second first []).append_left _

end Entries

/-- The member that a step changes. -/
def Step.member : Step → String
  | .field name => name
  | .scoped scope => scope.field

namespace Terminal

/-- What becomes of the member that a path ends at. -/
def onLast (terminal : Terminal) (name : String) (member : Option Value) :
    Except StoreFailure (Option Value) :=
  match terminal, member with
  | .set new, _ => .ok (some new)
  | .push new, none => .ok (some (.array [new]))
  | .pull _, none => .ok none
  | terminal, some value => (terminal.onValue name value).map some

/-- What becomes of an element that is selected under a field. -/
def onElement (terminal : Terminal) (field : String) (rest : List Step) (item : Value) :
    Except StoreFailure Value :=
  match rest, item with
  | [], _ => terminal.onValue field item
  | _, .document members => (terminal.along members rest).map .document
  | _, _ => .ok item

/-- A path that goes on behind an element goes on in the document that the element is. -/
theorem onElement_document {terminal : Terminal} {field : String} {rest : List Step}
    (hrest : rest ≠ []) (members : Document) :
    terminal.onElement field rest (.document members) =
      (terminal.along members rest).map .document := by
  cases rest with
  | nil => exact absurd rfl hrest
  | cons step others => rfl

/-- What becomes of the member that a step changes, when `rest` follows the step. -/
def onMember (terminal : Terminal) (rest : List Step) :
    Step → Option Value → Except StoreFailure (Option Value)
  | .field name, member =>
    match rest, member with
    | [], _ => terminal.onLast name member
    | _, none =>
      if terminal.createsMissing then (terminal.along [] rest).map fun inner => some (.document inner)
      else .ok none
    | _, some (.document members) =>
      (terminal.along members rest).map fun inner => some (.document inner)
    | _, some other => .error (.invalid (.notADocument name other))
  | .scoped _, none => .ok none
  | .scoped scope, some (.array items) =>
    (onElements scope.id (terminal.onElement scope.field rest) items).map fun changed =>
      some (.array changed)
  | .scoped scope, some _ => .error (.invalid (.notSelectable scope.field))

/-- An update that ends at its first step changes the member there, and no other. -/
theorem onField_eq (terminal : Terminal) (document : Document) (name : String) :
    terminal.onField document name =
      (terminal.onLast name (document.get? name)).map (document.insert? name) := by
  have hmap : ∀ result : Except StoreFailure Value,
      result.map (document.insert name) = (result.map some).map (document.insert? name) := by
    intro result
    cases result <;> rfl
  cases terminal <;> cases h : document.get? name <;>
    simp only [onField, onLast, h, hmap] <;> rfl

/-- An update changes the member of its first step, as `onMember` says, and no other. -/
theorem along_cons (terminal : Terminal) (document : Document) (step : Step) (rest : List Step) :
    terminal.along document (step :: rest) =
      (terminal.onMember rest step (document.get? step.member)).map
        (document.insert? step.member) := by
  -- Writing the wrapped result is wrapping it and writing that.
  have hmap : ∀ {α : Type} (result : Except StoreFailure α) (name : String) (wrap : α → Value),
      result.map (fun inner => document.insert name (wrap inner)) =
        (result.map fun inner => some (wrap inner)).map (document.insert? name) := by
    intro α result name wrap
    cases result <;> rfl
  cases step with
  | field name =>
    cases rest with
    | nil => exact onField_eq terminal document name
    | cons next others =>
      cases h : document.get? name with
      | none =>
        by_cases hcreates : terminal.createsMissing <;>
          simp only [along, onMember, Step.member, h, hcreates, hmap] <;> rfl
      | some member =>
        cases member <;> simp only [along, onMember, Step.member, h, hmap] <;> rfl
  | «scoped» scope =>
    cases h : document.get? scope.field with
    | none => simp only [along, onMember, Step.member, h]; rfl
    | some member =>
      cases member with
      | array items =>
        simp only [along, onMember, Step.member, h]
        exact hmap _ scope.field .array
      | _ => simp only [along, onMember, Step.member, h]; rfl

/-- A member that is there is not lost. -/
theorem eq_none_of_onMember {terminal : Terminal} {rest : List Step} {step : Step}
    {member : Option Value} (h : terminal.onMember rest step member = .ok none) : member = none := by
  cases member with
  | none => rfl
  | some value =>
    exfalso
    cases step with
    | field name =>
      cases rest with
      | nil => cases terminal <;> simp [onMember, onLast] at h
      | cons next others => cases value <;> simp [onMember] at h
    | «scoped» scope => cases value <;> simp [onMember] at h

/-- An update that succeeds gives the member of its first step what `onMember` says, and leaves the
other members as they are. -/
theorem along_cons_ok {terminal : Terminal} {document changed : Document} {step : Step}
    {rest : List Step} (h : terminal.along document (step :: rest) = .ok changed) :
    ∃ result, terminal.onMember rest step (document.get? step.member) = .ok result ∧
      changed = document.insert? step.member result ∧ changed.get? step.member = result := by
  rw [along_cons, map_eq_ok_iff] at h
  obtain ⟨result, hresult, rfl⟩ := h
  refine ⟨result, hresult, rfl, ?_⟩
  rw [Entries.get?_insert?_self]
  cases result with
  | none => exact eq_none_of_onMember hresult
  | some value => rfl

/-! ## Going into documents and arrays -/

/-- The document that a path by name goes on in: the one that is there, or a new one. -/
def entered : Option Value → Option Document
  | none => some []
  | some (.document members) => some members
  | some _ => none

/-- The elements that a scope selects from; there are none when nothing is there. -/
def listed : Option Value → Option (List Value)
  | none => some []
  | some (.array items) => some items
  | some _ => none

/-- A member that is there and goes for a document is one. -/
theorem eq_document_of_entered {value : Value} {members : Document}
    (h : entered (some value) = some members) : value = .document members := by
  cases value <;> simp [entered] at h
  rw [h]

/-- A member that is there and goes for an array is one. -/
theorem eq_array_of_listed {value : Value} {items : List Value}
    (h : listed (some value) = some items) : value = .array items := by
  cases value <;> simp [listed] at h
  rw [h]

/-- Only what is missing counts as a document and as an array. -/
theorem eq_none_of_entered_of_listed {member : Option Value} {members : Document}
    {items : List Value} (hentered : entered member = some members)
    (hlisted : listed member = some items) : member = none := by
  cases member with
  | none => rfl
  | some value => cases value <;> simp [entered, listed] at hentered hlisted

/-- What makes nothing that is missing leaves a missing member missing. -/
theorem onMember_none_of_not_creates {terminal : Terminal} (h : terminal.createsMissing = false)
    (rest : List Step) (step : Step) : terminal.onMember rest step none = .ok none := by
  cases step with
  | field name =>
    cases rest with
    | nil => cases terminal <;> first | rfl | cases h
    | cons next others => simp [onMember, h]
  | «scoped» scope => rfl

/-- What makes nothing that is missing leaves an empty document empty. -/
theorem along_nil_of_not_creates {terminal : Terminal} (h : terminal.createsMissing = false)
    (steps : List Step) : terminal.along [] steps = .ok [] := by
  cases steps with
  | nil => rfl
  | cons step rest =>
    rw [along_cons, Entries.get?_nil, onMember_none_of_not_creates h]
    rfl

/-- A path that goes on behind a name goes on in the document of that name. -/
theorem onMember_field {terminal : Terminal} {name : String} {rest : List Step}
    {member result : Option Value} (hrest : rest ≠ [])
    (h : terminal.onMember rest (.field name) member = .ok result) :
    ∃ members inner, entered member = some members ∧ terminal.along members rest = .ok inner ∧
      entered result = some inner := by
  cases rest with
  | nil => exact absurd rfl hrest
  | cons next others =>
    cases member with
    | none =>
      by_cases hcreates : terminal.createsMissing
      · simp only [onMember, hcreates, if_true, map_eq_ok_iff] at h
        obtain ⟨inner, hinner, rfl⟩ := h
        exact ⟨[], inner, rfl, hinner, rfl⟩
      · rw [Bool.not_eq_true] at hcreates
        simp only [onMember, hcreates, Bool.false_eq_true, if_false, Except.ok.injEq] at h
        subst h
        exact ⟨[], [], rfl, along_nil_of_not_creates hcreates _, rfl⟩
    | some value =>
      cases value with
      | document members =>
        simp only [onMember, map_eq_ok_iff] at h
        obtain ⟨inner, hinner, rfl⟩ := h
        exact ⟨members, inner, rfl, hinner, rfl⟩
      | _ => simp [onMember] at h

/-- A scope changes elements of the array of its field. -/
theorem onMember_scoped {terminal : Terminal} {scope : Scope} {rest : List Step}
    {member result : Option Value} (h : terminal.onMember rest (.scoped scope) member = .ok result) :
    ∃ items changed, listed member = some items ∧
      onElements scope.id (terminal.onElement scope.field rest) items = .ok changed ∧
      listed result = some changed := by
  cases member with
  | none =>
    simp only [onMember, Except.ok.injEq] at h
    subst h
    exact ⟨[], [], rfl, rfl, rfl⟩
  | some value =>
    cases value with
    | array items =>
      simp only [onMember, map_eq_ok_iff] at h
      obtain ⟨changed, hchanged, rfl⟩ := h
      exact ⟨items, changed, rfl, hchanged, rfl⟩
    | _ => simp [onMember] at h

/-- A removal takes elements out of the array that it ends at. -/
theorem onMember_pull {id : ObjectId} {name : String} {member result : Option Value}
    (h : (Terminal.pull id).onMember [] (.field name) member = .ok result) :
    ∃ items, listed member = some items ∧
      listed result = some (items.filter fun item => !id.namesElement item) := by
  cases member with
  | none =>
    simp only [onMember, onLast, Except.ok.injEq] at h
    subst h
    exact ⟨[], rfl, rfl⟩
  | some value =>
    cases value with
    | array items =>
      simp only [onMember, onLast, onValue, map_eq_ok_iff, Except.ok.injEq] at h
      obtain ⟨inner, rfl, rfl⟩ := h
      exact ⟨items, rfl, rfl⟩
    | _ => simp [onMember, onLast, onValue] at h

/-! ## Members that hold neither -/

/-- A member that holds neither a document nor an array survives every update but the one that puts
a value right there. -/
theorem get?_along_of_plain {terminal : Terminal} {document changed : Document}
    {steps : List Step} {name : String} {value : Value}
    (h : terminal.along document steps = .ok changed) (hmember : document.get? name = some value)
    (hentered : entered (some value) = none) (hlisted : listed (some value) = none)
    (hset : ∀ new, terminal = .set new → steps ≠ [.field name]) :
    changed.get? name = some value := by
  cases steps with
  | nil =>
    cases h
    exact hmember
  | cons step rest =>
    obtain ⟨result, hresult, rfl, -⟩ := along_cons_ok h
    by_cases hname : name = step.member
    · -- The step would have to end at the member, go into it or select from it.
      exfalso
      subst hname
      rw [hmember] at hresult
      cases step with
      | field name =>
        by_cases hrest : rest = []
        · subst hrest
          cases terminal with
          | set new => exact hset new rfl rfl
          | push new => cases value <;> simp [onMember, onLast, onValue, listed] at hresult hlisted
          | pull id =>
            obtain ⟨items, hitems, -⟩ := onMember_pull hresult
            rw [hlisted] at hitems
            cases hitems
        · obtain ⟨members, inner, hmembers, -⟩ := onMember_field hrest hresult
          rw [hentered] at hmembers
          cases hmembers
      | «scoped» scope =>
        obtain ⟨items, changed, hitems, -⟩ := onMember_scoped hresult
        rw [hlisted] at hitems
        cases hitems
    · rw [Entries.get?_insert?_of_ne _ hname]
      exact hmember

end Terminal

/-- A value that is put at a path is put along the steps of the path. -/
theorem Document.atPath_of_setAt {scopes : List Scope} {document changed : Document} {path : String}
    {value : Value} (h : document.setAt scopes path value = .ok changed) :
    (Terminal.set value).atPath scopes document path = .ok changed := by
  rw [setAt] at h
  split at h
  · split at h
    · exact h
    · cases h
  · exact h

end RestArchive
