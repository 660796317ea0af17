import RestArchive.Proofs.Elements
import RestArchive.Proofs.StampedElements

/-! # Updates and the identifiers of elements

A document is addressable if every document that is an element of an array inside it has an
identifier (`Document.Addressable`). An update leaves it so if what it brings is addressable too,
and if it puts nothing over an element but a document with an identifier, and nothing over the
identifier of an element but an identifier (`Terminal.Spares`). -/

namespace RestArchive

open Value (asElement_document_iff elements_array_iff elements_document_iff)

/-! ## Documents with a member changed -/

namespace Document

/-- Whether documents that are elements of arrays, at any depth inside a document, have
identifiers. -/
def Addressable (document : Document) : Prop :=
  ∀ entry ∈ document, entry.2.Elements Identified

namespace Addressable

variable {document : Document}

/-- Nothing is in the empty document. -/
theorem nil : Addressable [] := fun _ hnone => absurd hnone List.not_mem_nil

/-- A member that is put keeps a document addressable if what is inside the member has
identifiers. -/
theorem insert (h : document.Addressable) (key : String) {value : Value}
    (hvalue : value.Elements Identified) : Addressable (Entries.insert document key value) :=
  Entries.forall_mem_insert h hvalue

/-- What is inside a member of an addressable document has identifiers. -/
theorem elements_of_get? (h : document.Addressable) {key : String} {value : Value}
    (hvalue : document.get? key = some value) : value.Elements Identified :=
  h (key, value) (Entries.mem_of_get? hvalue)

/-- A document that takes the identifier of another one stays addressable. -/
theorem withIdOf {kept : Document} (h : document.Addressable) (hkept : kept.Addressable) :
    (document.withIdOf kept).Addressable := by
  rw [Document.withIdOf]
  split
  case h_1 id hid => exact h.insert idField (hkept.elements_of_get? hid)
  case h_2 => exact fun entry hentry => h entry (List.mem_filter.mp hentry).1

end Addressable

end Document

/-! ## Updates that spare the identifiers of elements -/

namespace Terminal

/-- Whether what is put, added or removed brings no document without an identifier into an array. -/
def Addressable : Terminal → Prop
  | .set value => value.Elements Document.Identified
  | .push value => value.AsElement Document.Identified
  | .pull _ => True

/-- Whether the identifiers of elements are spared along steps: what is put in the place of an
element has an identifier if it is a document, and what is put in the place of an identifier is
one. -/
def Spares (terminal : Terminal) (steps : List Step) : Prop :=
  ∀ value, terminal = .set value →
    ∀ before scope behind, steps = before ++ .scoped scope :: behind →
    (behind = [] → ∀ members, value = .document members → Document.Identified members) ∧
      (behind = [.field idField] → ∃ id, value = .objectId id)

variable {terminal : Terminal}

/-- Identifiers that are spared along steps are spared behind the first one. -/
theorem Spares.tail {step : Step} {rest : List Step} (h : terminal.Spares (step :: rest)) :
    terminal.Spares rest := by
  intro value hvalue before scope behind hrest
  exact h value hvalue (step :: before) scope behind (by rw [hrest, List.cons_append])

/-- What takes the place of a value that is there has identifiers inside it. -/
theorem elements_of_onValue {field : String} {value changed : Value}
    (hterminal : terminal.Addressable) (hvalue : value.Elements Document.Identified)
    (h : terminal.onValue field value = .ok changed) : changed.Elements Document.Identified := by
  cases terminal with
  | set new =>
    cases h
    exact hterminal
  | push new =>
    cases value <;> cases h
    refine elements_array_iff.mpr fun item hitem => ?_
    rcases List.mem_append.mp hitem with hold | hnew
    · exact elements_array_iff.mp hvalue item hold
    · rw [List.mem_singleton.mp hnew]
      exact hterminal
  | pull id =>
    cases value <;> cases h
    exact elements_array_iff.mpr fun item hitem =>
      elements_array_iff.mp hvalue item (List.mem_filter.mp hitem).1

/-- What becomes of the member that a path ends at has identifiers inside it. -/
theorem elements_of_onLast {name : String} {member : Option Value} {changed : Value}
    (hterminal : terminal.Addressable)
    (hmember : ∀ value, member = some value → value.Elements Document.Identified)
    (h : terminal.onLast name member = .ok (some changed)) :
    changed.Elements Document.Identified := by
  cases member with
  | some value =>
    have hvalue := hmember value rfl
    cases terminal with
    | set new =>
      cases h
      exact hterminal
    | push new =>
      obtain ⟨result, hresult, heq⟩ := map_eq_ok_iff.mp h
      cases heq
      exact elements_of_onValue hterminal hvalue hresult
    | pull id =>
      obtain ⟨result, hresult, heq⟩ := map_eq_ok_iff.mp h
      cases heq
      exact elements_of_onValue hterminal hvalue hresult
  | none =>
    cases terminal with
    | set new =>
      cases h
      exact hterminal
    | push new =>
      cases h
      refine elements_array_iff.mpr fun item hitem => ?_
      rw [List.mem_singleton.mp hitem]
      exact hterminal
    | pull id => cases h

/-- Elements of which each is changed as it should be, or kept, are as they should be. -/
theorem forall_of_onElements {id : ObjectId} {change : Value → Except StoreFailure Value}
    {Holds : Value → Prop} {items changed : List Value} (hitems : ∀ item ∈ items, Holds item)
    (hchange : ∀ item result, Holds item → id.namesElement item → change item = .ok result →
      Holds result)
    (h : onElements id change items = .ok changed) : ∀ item ∈ changed, Holds item := by
  induction items generalizing changed with
  | nil =>
    cases h
    exact hitems
  | cons item items ih =>
    obtain ⟨hitem, hothers⟩ := List.forall_mem_cons.mp hitems
    rw [onElements] at h
    split at h
    case isTrue hnames =>
      simp only [block_eq_ok_iff, pure_eq_ok_iff] at h
      obtain ⟨first, hfirst, others, hrest, rfl⟩ := h
      exact List.forall_mem_cons.mpr ⟨hchange item first hitem hnames hfirst, ih hothers hrest⟩
    case isFalse =>
      simp only [block_eq_ok_iff, pure_eq_ok_iff] at h
      obtain ⟨first, hfirst, others, hrest, rfl⟩ := h
      cases hfirst
      exact List.forall_mem_cons.mpr ⟨hitem, ih hothers hrest⟩

/-- An element that is changed keeps an identifier, and so do those inside it. -/
theorem asElement_of_onElement {field : String} {scope : Scope} {rest : List Step}
    {members : Document} {changed : Value} (hterminal : terminal.Addressable)
    (hspares : terminal.Spares (.scoped scope :: rest))
    (hmembers : (Value.document members).AsElement Document.Identified)
    (halong : ∀ inner, terminal.along members rest = .ok inner → inner.Addressable)
    (h : terminal.onElement field rest (.document members) = .ok changed) :
    changed.AsElement Document.Identified := by
  obtain ⟨⟨id, hid⟩, -⟩ := asElement_document_iff.mp hmembers
  by_cases hrest : rest = []
  · -- The element itself is replaced; nothing can be added to it or removed from it.
    subst hrest
    cases terminal with
    | set new =>
      cases h
      exact ⟨(hspares _ rfl [] scope [] rfl).1 rfl, hterminal⟩
    | push new => cases h
    | pull id => cases h
  · rw [onElement_document hrest] at h
    obtain ⟨inner, hinner, rfl⟩ := map_eq_ok_iff.mp h
    refine asElement_document_iff.mpr ⟨?_, halong inner hinner⟩
    by_cases hset : ∃ new, terminal = .set new ∧ rest = [.field idField]
    · -- What is put over the identifier is an identifier.
      obtain ⟨new, rfl, rfl⟩ := hset
      obtain ⟨other, rfl⟩ := (hspares new rfl [] scope _ rfl).2 rfl
      cases hinner
      exact ⟨other, Document.HasId.insert members other⟩
    · have hkeeps : ∀ new, terminal = .set new → rest ≠ [.field idField] :=
        fun new hnew hlast => hset ⟨new, hnew, hlast⟩
      exact ⟨id, hid.along hkeeps hinner⟩

/-- A member that goes for a document is an addressable one, if what is inside it has
identifiers. -/
theorem addressable_of_entered {member : Option Value} {members : Document}
    (hmember : ∀ value, member = some value → value.Elements Document.Identified)
    (h : entered member = some members) : Document.Addressable members := by
  cases member with
  | none =>
    cases h
    exact Document.Addressable.nil
  | some value =>
    have hinside := hmember value rfl
    rw [eq_document_of_entered h] at hinside
    exact elements_document_iff.mp hinside

/-- The items of a member that goes for an array may be elements, if what is inside the member has
identifiers. -/
theorem asElement_of_listed {member : Option Value} {items : List Value}
    (hmember : ∀ value, member = some value → value.Elements Document.Identified)
    (h : listed member = some items) : ∀ item ∈ items, item.AsElement Document.Identified := by
  cases member with
  | none =>
    cases h
    exact fun _ hnone => absurd hnone List.not_mem_nil
  | some value =>
    have hinside := hmember value rfl
    rw [eq_array_of_listed h] at hinside
    exact elements_array_iff.mp hinside

/-- An update along steps that spares the identifiers of elements leaves an addressable document
addressable. -/
theorem addressable_along {document changed : Document} {steps : List Step}
    (hterminal : terminal.Addressable) (hdocument : document.Addressable)
    (hspares : terminal.Spares steps) (h : terminal.along document steps = .ok changed) :
    changed.Addressable := by
  induction steps generalizing document changed with
  | nil =>
    cases h
    exact hdocument
  | cons step rest ih =>
    obtain ⟨result, hresult, rfl, -⟩ := along_cons_ok h
    cases result with
    | none => exact hdocument
    | some value =>
      -- Only the member of the first step changes, so it is enough to look inside what it becomes.
      refine hdocument.insert step.member ?_
      have hmember : ∀ old, document.get? step.member = some old →
          old.Elements Document.Identified := fun old => hdocument.elements_of_get?
      cases step with
      | field name =>
        by_cases hrest : rest = []
        · subst hrest
          exact elements_of_onLast hterminal hmember hresult
        · obtain ⟨members, inner, hentered, hinner, hvalue⟩ := onMember_field hrest hresult
          have hmembers := addressable_of_entered hmember hentered
          rw [eq_document_of_entered hvalue]
          exact elements_document_iff.mpr (ih hmembers hspares.tail hinner)
      | «scoped» scope =>
        obtain ⟨items, changed, hlisted, helements, hvalue⟩ := onMember_scoped hresult
        have hitems := asElement_of_listed hmember hlisted
        rw [eq_array_of_listed hvalue]
        refine elements_array_iff.mpr (forall_of_onElements hitems ?_ helements)
        intro item result hitem hnames hchange
        obtain ⟨members, rfl⟩ := ObjectId.exists_document_of_namesElement hnames
        refine asElement_of_onElement hterminal hspares hitem ?_ hchange
        exact fun inner => ih (asElement_document_iff.mp hitem).2 hspares.tail

/-- An update at a path that spares the identifiers of elements leaves an addressable document
addressable. -/
theorem addressable_atPath {scopes : List Scope} {document changed : Document} {path : String}
    (hterminal : terminal.Addressable) (hdocument : document.Addressable)
    (hspares : ∀ steps, Step.parse scopes path = .ok steps → terminal.Spares steps)
    (h : terminal.atPath scopes document path = .ok changed) : changed.Addressable := by
  obtain ⟨steps, hsteps, halong⟩ := bind_eq_ok_iff.mp h
  exact addressable_along hterminal hdocument (hspares steps hsteps) halong

end Terminal

/-! ## Values put at paths -/

namespace Document

/-- Whether values that are put at their paths spare the identifiers of elements. -/
def Spares (scopes : List Scope) (values : Document) : Prop :=
  ∀ entry ∈ values, ∀ steps, Step.parse scopes entry.1 = .ok steps →
    (Terminal.set entry.2).Spares steps

/-- Values put at their paths leave an addressable document addressable, if they are addressable and
spare the identifiers of elements. -/
theorem Addressable.setAll {scopes : List Scope} {document changed values : Document}
    (hdocument : document.Addressable) (hvalues : values.Addressable)
    (hspares : Spares scopes values) (h : document.setAll scopes values = .ok changed) :
    changed.Addressable := by
  induction values generalizing document with
  | nil =>
    cases h
    exact hdocument
  | cons entry values ih =>
    obtain ⟨path, value⟩ := entry
    obtain ⟨hvalue, hothers⟩ := List.forall_mem_cons.mp hvalues
    obtain ⟨hspare, hspareOthers⟩ := List.forall_mem_cons.mp hspares
    obtain ⟨inner, hinner, hchanged⟩ := bind_eq_ok_iff.mp h
    have hterminal : (Terminal.set value).Addressable := hvalue
    have hset : inner.Addressable :=
      Terminal.addressable_atPath hterminal hdocument hspare (atPath_of_setAt hinner)
    exact ih hset hothers hspareOthers hchanged

end Document

namespace Update

/-- Whether an update brings no document without an identifier into an array. -/
def Addressable (update : Update) : Prop :=
  match update.change with
  | .set values => values.Addressable ∧ Document.Spares update.scopes values
  | .push _ value => value.AsElement Document.Identified
  | .pull _ _ => True

/-- Such an update leaves an addressable document addressable. -/
theorem Addressable.apply {update : Update} {document changed : Document}
    (hupdate : update.Addressable) (hdocument : document.Addressable)
    (h : update.apply document = .ok changed) : changed.Addressable := by
  obtain ⟨change, scopes⟩ := update
  cases change with
  | set values => exact hdocument.setAll hupdate.1 hupdate.2 h
  | push path value =>
    have hterminal : (Terminal.push value).Addressable := hupdate
    refine Terminal.addressable_atPath hterminal hdocument ?_ h
    intro steps _ new hnew
    cases hnew
  | pull path id =>
    have hterminal : (Terminal.pull id).Addressable := trivial
    refine Terminal.addressable_atPath hterminal hdocument ?_ h
    intro steps _ new hnew
    cases hnew

end Update

end RestArchive
