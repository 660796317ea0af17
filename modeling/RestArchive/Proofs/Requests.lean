import RestArchive.Proofs.Success
import RestArchive.Service

/-! # What a request comes to

A request is read as an action, its path as an address, and both together become one access to the
store (`Request.plan`); what is answered depends on the outcome of that access alone
(`handle_of_plan_ok`). `Action.Becomes` lists which access an action at an address can become: whole
collections, documents and places inside documents, for each of the five methods. -/

namespace RestArchive

namespace Address

/-- Whether an address leads to the document of an identifier, or into it. -/
def LeadsTo (address : Address) (id : ObjectId) : Prop :=
  ∃ text, address.root = some text ∧ ObjectId.ofHex? text = some id

variable {address : Address} {id : ObjectId}

/-- An address leads to one document. -/
theorem LeadsTo.eq {other : ObjectId} (h : address.LeadsTo id) (hother : address.LeadsTo other) :
    id = other := by
  obtain ⟨text, hroot, hid⟩ := h
  obtain ⟨text', hroot', hid'⟩ := hother
  cases hroot.symm.trans hroot'
  exact Option.some.inj (hid.symm.trans hid')

/-- The address of a document, or of a place inside one, names the document. -/
theorem LeadsTo.root_ne_none (h : address.LeadsTo id) : address.root ≠ none := by
  obtain ⟨text, hroot, -⟩ := h
  simp [hroot]

/-- The address of a document, or of a place inside one, is not the whole collection. -/
theorem LeadsTo.isCollection_eq (h : address.LeadsTo id) : address.isCollection = false := by
  obtain ⟨text, hroot, -⟩ := h
  rw [isCollection, hroot]
  rfl

end Address

namespace Action

/-- Which access an action at an address becomes. -/
inductive Becomes (address : Address) : Action → Access → Prop
  /-- A collection is read. -/
  | query {filter : Option Filter} {projection : Option Projection} {single : Bool}
      (whole : address.root = none) :
      Becomes address (.read filter projection single) (.query filter projection single)
  /-- A document is added to a collection. -/
  | create {body : Json} {document : Document} (whole : address.root = none)
      (read : documentOf body = .ok document) : Becomes address (.append body) (.create document)
  /-- The first document of a collection that meets a filter is replaced. -/
  | replaceFirst {body : Json} {filter : Filter} {document : Document}
      (whole : address.root = none) (read : documentOf body = .ok document) :
      Becomes address (.replace body (some filter)) (.replaceFirst filter document)
  /-- Values are put into documents of a collection. -/
  | merge {body : Json} {filter : Option Filter} {single : Bool} {document : Document}
      (whole : address.root = none) (read : documentOf body = .ok document) :
      Becomes address (.merge body filter single)
        (.merge (filter.getD .everything) document single)
  /-- The documents of a collection that meet a filter are removed. -/
  | deleteMatching {filter : Filter} (whole : address.root = none) :
      Becomes address (.remove (some filter)) (.deleteMatching filter)
  /-- A document is read. -/
  | fetch {filter : Option Filter} {projection : Option Projection} {single : Bool} {id : ObjectId}
      (leads : address.LeadsTo id) (bare : address.isNested = false) :
      Becomes address (.read filter projection single) (.fetch id projection [])
  /-- A document is put in the place of another, or added. -/
  | replace {body : Json} {filter : Option Filter} {document : Document} {id : ObjectId}
      (leads : address.LeadsTo id) (bare : address.isNested = false)
      (read : documentOf body = .ok document) :
      Becomes address (.replace body filter)
        (.replace id (document.insert idField (.objectId id)) true)
  /-- Values are put into a document. -/
  | mergeInto {body : Json} {filter : Option Filter} {single : Bool} {document : Document}
      {id : ObjectId} (leads : address.LeadsTo id) (bare : address.isNested = false)
      (read : documentOf body = .ok document) :
      Becomes address (.merge body filter single) (.set id "" (.document document) [])
  /-- A document is removed. -/
  | delete {filter : Option Filter} {id : ObjectId} (leads : address.LeadsTo id)
      (bare : address.isNested = false) : Becomes address (.remove filter) (.delete id)
  /-- A place inside a document is read. -/
  | fetchInside {filter : Option Filter} {projection : Option Projection} {single : Bool}
      {id : ObjectId} (leads : address.LeadsTo id) (nested : address.isNested) :
      Becomes address (.read filter projection single) (.fetch id none address.segments)
  /-- A value is added to an array inside a document. -/
  | push {body : Json} {value : Value} {id : ObjectId} (leads : address.LeadsTo id)
      (nested : address.isNested) (read : valueOf address.fieldPath body = .ok value) :
      Becomes address (.append body) (.push id address.fieldPath value address.scopes)
  /-- An element of an array is replaced, under its identifier. -/
  | replaceElement {body : Json} {filter : Option Filter} {document : Document}
      {id element : ObjectId} (leads : address.LeadsTo id) (nested : address.isNested)
      (last : address.retained.getLast? = some (.identifier element))
      (read : documentOf body = .ok document) :
      Becomes address (.replace body filter)
        (.set id address.fieldPath (.document (document.insert idField (.objectId element)))
          address.scopes)
  /-- The value of a field inside a document is replaced. -/
  | replaceField {body : Json} {filter : Option Filter} {value : Value} {id : ObjectId}
      (leads : address.LeadsTo id) (nested : address.isNested)
      (last : ∀ element, address.retained.getLast? ≠ some (.identifier element))
      (read : updateOf address.fieldPath body = .ok value) :
      Becomes address (.replace body filter) (.set id address.fieldPath value address.scopes)
  /-- Values are put into an element of an array. -/
  | mergeElement {body : Json} {filter : Option Filter} {single : Bool} {document : Document}
      {id element : ObjectId} (leads : address.LeadsTo id) (nested : address.isNested)
      (last : address.retained.getLast? = some (.identifier element))
      (read : documentOf body = .ok document) :
      Becomes address (.merge body filter single)
        (.set id "" (.document (Entries.ofPairs (document.map fun (name, value) =>
          (address.fieldPath ++ "." ++ name, value)))) address.scopes)
  /-- The value of a field inside a document is replaced by a merge. -/
  | mergeField {body : Json} {filter : Option Filter} {single : Bool} {value : Value}
      {id : ObjectId} (leads : address.LeadsTo id) (nested : address.isNested)
      (last : ∀ element, address.retained.getLast? ≠ some (.identifier element))
      (read : updateOf address.fieldPath body = .ok value) :
      Becomes address (.merge body filter single) (.set id address.fieldPath value address.scopes)
  /-- An element of an array is removed. -/
  | pull {filter : Option Filter} {id element : ObjectId} (leads : address.LeadsTo id)
      (nested : address.isNested) (last : address.final? = some (.identifier element)) :
      Becomes address (.remove filter) (.pull id address.fieldPath element address.scopes)

variable {address : Address} {action : Action} {access : Access} {id : ObjectId}

/-- The filter that is required is the one that is there. -/
theorem required_eq_ok_iff {filter : Option Filter} {needed : Filter} :
    required filter = .ok needed ↔ filter = some needed := by
  cases filter <;> simp [required]

/-- What an action on a collection becomes. -/
theorem becomes_of_onCollection (whole : address.root = none)
    (h : action.onCollection = .ok access) : action.Becomes address access := by
  cases action with
  | read filter projection single =>
    cases h
    exact .query whole
  | append body =>
    obtain ⟨document, hread, rfl⟩ := map_eq_ok_iff.mp h
    exact .create whole hread
  | replace body filter =>
    simp only [onCollection, block_eq_ok_iff, pure_eq_ok_iff, required_eq_ok_iff] at h
    obtain ⟨needed, rfl, document, hread, rfl⟩ := h
    exact .replaceFirst whole hread
  | merge body filter single =>
    simp only [onCollection, block_eq_ok_iff, pure_eq_ok_iff] at h
    obtain ⟨document, hread, rfl⟩ := h
    exact .merge whole hread
  | remove filter =>
    obtain ⟨needed, hneeded, rfl⟩ := map_eq_ok_iff.mp h
    cases required_eq_ok_iff.mp hneeded
    exact .deleteMatching whole

/-- What an action on a document becomes. -/
theorem becomes_of_onDocument (leads : address.LeadsTo id) (bare : address.isNested = false)
    (h : action.onDocument id = .ok access) : action.Becomes address access := by
  cases action with
  | read filter projection single =>
    cases h
    exact .fetch leads bare
  | append body => cases h
  | replace body filter =>
    simp only [onDocument, block_eq_ok_iff, pure_eq_ok_iff] at h
    obtain ⟨document, hread, rfl⟩ := h
    exact .replace leads bare hread
  | merge body filter single =>
    simp only [onDocument, block_eq_ok_iff, pure_eq_ok_iff] at h
    obtain ⟨document, hread, rfl⟩ := h
    exact .mergeInto leads bare hread
  | remove filter =>
    cases h
    exact .delete leads bare

/-- What an action inside a document becomes. -/
theorem becomes_of_onPlace (leads : address.LeadsTo id) (nested : address.isNested)
    (h : action.onPlace id address = .ok access) : action.Becomes address access := by
  unfold onPlace at h
  dsimp only at h
  split at h
  case h_1 =>
    cases h
    exact .fetchInside leads nested
  case h_2 => cases h
  case h_3 =>
    simp only [block_eq_ok_iff, pure_eq_ok_iff] at h
    obtain ⟨value, hread, rfl⟩ := h
    exact .push leads nested hread
  case h_4 hlast =>
    simp only [block_eq_ok_iff, pure_eq_ok_iff] at h
    obtain ⟨document, hread, rfl⟩ := h
    exact .replaceElement leads nested hlast hread
  case h_5 hlast =>
    simp only [block_eq_ok_iff, pure_eq_ok_iff] at h
    obtain ⟨value, hread, rfl⟩ := h
    exact .replaceField leads nested (fun element heq => hlast element heq) hread
  case h_6 hlast =>
    simp only [block_eq_ok_iff, pure_eq_ok_iff] at h
    obtain ⟨document, hread, rfl⟩ := h
    exact .mergeElement leads nested hlast hread
  case h_7 hlast =>
    simp only [block_eq_ok_iff, pure_eq_ok_iff] at h
    obtain ⟨value, hread, rfl⟩ := h
    exact .mergeField leads nested (fun element heq => hlast element heq) hread
  case h_8 =>
    split at h
    case h_1 hlast =>
      cases h
      exact .pull leads nested hlast
    case h_2 => cases h

/-- What an action at an address becomes. -/
theorem becomes_of_accessAt (h : action.accessAt address = .ok access) :
    action.Becomes address access := by
  rw [accessAt] at h
  split at h
  case h_1 whole => exact becomes_of_onCollection whole h
  case h_2 text hroot =>
    split at h
    case h_1 => cases h
    case h_2 id hid =>
      have leads : address.LeadsTo id := ⟨text, hroot, hid⟩
      split at h
      case isTrue nested => exact becomes_of_onPlace leads nested h
      case isFalse bare =>
        rw [Bool.not_eq_true] at bare
        exact becomes_of_onDocument leads bare h

end Action

/-- An action at an address, and the access that it becomes. -/
structure Plan where
  /-- What is asked for. -/
  action : Action
  /-- Where. -/
  address : Address
  /-- The access to the store. -/
  access : Access

namespace Request

/-- What a request comes to. -/
def plan (request : Request) : Except RequestError Plan := do
  let action ← request.action
  let address ← Address.parse request.path action.omitsLast
  let access ← action.accessAt address
  return ⟨action, address, access⟩

/-- The parts of what a request comes to. -/
theorem plan_eq_ok_iff {request : Request} {plan : Plan} :
    request.plan = .ok plan ↔ request.action = .ok plan.action ∧
      Address.parse request.path plan.action.omitsLast = .ok plan.address ∧
      plan.action.accessAt plan.address = .ok plan.access := by
  simp only [Request.plan, block_eq_ok_iff, pure_eq_ok_iff]
  constructor
  · rintro ⟨action, haction, address, haddress, access, haccess, rfl⟩
    exact ⟨haction, haddress, haccess⟩
  · rintro ⟨haction, haddress, haccess⟩
    exact ⟨plan.action, haction, plan.address, haddress, plan.access, haccess, rfl⟩

end Request

namespace Archive

variable {validator : Validator} {collection : String} {archive : Archive} {request : Request}

/-- A request that comes to nothing is refused before the archive is touched. -/
theorem handle_of_plan_error {error : RequestError} (h : request.plan = .error error) :
    archive.handle validator collection request = (.error error, archive) := by
  simp only [Request.plan, block_eq_error_iff, pure_ne_error, and_false, exists_false,
    or_false] at h
  rcases h with haction | ⟨action, haction, haddress | ⟨address, haddress, haccess⟩⟩
  · simp only [handle, haction]
  · simp only [handle, haction, haddress]
  · simp only [handle, haction, haddress, act, haccess]

/-- A request that comes to an access is answered by what the access gives back, and leaves the
archive as the access does. -/
theorem handle_of_plan_ok {plan : Plan} (h : request.plan = .ok plan) :
    archive.handle validator collection request =
      (((plan.access.run validator collection archive).1.mapError .store).bind
          (Outcome.replyTo plan.address plan.action),
        (plan.access.run validator collection archive).2) := by
  obtain ⟨haction, haddress, haccess⟩ := Request.plan_eq_ok_iff.mp h
  simp only [handle, haction, haddress, act, haccess]
  split
  case h_1 hrun =>
    rw [hrun]
    rfl
  case h_2 hrun =>
    rw [hrun]
    rfl

/-- A request leaves the archive as it is, or as the access leaves it that the request comes to. -/
theorem snd_handle (validator : Validator) (collection : String) (archive : Archive)
    (request : Request) :
    (archive.handle validator collection request).2 = archive ∨
      ∃ plan, request.plan = .ok plan ∧ (archive.handle validator collection request).2 =
        (plan.access.run validator collection archive).2 := by
  cases hplan : request.plan with
  | error error => exact Or.inl (by rw [handle_of_plan_error hplan])
  | ok plan => exact Or.inr ⟨plan, rfl, by rw [handle_of_plan_ok hplan]⟩

end Archive

end RestArchive
