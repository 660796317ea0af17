import RestArchive.Proofs.Members
import RestArchive.Proofs.ScopedText
import RestArchive.Stamp
import RestArchive.Store
import RestArchive.Value.OfJson

/-! # Documents keep their identifiers

Whatever is asked for, no update gives a stored document another identifier (`HasId.apply`). Only a
path that is exactly the name of the identifier field ends there, and what is put there must be the
same as what is there already; every other path that starts with the field, by name or by scope, goes
into the document or the array that is there, or fails. So whatever stands in the identifier field,
its outline stays (`key?_apply`), and an identifier or a text is nothing but its outline. -/

namespace RestArchive

namespace Step

/-- A path that is read as one step by name is the name. -/
theorem eq_of_parse_eq_field {scopes : List Scope} {path name : String}
    (h : parse scopes path = .ok [.field name]) : path = name := by
  rw [parse] at h
  split at h
  · cases h
  · cases hsplit : Text.split '.' path with
    | nil => rw [hsplit] at h; cases h
    | cons token tokens =>
      rw [hsplit] at h
      simp only [ofTokens, block_eq_ok_iff, pure_eq_ok_iff, List.cons.injEq] at h
      obtain ⟨first, hfirst, others, hothers, rfl, rfl⟩ := h
      rw [← (ofToken_eq_field_iff.mp hfirst).1]
      have hjoin := Text.join_split '.' path
      rw [hsplit, eq_nil_of_ofTokens_eq_nil hothers] at hjoin
      exact hjoin.symm.trans (by simp [Text.join])

end Step

/-! ## What stands in the identifier field -/

namespace Value

/-- What no update changes of a value in the identifier field: its type, and all of it unless it is a
document, an array or a double; of code, not the variables, whose order does not count. -/
def outline : Value → Value
  | .array _ => .array []
  | .document _ => .document []
  | .double _ => .double ⟨0⟩
  | .codeWithScope text _ => .codeWithScope text []
  | other => other

/-- Values that are the same have the same outline. -/
theorem outline_eq_of_same {first second : Value} (h : first.same second) :
    first.outline = second.outline := by
  unfold same at h
  split at h <;> simp_all [outline]

/-- Only an identifier has its outline. -/
theorem outline_eq_objectId_iff {value : Value} {id : ObjectId} :
    value.outline = .objectId id ↔ value = .objectId id := by
  cases value <;> simp [outline]

end Value

/-- A value that is there, and does not give way to another one, keeps its outline. -/
theorem Terminal.outline_of_onMember {terminal : Terminal} {rest : List Step} {step : Step}
    {value : Value} {result : Option Value}
    (hset : ∀ new, terminal = .set new → step :: rest ≠ [.field step.member])
    (h : terminal.onMember rest step (some value) = .ok result) :
    result.map Value.outline = some value.outline := by
  cases result with
  | none => cases eq_none_of_onMember h
  | some after =>
    rw [Option.map_some, Option.some_inj]
    cases step with
    | field name =>
      by_cases hrest : rest = []
      · subst hrest
        cases terminal with
        | set new => exact absurd rfl (hset new rfl)
        | push new =>
          cases value with
          | array items =>
            cases h
            rfl
          | _ => simp [onMember, onLast, onValue] at h
        | pull id =>
          obtain ⟨items, hitems, hafter⟩ := onMember_pull h
          rw [eq_array_of_listed hitems, eq_array_of_listed hafter]
          rfl
      · obtain ⟨members, inner, hmembers, -, hinner⟩ := onMember_field hrest h
        rw [eq_document_of_entered hmembers, eq_document_of_entered hinner]
        rfl
    | «scoped» scope =>
      obtain ⟨items, changed, hitems, -, hchanged⟩ := onMember_scoped h
      rw [eq_array_of_listed hitems, eq_array_of_listed hchanged]
      rfl

namespace Document

/-- The outline of what stands in the identifier field of a document. -/
def key? (document : Document) : Option Value := (document.get? idField).map Value.outline

variable {document changed : Document} {key : Value}

/-- An update that puts nothing over the identifier field leaves the outline of what stands there. -/
theorem key?_along {terminal : Terminal} {steps : List Step} (hkey : document.key? = some key)
    (hset : ∀ new, terminal = .set new → steps ≠ [.field idField])
    (h : terminal.along document steps = .ok changed) : changed.key? = some key := by
  cases steps with
  | nil =>
    cases h
    exact hkey
  | cons step rest =>
    obtain ⟨result, hresult, rfl, hmember⟩ := Terminal.along_cons_ok h
    by_cases hname : step.member = idField
    · obtain ⟨value, hvalue, rfl⟩ := Option.map_eq_some_iff.mp hkey
      rw [hname, hvalue] at hresult
      rw [key?, ← hname, hmember]
      exact Terminal.outline_of_onMember (hname ▸ hset) hresult
    · rw [key?, Entries.get?_insert?_of_ne _ (Ne.symm hname)]
      exact hkey

/-- What is put at the path of the identifier field is the same as what is there. -/
theorem same_of_setAt {scopes : List Scope} {current value : Value}
    (hcurrent : document.get? idField = some current)
    (h : document.setAt scopes idField value = .ok changed) : current.same value := by
  simp only [setAt, decide_true, hcurrent] at h
  split at h
  case isTrue hsame => exact hsame
  case isFalse => cases h

/-- A value put at a path leaves the outline of what stands in the identifier field. -/
theorem key?_setAt {scopes : List Scope} {path : String} {value : Value}
    (hkey : document.key? = some key) (h : document.setAt scopes path value = .ok changed) :
    changed.key? = some key := by
  obtain ⟨steps, hsteps, halong⟩ := bind_eq_ok_iff.mp (atPath_of_setAt h)
  by_cases hlast : steps = [.field idField]
  · -- The path is the name of the field, and the value is the same as the one that is there.
    subst hlast
    cases Step.eq_of_parse_eq_field hsteps
    obtain ⟨current, hcurrent, rfl⟩ := Option.map_eq_some_iff.mp hkey
    have hsame := same_of_setAt hcurrent h
    cases halong
    rw [key?, Entries.get?_insert_self, Option.map_some, Value.outline_eq_of_same hsame]
  · exact key?_along hkey (fun _ _ => hlast) halong

/-- Values put at their paths leave the outline of what stands in the identifier field. -/
theorem key?_setAll {scopes : List Scope} {values : Document} (hkey : document.key? = some key)
    (h : document.setAll scopes values = .ok changed) : changed.key? = some key := by
  induction values generalizing document with
  | nil =>
    cases h
    exact hkey
  | cons entry values ih =>
    obtain ⟨path, value⟩ := entry
    obtain ⟨inner, hinner, hchanged⟩ := bind_eq_ok_iff.mp h
    exact ih (key?_setAt hkey hinner) hchanged

/-- An update leaves the outline of what stands in the identifier field. -/
theorem key?_apply {update : Update} (hkey : document.key? = some key)
    (h : update.apply document = .ok changed) : changed.key? = some key := by
  rw [Update.apply] at h
  split at h
  · exact key?_setAll hkey h
  · obtain ⟨steps, -, halong⟩ := bind_eq_ok_iff.mp h
    exact key?_along hkey (by simp) halong
  · obtain ⟨steps, -, halong⟩ := bind_eq_ok_iff.mp h
    exact key?_along hkey (by simp) halong

/-- What stands in the identifier field of the one that is kept stands there in the new one. -/
theorem get?_withIdOf (document kept : Document) :
    (document.withIdOf kept).get? idField = kept.get? idField := by
  rw [withIdOf]
  cases kept.get? idField with
  | none => exact Entries.get?_erase_self document idField
  | some id => exact Entries.get?_insert_self document idField id

/-! ## Identifiers -/

/-- Whether a document carries an identifier in its identifier field, as an identifier and not as a
text. -/
def HasId (document : Document) (id : ObjectId) : Prop :=
  document.get? idField = some (.objectId id)

/-- A document has an identifier when that is the outline of what stands in its identifier field. -/
theorem hasId_iff_key? {id : ObjectId} : document.HasId id ↔ document.key? = some (.objectId id) := by
  simp [HasId, key?, Value.outline_eq_objectId_iff]

namespace HasId

/-- A document carries the identifier that it has, and no other one. -/
theorem names_iff {document : Document} {id other : ObjectId} (h : document.HasId id) :
    other.names document ↔ other = id := by
  rw [HasId] at h
  simp [ObjectId.names, h, ObjectId.denotedBy, eq_comm]

/-- A document has the identifier that is put into it. -/
theorem insert (document : Document) (id : ObjectId) :
    HasId (Entries.insert document idField (.objectId id)) id :=
  Entries.get?_insert_self document idField (.objectId id)

/-- A document takes the identifier of another one. -/
theorem withIdOf {kept : Document} {id : ObjectId} (h : kept.HasId id) (document : Document) :
    (document.withIdOf kept).HasId id := by
  rw [HasId, get?_withIdOf]
  exact h

/-- An update that puts nothing over the identifier field leaves the identifier. -/
theorem along {terminal : Terminal} {document changed : Document} {steps : List Step} {id : ObjectId}
    (hid : document.HasId id) (hset : ∀ new, terminal = .set new → steps ≠ [.field idField])
    (h : terminal.along document steps = .ok changed) : changed.HasId id :=
  hasId_iff_key?.mpr (key?_along (hasId_iff_key?.mp hid) hset h)

/-- Values put at their paths leave the identifier. -/
theorem setAll {scopes : List Scope} {document changed : Document} {values : Document}
    {id : ObjectId} (hid : document.HasId id)
    (h : document.setAll scopes values = .ok changed) : changed.HasId id :=
  hasId_iff_key?.mpr (key?_setAll (hasId_iff_key?.mp hid) h)

/-- An update leaves the identifier. -/
theorem apply {update : Update} {document changed : Document} {id : ObjectId}
    (hid : document.HasId id) (h : update.apply document = .ok changed) : changed.HasId id :=
  hasId_iff_key?.mpr (key?_apply (hasId_iff_key?.mp hid) h)

end HasId

/-! ## New documents -/

/-- Whether a document has an identifier or none, but nothing else in the place of one. -/
def MayHaveId (document : Document) : Prop :=
  document.get? idField = none ∨ ∃ id, document.HasId id

end Document

/-- Items can be read when the first one can, and the others. -/
theorem Body.itemsAt_cons_eq_ok_iff {path : Option String} {item : Json} {items : List Json}
    {stored : List Value} : itemsAt path (item :: items) = .ok stored ↔
      ∃ first, valueAt path item = .ok first ∧ ∃ others, itemsAt path items = .ok others ∧
        first :: others = stored := by
  simp only [itemsAt, block_eq_ok_iff, pure_eq_ok_iff]

/-- Members can be read when the first one can, as an identifier under the name of the identifier
field and as a part of the body under any other, and the others. -/
theorem Body.membersAt_cons_eq_ok_iff {path : Option String} {name : String} {json : Json}
    {members : List (String × Json)} {stored : Document} :
    membersAt path ((name, json) :: members) = .ok stored ↔
      ∃ first, (name = idField ∧ castId (memberPath path name) json = .ok first ∨
        name ≠ idField ∧ valueAt (some (memberPath path name)) json = .ok first) ∧
        ∃ others, membersAt path members = .ok others ∧ (name, first) :: others = stored := by
  by_cases hname : name = idField
  · simp only [membersAt, hname, ↓reduceIte, block_eq_ok_iff, pure_eq_ok_iff, true_and, ne_eq,
      not_true_eq_false, false_and, or_false]
  · simp only [membersAt, hname, ↓reduceIte, block_eq_ok_iff, pure_eq_ok_iff, ne_eq,
      not_false_eq_true, true_and, false_and, false_or]

/-- What a body has for an identifier field is a text that writes an identifier, and is stored as that. -/
theorem Body.castId_eq_ok_iff {path : String} {json : Json} {value : Value} :
    castId path json = .ok value ↔
      ∃ text id, json = .string text ∧ ObjectId.ofHex? text = some id ∧ value = .objectId id := by
  cases json with
  | string text =>
    rw [castId]
    cases htext : ObjectId.ofHex? text with
    | some id => simp [htext, eq_comm]
    | none => simp [htext]
  | _ => simp [castId]

/-- What a body has for an identifier field is stored as an identifier. -/
theorem Body.exists_of_castId {path : String} {json : Json} {value : Value}
    (h : castId path json = .ok value) : ∃ id, value = .objectId id := by
  obtain ⟨_, id, -, -, hvalue⟩ := castId_eq_ok_iff.mp h
  exact ⟨id, hvalue⟩

/-- The members of a body keep their names, and hold identifiers under the name of the identifier
field. -/
theorem Body.names_of_membersAt {path : Option String} {members : List (String × Json)}
    {stored : Document} (h : membersAt path members = .ok stored) :
    stored.names = members.map Prod.fst ∧
      ∀ entry ∈ stored, entry.1 = idField → ∃ id, entry.2 = .objectId id := by
  induction members generalizing stored with
  | nil =>
    cases h
    exact ⟨rfl, fun _ hnone => absurd hnone List.not_mem_nil⟩
  | cons member members ih =>
    obtain ⟨name, json⟩ := member
    obtain ⟨first, hfirst, others, hothers, rfl⟩ := membersAt_cons_eq_ok_iff.mp h
    obtain ⟨hnames, hids⟩ := ih hothers
    refine ⟨by simp [hnames], List.forall_mem_cons.mpr ⟨fun heq => ?_, hids⟩⟩
    rcases hfirst with ⟨-, hcast⟩ | ⟨hname, -⟩
    · exact exists_of_castId hcast
    · exact absurd heq hname

/-- Members of a body that have none for an identifier field are stored without an identifier, and others
with the one that the first of them writes. -/
theorem Body.hasId_of_membersAt {path : Option String} {members : List (String × Json)}
    {stored : Document} (h : membersAt path members = .ok stored) :
    (Entries.get? members idField = none ∧ stored.get? idField = none) ∨
      ∃ text id, Entries.get? members idField = some (.string text) ∧
        ObjectId.ofHex? text = some id ∧ stored.HasId id := by
  induction members generalizing stored with
  | nil =>
    rw [membersAt] at h
    cases h
    exact Or.inl ⟨rfl, rfl⟩
  | cons member members ih =>
    obtain ⟨name, json⟩ := member
    obtain ⟨first, hfirst, others, hothers, rfl⟩ := membersAt_cons_eq_ok_iff.mp h
    rcases hfirst with ⟨hname, hcast⟩ | ⟨hname, -⟩
    · obtain ⟨text, id, rfl, htext, rfl⟩ := castId_eq_ok_iff.mp hcast
      exact Or.inr ⟨text, id, by simp [hname], htext, by simp [Document.HasId, hname]⟩
    · simpa [Document.HasId, hname] using ih hothers

/-- The members of a body have an identifier or none. -/
theorem Body.mayHaveId_of_membersAt {path : Option String} {members : List (String × Json)}
    {stored : Document} (h : membersAt path members = .ok stored) : stored.MayHaveId := by
  rcases hasId_of_membersAt h with ⟨-, hnone⟩ | ⟨_, id, -, -, hid⟩
  · exact Or.inl hnone
  · exact Or.inr ⟨id, hid⟩

/-- The document that a body is has an identifier or none. -/
theorem Body.mayHaveId_of_document {body : Json} {document : Document}
    (h : Body.document body = .ok document) : document.MayHaveId := by
  cases body with
  | object members => exact mayHaveId_of_membersAt h
  | _ => cases h

/-- Stamping the members of a document stamps the one of a name, from some supply. -/
theorem Value.exists_get?_stampMembers (supply : IdSupply) (members : Document) (name : String) :
    ∃ rest : IdSupply, Entries.get? (stampMembers supply members).1 name =
      (members.get? name).map fun value => (stamp false rest value).1 := by
  induction members generalizing supply with
  | nil => exact ⟨supply, rfl⟩
  | cons member members ih =>
    obtain ⟨key, value⟩ := member
    by_cases hkey : key = name
    · exact ⟨supply, by simp [stampMembers, hkey]⟩
    · obtain ⟨rest, hrest⟩ := ih (stamp false supply value).2
      exact ⟨rest, by simpa [stampMembers, hkey] using hrest⟩

namespace Document

/-- A document without an identifier gets the next one when it is stamped. -/
theorem hasId_stamp_of_none {document : Document} (h : document.get? idField = none)
    (supply : IdSupply) : (document.stamp supply).1.HasId supply.take.1 := by
  obtain ⟨rest, hrest⟩ := Value.exists_get?_stampMembers supply.take.2 document idField
  simp [HasId, stamp, Entries.contains, h, stampInside, Entries.get?_append, hrest]

/-- A document with an identifier keeps it when it is stamped. -/
theorem HasId.stamp {document : Document} {id : ObjectId} (h : document.HasId id)
    (supply : IdSupply) : (document.stamp supply).1.HasId id := by
  obtain ⟨rest, hrest⟩ := Value.exists_get?_stampMembers supply document idField
  rw [HasId] at h
  simp [HasId, Document.stamp, Entries.contains, h, stampInside, hrest, Value.stamp]

/-- A stamped document has an identifier. -/
theorem exists_hasId_stamp {document : Document} (h : document.MayHaveId) (supply : IdSupply) :
    ∃ id, (document.stamp supply).1.HasId id := by
  rcases h with hnone | ⟨id, hid⟩
  · exact ⟨supply.take.1, hasId_stamp_of_none hnone supply⟩
  · exact ⟨id, hid.stamp supply⟩

end Document

end RestArchive
