import RestArchive.Proofs.DocumentId

/-! # Elements of arrays are stamped

What is known of the documents that are elements of arrays, at any depth inside a value
(`Value.Elements`). Those of a body have an identifier or none, since what a body has under the name
of the identifier field is cast (`Body.asElement_of_valueAt`). Stamping leaves none without
(`Value.elements_stamp`). -/

namespace RestArchive

namespace Value

/-- Whether a value is another one, or inside it at any depth. The variables of code stand in no document that
paths lead into, so they are not inside it. -/
inductive Inside (value : Value) : Value → Prop
  /-- A value is inside itself. -/
  | self : Inside value value
  /-- What is inside a member is inside the document. -/
  | member {members : List (String × Value)} (entry : String × Value) (mem : entry ∈ members)
      (inside : Inside value entry.2) : Inside value (.document members)
  /-- What is inside an element is inside the array. -/
  | element {items : List Value} (item : Value) (mem : item ∈ items) (inside : Inside value item) :
      Inside value (.array items)

/-- Whether every document that is an element of an array inside a value is of a kind. -/
def Elements (Kind : Document → Prop) (value : Value) : Prop :=
  ∀ items, (array items).Inside value → ∀ members, document members ∈ items → Kind members

/-- Whether a value may be an element of an array where documents that are elements have to be of a
kind: it is of the kind if it is a document, and so is every such document inside it. -/
def AsElement (Kind : Document → Prop) (value : Value) : Prop :=
  (∀ members, value = document members → Kind members) ∧ value.Elements Kind

/-- Whether a value is neither a document nor an array. -/
def IsPlain : Value → Prop
  | .document _ => False
  | .array _ => False
  | _ => True

variable {Kind : Document → Prop} {value : Value}

/-- The elements inside a document are those inside its members. -/
theorem elements_document_iff {members : Document} :
    (document members).Elements Kind ↔ ∀ entry ∈ members, entry.2.Elements Kind := by
  constructor
  · intro h entry hentry items hinside
    exact h items (.member entry hentry hinside)
  · intro h items hinside
    cases hinside with
    | member entry hentry hinside => exact h entry hentry items hinside

/-- The elements inside an array are its own, and those inside them. -/
theorem elements_array_iff {items : List Value} :
    (array items).Elements Kind ↔ ∀ item ∈ items, item.AsElement Kind := by
  constructor
  · intro h item hitem
    refine ⟨?_, fun inner hinside => h inner (.element item hitem hinside)⟩
    rintro members rfl
    exact h items .self members hitem
  · intro h inner hinside
    cases hinside with
    | self => exact fun members hmem => (h _ hmem).1 members rfl
    | element item hitem hinside => exact (h item hitem).2 inner hinside

/-- A document may be an element if it is of the kind, and so is what is inside it. -/
theorem asElement_document_iff {members : Document} :
    (document members).AsElement Kind ↔
      Kind members ∧ ∀ entry ∈ members, entry.2.Elements Kind := by
  rw [AsElement, elements_document_iff]
  simp only [document.injEq, forall_eq']

/-- An array may be an element if its own elements may. -/
theorem asElement_array_iff {items : List Value} :
    (array items).AsElement Kind ↔ ∀ item ∈ items, item.AsElement Kind := by
  rw [AsElement, elements_array_iff]
  simp

/-- What is neither a document nor an array may be an element. -/
theorem asElement_of_isPlain (h : value.IsPlain) : value.AsElement Kind := by
  refine ⟨?_, ?_⟩
  · rintro members rfl
    exact h.elim
  · intro items hinside
    cases hinside with
    | self => exact h.elim
    | member => exact h.elim
    | element => exact h.elim

/-- There are no elements inside what is neither a document nor an array. -/
theorem elements_of_isPlain (h : value.IsPlain) : value.Elements Kind :=
  (asElement_of_isPlain h).2

/-- The stored number for an integer is neither a document nor an array. -/
theorem isPlain_ofInteger (number : Int) : (ofInteger number).IsPlain := by
  unfold ofInteger
  split
  · trivial
  · split <;> trivial

end Value

/-! ## Bodies -/

namespace Body

mutual

/-- Documents that are elements inside a value of a body have an identifier or none; so has the
value. -/
theorem asElement_of_valueAt {path : Option String} : ∀ {json : Json} {value : Value},
    valueAt path json = .ok value → value.AsElement Document.MayHaveId
  | .object members, value, h => by
    rw [valueAt] at h
    obtain ⟨stored, hstored, rfl⟩ := map_eq_ok_iff.mp h
    exact Value.asElement_document_iff.mpr
      ⟨mayHaveId_of_membersAt hstored, elements_of_membersAt hstored⟩
  | .array items, value, h => by
    rw [valueAt] at h
    obtain ⟨stored, hstored, rfl⟩ := map_eq_ok_iff.mp h
    exact Value.asElement_array_iff.mpr (asElement_of_itemsAt hstored)
  | .integer number, value, h => by
    cases h
    exact Value.asElement_of_isPlain (Value.isPlain_ofInteger number)
  | .null, value, h | .bool _, value, h | .double _, value, h | .string _, value, h => by
    cases h
    exact Value.asElement_of_isPlain trivial

/-- The items of an array of a body have an identifier or none, as documents. -/
theorem asElement_of_itemsAt {path : Option String} : ∀ {items : List Json} {stored : List Value},
    itemsAt path items = .ok stored → ∀ item ∈ stored, item.AsElement Document.MayHaveId
  | [], stored, h => by
    cases h
    exact fun item hnone => absurd hnone List.not_mem_nil
  | item :: items, stored, h => by
    obtain ⟨first, hfirst, others, hothers, rfl⟩ := itemsAt_cons_eq_ok_iff.mp h
    exact List.forall_mem_cons.mpr ⟨asElement_of_valueAt hfirst, asElement_of_itemsAt hothers⟩

/-- Documents that are elements inside the members of an object have an identifier or none. -/
theorem elements_of_membersAt {path : Option String} :
    ∀ {members : List (String × Json)} {stored : Document}, membersAt path members = .ok stored →
      ∀ entry ∈ stored, entry.2.Elements Document.MayHaveId
  | [], stored, h => by
    cases h
    exact fun entry hnone => absurd hnone List.not_mem_nil
  | (name, json) :: members, stored, h => by
    obtain ⟨first, hfirst, others, hothers, rfl⟩ := membersAt_cons_eq_ok_iff.mp h
    refine List.forall_mem_cons.mpr ⟨?_, elements_of_membersAt hothers⟩
    rcases hfirst with ⟨-, hcast⟩ | ⟨-, hvalue⟩
    · obtain ⟨id, rfl⟩ := exists_of_castId hcast
      exact Value.elements_of_isPlain trivial
    · exact (asElement_of_valueAt hvalue).2

end

/-- Documents that are elements inside the document that a body is have an identifier or none. -/
theorem elements_of_document {body : Json} {stored : Document}
    (h : document body = .ok stored) : ∀ entry ∈ stored, entry.2.Elements Document.MayHaveId := by
  cases body with
  | object members => exact elements_of_membersAt h
  | _ => cases h

end Body

/-! ## Stamping -/

/-- Whether a document has an identifier. -/
def Document.Identified (document : Document) : Prop := ∃ id, document.HasId id

namespace Value

/-- A document that is stamped under a name is stamped inside. -/
theorem stamp_false_document (supply : IdSupply) (members : Document) :
    stamp false supply (.document members) =
      (.document (Document.stampInside supply members).1,
        (Document.stampInside supply members).2) := rfl

/-- A document that is stamped as an element is stamped as a document. -/
theorem stamp_true_document (supply : IdSupply) (members : Document) :
    stamp true supply (.document members) =
      (.document (Document.stamp supply members).1, (Document.stamp supply members).2) := by
  unfold stamp Document.stamp
  cases hcontains : Entries.contains members idField <;> rfl

/-- What stands under a name after stamping was stamped there. -/
theorem exists_of_mem_stampMembers {supply : IdSupply} {members : Document} {entry : String × Value}
    (h : entry ∈ (stampMembers supply members).1) :
    ∃ value rest, (entry.1, value) ∈ members ∧ entry.2 = (stamp false rest value).1 := by
  induction members generalizing supply with
  | nil => cases h
  | cons member members ih =>
    obtain ⟨name, value⟩ := member
    rcases List.mem_cons.mp h with rfl | h
    · exact ⟨value, supply, List.mem_cons_self, rfl⟩
    · obtain ⟨value, rest, hmem, heq⟩ := ih h
      exact ⟨value, rest, List.mem_cons_of_mem _ hmem, heq⟩

mutual

/-- Once a value is stamped, documents that are elements inside it have identifiers, if before they
had one or none. -/
theorem elements_stamp (isElement : Bool) (supply : IdSupply) : ∀ value : Value,
    value.Elements Document.MayHaveId →
      (stamp isElement supply value).1.Elements Document.Identified
  | .document members, h => by
    have hinner : ∀ supply : IdSupply, ∀ entry ∈ (stampMembers supply members).1,
        entry.2.Elements Document.Identified :=
      fun supply => elements_stampMembers supply members (elements_document_iff.mp h)
    rw [stamp]
    split
    · refine elements_document_iff.mpr fun entry hentry => ?_
      rcases List.mem_append.mp hentry with hold | hnew
      · exact hinner _ entry hold
      · -- What stands behind the members is the identifier.
        rw [List.mem_singleton.mp hnew]
        exact elements_of_isPlain trivial
    · exact elements_document_iff.mpr (hinner supply)
  | .array items, h => by
    rw [stamp]
    exact elements_array_iff.mpr (asElement_stampItems supply items (elements_array_iff.mp h))
  | .null, h | .undefined, h | .minKey, h | .maxKey, h | .bool _, h | .int32 _, h | .int64 _, h
  | .double _, h | .string _, h | .objectId _, h | .date _, h | .timestamp _ _, h | .symbol _, h
  | .code _, h | .regex _ _, h | .decimal128 _, h | .binary _ _, h | .codeWithScope _ _, h
  | .dbPointer _ _, h => elements_of_isPlain trivial

/-- Once items are stamped, they have identifiers as documents. -/
theorem asElement_stampItems (supply : IdSupply) : ∀ items : List Value,
    (∀ item ∈ items, item.AsElement Document.MayHaveId) →
      ∀ item ∈ (stampItems supply items).1, item.AsElement Document.Identified
  | [], _ => fun item hnone => absurd hnone List.not_mem_nil
  | item :: items, h => by
    obtain ⟨hitem, hitems⟩ := List.forall_mem_cons.mp h
    have hfirst : (stamp true supply item).1.AsElement Document.Identified := by
      refine ⟨?_, elements_stamp true supply item hitem.2⟩
      intro stamped hstamped
      cases item with
      | document members =>
        rw [stamp_true_document] at hstamped
        cases hstamped
        exact Document.exists_hasId_stamp (hitem.1 members rfl) supply
      | _ => cases hstamped
    exact List.forall_mem_cons.mpr ⟨hfirst, asElement_stampItems _ items hitems⟩

/-- Once members are stamped, documents that are elements inside them have identifiers. -/
theorem elements_stampMembers (supply : IdSupply) : ∀ members : List (String × Value),
    (∀ entry ∈ members, entry.2.Elements Document.MayHaveId) →
      ∀ entry ∈ (stampMembers supply members).1, entry.2.Elements Document.Identified
  | [], _ => fun entry hnone => absurd hnone List.not_mem_nil
  | (name, value) :: members, h => by
    obtain ⟨hvalue, hmembers⟩ := List.forall_mem_cons.mp h
    exact List.forall_mem_cons.mpr
      ⟨elements_stamp false supply value hvalue, elements_stampMembers _ members hmembers⟩

end

/-- Once a value is stamped as an element, it may be an element where documents have identifiers. -/
theorem asElement_stamp (supply : IdSupply) (value : Value)
    (h : value.AsElement Document.MayHaveId) :
    (stamp true supply value).1.AsElement Document.Identified :=
  asElement_stampItems supply [value] (by simpa using h) _ List.mem_cons_self

end Value

end RestArchive
