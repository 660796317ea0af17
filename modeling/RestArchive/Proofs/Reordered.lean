import Mathlib.Data.List.Forall2
import RestArchive.Path.Descent
import RestArchive.Proofs.Members

/-! # Values without the order of names

Two clients that make new members of one document leave them in the order in which they came.
Reordered values are equal but for such orders, at any depth. Nobody who follows an address sees the
difference (`Value.Reordered.exists_descend`). -/

namespace RestArchive

/-- Two values that are equal when the order of names in documents does not count, at any depth. -/
inductive Value.Reordered : Value → Value → Prop
  /-- A value is like itself. -/
  | refl (value : Value) : Reordered value value
  /-- Arrays are reordered when their elements are, one by one. -/
  | array {first second : List Value} (items : List.Forall₂ Reordered first second) :
      Reordered (.array first) (.array second)
  /-- Documents are reordered when they have the same names, and reordered values under them. -/
  | document {first second : Document} (names : first.names.Perm second.names)
      (members : ∀ name, Option.Rel Reordered (first.get? name) (second.get? name)) :
      Reordered (.document first) (.document second)

/-- Members are reordered when both are missing, or both are there and their values are. -/
abbrev Value.ReorderedMembers : Option Value → Option Value → Prop := Option.Rel Value.Reordered

/-! ## Reading reordered values -/

namespace Value.Reordered

variable {first second value : Value}

/-- Reordered values denote the same identifiers. -/
theorem denotedBy_eq (h : Reordered first second) (id : ObjectId) :
    id.denotedBy first = id.denotedBy second := by
  cases h <;> rfl

/-- Reordered values carry the same identifiers. -/
theorem namesElement_eq (h : Reordered first second) (id : ObjectId) :
    id.namesElement first = id.namesElement second := by
  cases h with
  | refl => rfl
  | array => rfl
  | @document first second _ members =>
    have hid := members idField
    show id.names first = id.names second
    rw [ObjectId.names, ObjectId.names]
    generalize first.get? idField = a at hid ⊢
    generalize second.get? idField = b at hid ⊢
    cases hid with
    | none => rfl
    | some hid => exact hid.denotedBy_eq id

/-- In reordered arrays, the first elements that carry an identifier are reordered. -/
theorem exists_find? {items others : List Value} (h : List.Forall₂ Reordered items others)
    {id : ObjectId} (hfind : items.find? id.namesElement = some value) :
    ∃ other, others.find? id.namesElement = some other ∧ Reordered value other := by
  induction h with
  | nil => cases hfind
  | @cons a b items others hab hrest ih =>
    by_cases ha : id.namesElement a
    · have hb : id.namesElement b := hab.namesElement_eq id ▸ ha
      rw [List.find?_cons_of_pos ha, Option.some.injEq] at hfind
      exact ⟨b, List.find?_cons_of_pos hb, hfind ▸ hab⟩
    · have hb : ¬ id.namesElement b := hab.namesElement_eq id ▸ ha
      rw [List.find?_cons_of_neg ha] at hfind
      rw [List.find?_cons_of_neg hb]
      exact ih hfind

/-- Reordered values hold reordered values one segment below. -/
theorem exists_child (h : Reordered first second) {segment : Segment}
    (hchild : first.child segment = .ok value) :
    ∃ other, second.child segment = .ok other ∧ Reordered value other := by
  cases h with
  | refl => exact ⟨value, hchild, .refl value⟩
  | @array items others hitems =>
    cases segment with
    | field name => cases hchild
    | identifier id =>
      cases hfind : items.find? id.namesElement with
      | none => simp [child, hfind] at hchild
      | some item =>
        obtain ⟨other, hother, hsame⟩ := exists_find? hitems hfind
        simp only [child, hfind, Except.ok.injEq] at hchild
        exact ⟨other, by simp [child, hother], hchild ▸ hsame⟩
  | @document first second _ members =>
    cases segment with
    | identifier id => cases hchild
    | field name =>
      have hmember := members name
      cases hfirst : first.get? name with
      | none => simp [child, hfirst] at hchild
      | some member =>
        simp only [child, hfirst, Except.ok.injEq] at hchild
        rw [hfirst] at hmember
        cases hsecond : second.get? name with
        | none =>
          rw [hsecond] at hmember
          cases hmember
        | some other =>
          rw [hsecond] at hmember
          cases hmember with
          | some hsame => exact ⟨other, by simp [child, hsecond], hchild ▸ hsame⟩

/-- What is read in reordered values is reordered: the order of names is never seen on the way. -/
theorem exists_descend (h : Reordered first second) {segments : List Segment}
    (hvalue : first.descend segments = .ok value) :
    ∃ other, second.descend segments = .ok other ∧ Reordered value other := by
  induction segments generalizing first second with
  | nil =>
    rw [descend_nil, Except.ok.injEq] at hvalue
    exact ⟨second, descend_nil second, hvalue ▸ h⟩
  | cons segment rest ih =>
    rw [descend_cons, bind_eq_ok_iff] at hvalue
    obtain ⟨below, hbelow, hrest⟩ := hvalue
    obtain ⟨other, hother, hsame⟩ := h.exists_child hbelow
    obtain ⟨last, hlast, hlastSame⟩ := ih hsame hrest
    exact ⟨last, by rw [descend_cons, hother]; exact hlast, hlastSame⟩

end Value.Reordered

/-! ## Writing members -/

namespace Document

/-- A member is like itself. -/
theorem reorderedMembers_refl (member : Option Value) : Value.ReorderedMembers member member := by
  cases member with
  | none => exact .none
  | some value => exact .some (.refl value)

/-- Reordered values under one name make reordered documents. -/
theorem reordered_insert? (document : Document) (name : String) {first second : Option Value}
    (h : Value.ReorderedMembers first second) :
    Value.Reordered (.document (document.insert? name first))
      (.document (document.insert? name second)) := by
  cases h with
  | none => exact .refl _
  | @some a b hab =>
    refine .document ?_ fun key => ?_
    · simp only [Entries.insert?, Entries.names_insert, List.Perm.refl]
    · by_cases hkey : key = name
      · subst hkey
        rw [Entries.insert?, Entries.insert?, Entries.get?_insert_self, Entries.get?_insert_self]
        exact .some hab
      · rw [Entries.get?_insert?_of_ne _ hkey, Entries.get?_insert?_of_ne _ hkey]
        exact reorderedMembers_refl _

/-- Writes under different names may be made in either order. -/
theorem reordered_insert?_comm (document : Document) {first second : String} (hne : first ≠ second)
    (a b : Option Value) :
    Value.Reordered (.document ((document.insert? first a).insert? second b))
      (.document ((document.insert? second b).insert? first a)) := by
  refine .document ?_ fun key => ?_
  · exact Entries.names_insert?_comm document hne a b
  · rw [Entries.get?_insert?_comm document hne a b]
    exact reorderedMembers_refl _

end Document

end RestArchive
