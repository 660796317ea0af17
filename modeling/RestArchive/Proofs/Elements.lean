import Mathlib.Data.List.Forall2
import RestArchive.Proofs.Members

/-! # Changing the elements that carry an identifier

Elements are selected by their identifiers, and an element carries one identifier at most
(`ObjectId.eq_of_namesElement`). So a change that keeps the identifiers of what it changes, or drops
it, is not seen by whoever looks for another identifier (`find?_overElements_of_ne`), and two such
changes under different identifiers may be made in either order (`overElements_comm`). -/

namespace RestArchive

namespace ObjectId

/-- A value denotes one identifier at most. -/
theorem eq_of_denotedBy {first second : ObjectId} {value : Value} (hfirst : first.denotedBy value)
    (hsecond : second.denotedBy value) : first = second := by
  cases value with
  | objectId id => simp_all [denotedBy]
  | string text => simp_all [denotedBy]
  | _ => simp [denotedBy] at hfirst

/-- A document carries an identifier when its identifier field denotes it. -/
theorem namesElement_document_iff {id : ObjectId} {members : Document} :
    id.namesElement (.document members) ↔
      ∃ value, members.get? idField = some value ∧ id.denotedBy value := by
  cases h : members.get? idField <;> simp [namesElement, names, h]

/-- Only a document carries an identifier. -/
theorem exists_document_of_namesElement {id : ObjectId} {item : Value} (h : id.namesElement item) :
    ∃ members, item = .document members := by
  cases item with
  | document members => exact ⟨members, rfl⟩
  | _ => simp [namesElement] at h

/-- An element carries one identifier at most. -/
theorem eq_of_namesElement {first second : ObjectId} {item : Value}
    (hfirst : first.namesElement item) (hsecond : second.namesElement item) : first = second := by
  obtain ⟨members, rfl⟩ := exists_document_of_namesElement hfirst
  obtain ⟨value, hvalue, hdenoted⟩ := namesElement_document_iff.mp hfirst
  obtain ⟨value', hvalue', hdenoted'⟩ := namesElement_document_iff.mp hsecond
  rw [hvalue] at hvalue'
  cases hvalue'
  exact eq_of_denotedBy hdenoted hdenoted'

/-- An element that carries an identifier carries no other one. -/
theorem namesElement_eq_false_of_ne {first second : ObjectId} {item : Value} (hne : second ≠ first)
    (hfirst : first.namesElement item) : second.namesElement item = false := by
  rw [← Bool.not_eq_true]
  intro hsecond
  exact hne (eq_of_namesElement hsecond hfirst)

/-- A value that denotes an identifier is neither a document nor an array. -/
theorem plain_of_denotedBy {id : ObjectId} {value : Value} (h : id.denotedBy value) :
    Terminal.entered (some value) = none ∧ Terminal.listed (some value) = none := by
  cases value <;> simp [denotedBy] at h <;> exact ⟨rfl, rfl⟩

end ObjectId

namespace Terminal

/-- Changes or drops the elements of a list that carry an identifier, each by itself. -/
def overElements (id : ObjectId) (change : Value → Except StoreFailure (Option Value)) :
    List Value → Except StoreFailure (List Value)
  | [] => .ok []
  | item :: items =>
    (if id.namesElement item then change item else .ok (some item)).bind fun first =>
      (overElements id change items).bind fun others => .ok (first.toList ++ others)

/-- A change of elements that leaves their identifier on them. -/
def KeepsName (id : ObjectId) (change : Value → Except StoreFailure (Option Value)) : Prop :=
  ∀ item changed, id.namesElement item → change item = .ok (some changed) → id.namesElement changed

variable {id : ObjectId} {change : Value → Except StoreFailure (Option Value)}

/-- The first element is changed or dropped if it carries the identifier, and kept otherwise; the
others follow. -/
theorem overElements_cons_ok {item : Value} {items changed : List Value} :
    overElements id change (item :: items) = .ok changed ↔ ∃ first others,
      (if id.namesElement item then change item else .ok (some item)) = .ok first ∧
      overElements id change items = .ok others ∧ changed = first.toList ++ others := by
  simp only [overElements, bind_eq_ok_iff, Except.ok.injEq]
  constructor
  · rintro ⟨first, hfirst, others, hothers, rfl⟩
    exact ⟨first, others, hfirst, hothers, rfl⟩
  · rintro ⟨first, others, hfirst, hothers, rfl⟩
    exact ⟨first, hfirst, others, hothers, rfl⟩

/-- A first element without the identifier is kept. -/
theorem overElements_cons_of_not {item : Value} {items changed : List Value}
    (hitem : id.namesElement item = false) :
    overElements id change (item :: items) = .ok changed ↔ ∃ others,
      overElements id change items = .ok others ∧ changed = item :: others := by
  rw [overElements_cons_ok, hitem]
  simp

/-- A first element with the identifier is changed or dropped. -/
theorem overElements_cons_of_named {item : Value} {items changed : List Value}
    (hitem : id.namesElement item) :
    overElements id change (item :: items) = .ok changed ↔ ∃ first others,
      change item = .ok first ∧ overElements id change items = .ok others ∧
      changed = first.toList ++ others := by
  rw [overElements_cons_ok, if_pos hitem]

/-- Changing elements drops none of them. -/
theorem onElements_eq_overElements (id : ObjectId) (change : Value → Except StoreFailure Value)
    (items : List Value) :
    onElements id change items = overElements id (fun item => (change item).map some) items := by
  induction items with
  | nil => rfl
  | cons item items ih =>
    by_cases hitem : id.namesElement item
    · simp only [onElements, overElements, if_pos hitem, ← ih]
      cases change item with
      | error failure => rfl
      | ok first => cases onElements id change items <;> rfl
    · simp only [onElements, overElements, if_neg hitem, ← ih]
      cases onElements id change items <;> rfl

/-- Removing elements is dropping them. -/
theorem overElements_drop (id : ObjectId) (items : List Value) :
    overElements id (fun _ => .ok none) items =
      .ok (items.filter fun item => !id.namesElement item) := by
  induction items with
  | nil => rfl
  | cons item items ih =>
    by_cases h : id.namesElement item <;> simp [overElements, ih, h, Except.bind]

/-- Who looks for another identifier finds the same element as before. -/
theorem find?_overElements_of_ne (hkeeps : KeepsName id change) {other : ObjectId}
    (hne : other ≠ id) {items changed : List Value}
    (h : overElements id change items = .ok changed) :
    changed.find? other.namesElement = items.find? other.namesElement := by
  induction items generalizing changed with
  | nil =>
    cases h
    rfl
  | cons item items ih =>
    by_cases hitem : id.namesElement item
    · obtain ⟨first, others, hfirst, hothers, rfl⟩ := (overElements_cons_of_named hitem).mp h
      have hother := ObjectId.namesElement_eq_false_of_ne hne hitem
      rw [List.find?_cons_of_neg (by simp [hother])]
      cases first with
      | none => exact ih hothers
      | some value =>
        have hvalue := ObjectId.namesElement_eq_false_of_ne hne (hkeeps _ _ hitem hfirst)
        rw [Option.toList_some, List.singleton_append, List.find?_cons_of_neg (by simp [hvalue])]
        exact ih hothers
    · rw [Bool.not_eq_true] at hitem
      obtain ⟨others, hothers, rfl⟩ := (overElements_cons_of_not hitem).mp h
      rw [List.find?_cons, List.find?_cons, ih hothers]

/-- Changes under different identifiers may be made in either order. -/
theorem overElements_comm {other : ObjectId}
    {otherChange : Value → Except StoreFailure (Option Value)} (hne : other ≠ id)
    (hkeeps : KeepsName id change) (hotherKeeps : KeepsName other otherChange)
    {items first firstSecond second secondFirst : List Value}
    (hfirst : overElements id change items = .ok first)
    (hfirstSecond : overElements other otherChange first = .ok firstSecond)
    (hsecond : overElements other otherChange items = .ok second)
    (hsecondFirst : overElements id change second = .ok secondFirst) :
    firstSecond = secondFirst := by
  induction items generalizing first firstSecond second secondFirst with
  | nil =>
    cases hfirst
    cases hsecond
    cases hfirstSecond
    cases hsecondFirst
    rfl
  | cons item items ih =>
    by_cases hid : id.namesElement item
    · -- The element is one of the first change; the second change leaves it and what becomes of it.
      have hitem := ObjectId.namesElement_eq_false_of_ne hne hid
      obtain ⟨result, firsts, hresult, hfirsts, rfl⟩ := (overElements_cons_of_named hid).mp hfirst
      obtain ⟨seconds, hseconds, rfl⟩ := (overElements_cons_of_not hitem).mp hsecond
      obtain ⟨result', seconds', hresult', hseconds', rfl⟩ :=
        (overElements_cons_of_named hid).mp hsecondFirst
      cases hresult.symm.trans hresult'
      cases result with
      | none => exact ih hfirsts hfirstSecond hseconds hseconds'
      | some value =>
        have hvalue := ObjectId.namesElement_eq_false_of_ne hne (hkeeps _ _ hid hresult)
        obtain ⟨firsts', hfirsts', rfl⟩ := (overElements_cons_of_not hvalue).mp hfirstSecond
        rw [ih hfirsts hfirsts' hseconds hseconds']
        rfl
    · rw [Bool.not_eq_true] at hid
      obtain ⟨firsts, hfirsts, rfl⟩ := (overElements_cons_of_not hid).mp hfirst
      by_cases hother : other.namesElement item
      · -- The element is one of the second change, so the first one leaves it and what becomes of it.
        obtain ⟨result, firsts', hresult, hfirsts', rfl⟩ :=
          (overElements_cons_of_named hother).mp hfirstSecond
        obtain ⟨result', seconds, hresult', hseconds, rfl⟩ :=
          (overElements_cons_of_named hother).mp hsecond
        cases hresult.symm.trans hresult'
        cases result with
        | none => exact ih hfirsts hfirsts' hseconds hsecondFirst
        | some value =>
          have hvalue :=
            ObjectId.namesElement_eq_false_of_ne (Ne.symm hne) (hotherKeeps _ _ hother hresult)
          obtain ⟨seconds', hseconds', rfl⟩ := (overElements_cons_of_not hvalue).mp hsecondFirst
          rw [ih hfirsts hfirsts' hseconds hseconds']
          rfl
      · rw [Bool.not_eq_true] at hother
        obtain ⟨firsts', hfirsts', rfl⟩ := (overElements_cons_of_not hother).mp hfirstSecond
        obtain ⟨seconds, hseconds, rfl⟩ := (overElements_cons_of_not hother).mp hsecond
        obtain ⟨seconds', hseconds', rfl⟩ := (overElements_cons_of_not hid).mp hsecondFirst
        rw [ih hfirsts hfirsts' hseconds hseconds']

/-! ## Two changes under one identifier -/

variable {edit : Value → Except StoreFailure Value}

/-- A first element with the identifier is changed. -/
theorem onElements_cons_of_named {item : Value} {items changed : List Value}
    (hitem : id.namesElement item) :
    onElements id edit (item :: items) = .ok changed ↔ ∃ first others,
      edit item = .ok first ∧ onElements id edit items = .ok others ∧ changed = first :: others := by
  simp only [onElements_eq_overElements, overElements_cons_of_named hitem, map_eq_ok_iff]
  constructor
  · rintro ⟨-, others, ⟨first, hfirst, rfl⟩, hothers, rfl⟩
    exact ⟨first, others, hfirst, hothers, rfl⟩
  · rintro ⟨first, others, hfirst, hothers, rfl⟩
    exact ⟨some first, others, ⟨first, hfirst, rfl⟩, hothers, rfl⟩

/-- A first element without the identifier is kept. -/
theorem onElements_cons_of_not {item : Value} {items changed : List Value}
    (hitem : id.namesElement item = false) :
    onElements id edit (item :: items) = .ok changed ↔ ∃ others,
      onElements id edit items = .ok others ∧ changed = item :: others := by
  simp only [onElements_eq_overElements, overElements_cons_of_not hitem]

/-- The first element with the identifier is, after the change, what became of it. -/
theorem find?_onElements_self
    (hkeeps : ∀ item changed, id.namesElement item → edit item = .ok changed →
      id.namesElement changed)
    {items changed : List Value} (h : onElements id edit items = .ok changed) :
    (items.find? id.namesElement = none ∧ changed.find? id.namesElement = none) ∨
      ∃ item result, items.find? id.namesElement = some item ∧ edit item = .ok result ∧
        changed.find? id.namesElement = some result := by
  induction items generalizing changed with
  | nil =>
    cases h
    exact Or.inl ⟨rfl, rfl⟩
  | cons item items ih =>
    by_cases hitem : id.namesElement item
    · obtain ⟨first, others, hfirst, -, rfl⟩ := (onElements_cons_of_named hitem).mp h
      exact Or.inr ⟨item, first, List.find?_cons_of_pos hitem, hfirst,
        List.find?_cons_of_pos (hkeeps item first hitem hfirst)⟩
    · rw [Bool.not_eq_true] at hitem
      obtain ⟨others, hothers, rfl⟩ := (onElements_cons_of_not hitem).mp h
      rw [List.find?_cons_of_neg (by simp [hitem]), List.find?_cons_of_neg (by simp [hitem])]
      exact ih hothers

/-- When two changes of one element give related values in either order, so do the changes of all
elements with one identifier. -/
theorem forall₂_onElements {other : Value → Except StoreFailure Value}
    {related : Value → Value → Prop} (hrefl : ∀ value, related value value)
    (hkeeps : ∀ item changed, id.namesElement item → edit item = .ok changed →
      id.namesElement changed)
    (hotherKeeps : ∀ item changed, id.namesElement item → other item = .ok changed →
      id.namesElement changed)
    (hrelated : ∀ item a ab b ba, id.namesElement item → edit item = .ok a → other a = .ok ab →
      other item = .ok b → edit b = .ok ba → related ab ba)
    {items first firstSecond second secondFirst : List Value}
    (hfirst : onElements id edit items = .ok first)
    (hfirstSecond : onElements id other first = .ok firstSecond)
    (hsecond : onElements id other items = .ok second)
    (hsecondFirst : onElements id edit second = .ok secondFirst) :
    List.Forall₂ related firstSecond secondFirst := by
  induction items generalizing first firstSecond second secondFirst with
  | nil =>
    cases hfirst
    cases hsecond
    cases hfirstSecond
    cases hsecondFirst
    exact .nil
  | cons item items ih =>
    by_cases hitem : id.namesElement item
    · -- What one change makes of the element still carries the identifier, so the other one acts on it.
      obtain ⟨a, as, ha, has, rfl⟩ := (onElements_cons_of_named hitem).mp hfirst
      obtain ⟨b, bs, hb, hbs, rfl⟩ := (onElements_cons_of_named hitem).mp hsecond
      obtain ⟨ab, abs, hab, habs, rfl⟩ :=
        (onElements_cons_of_named (hkeeps item a hitem ha)).mp hfirstSecond
      obtain ⟨ba, bas, hba, hbas, rfl⟩ :=
        (onElements_cons_of_named (hotherKeeps item b hitem hb)).mp hsecondFirst
      exact .cons (hrelated item a ab b ba hitem ha hab hb hba) (ih has habs hbs hbas)
    · rw [Bool.not_eq_true] at hitem
      obtain ⟨as, has, rfl⟩ := (onElements_cons_of_not hitem).mp hfirst
      obtain ⟨bs, hbs, rfl⟩ := (onElements_cons_of_not hitem).mp hsecond
      obtain ⟨abs, habs, rfl⟩ := (onElements_cons_of_not hitem).mp hfirstSecond
      obtain ⟨bas, hbas, rfl⟩ := (onElements_cons_of_not hitem).mp hsecondFirst
      exact .cons (hrefl item) (ih has habs hbs hbas)

end Terminal

end RestArchive
