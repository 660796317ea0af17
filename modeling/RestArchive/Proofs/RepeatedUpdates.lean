import RestArchive.Proofs.Denotation
import RestArchive.Proofs.EqualValues
import RestArchive.Proofs.Places

/-! # Updates that are made again

Who does not know whether an update was taken over makes it again. If it puts a value at one path, or
removes elements, the second time changes nothing: it does not fail, and it finds everything as it would
leave it (`Terminal.apply_again`). It may go another way than the first time did, since what was missing is
there now, and elements that were selected may carry another identifier or be gone.

Only what is put at the path of the identifier field has to be the same as what is there. That is asked of
the new value the second time, which is the same as itself because it was the same as the old one
(`Value.same_self_of_same`). -/

namespace RestArchive

/-! ## Values that are the same -/

namespace Value

/-- Every member is the same as its namesake in the other document when each is. -/
theorem sameMembers_iff {first second : List (String × Value)} :
    sameMembers first second ↔
      ∀ entry ∈ first, ∃ value, Entries.get? second entry.1 = some value ∧ entry.2.same value := by
  induction first with
  | nil => simp [sameMembers]
  | cons entry first ih =>
    obtain ⟨name, value⟩ := entry
    rw [sameMembers, Bool.and_eq_true, ih, List.forall_mem_cons]
    cases Entries.get? second name <;> simp

/-- Two lists are the same when their items are, one by one. -/
theorem sameItems_iff {first second : List Value} :
    sameItems first second ↔ List.Forall₂ (fun a b => a.same b) first second := by
  induction first generalizing second with
  | nil => cases second <;> simp [sameItems]
  | cons a first ih => cases second <;> simp [sameItems, ih]

/-- Only an array is the same as an array, item by item. -/
theorem same_array_iff {items : List Value} {second : Value} : (array items).same second ↔
    ∃ others, second = .array others ∧ List.Forall₂ (fun a b => a.same b) items others := by
  simp only [← sameItems_iff]
  cases second <;> simp [same]

/-- Only a document is the same as a document: one of as many members, each the same as its namesake. -/
theorem same_document_iff {members : Document} {second : Value} : (document members).same second ↔
    ∃ others : Document, second = .document others ∧ members.length = others.length ∧
      ∀ entry ∈ members, ∃ value, others.get? entry.1 = some value ∧ entry.2.same value := by
  simp only [← sameMembers_iff]
  cases second <;> simp [same]

/-- Only code with variables is the same as code with variables: the same code, whose variables are the
same. -/
theorem same_codeWithScope_iff {text : String} {scope : Document} {second : Value} :
    (codeWithScope text scope).same second ↔ ∃ others : Document, second = .codeWithScope text others ∧
      (document scope).same (.document others) := by
  cases second with
  | codeWithScope text' others =>
    simp only [same, Bool.and_eq_true, decide_eq_true_eq, codeWithScope.injEq]
    constructor
    · rintro ⟨⟨rfl, hlength⟩, hmembers⟩
      exact ⟨others, ⟨rfl, rfl⟩, hlength, hmembers⟩
    · rintro ⟨_, ⟨rfl, rfl⟩, hlength, hmembers⟩
      exact ⟨⟨rfl, hlength⟩, hmembers⟩
  | _ => simp [same]

/-- What is the same as a scalar is the same as itself. -/
theorem same_self_of_isScalar {first second : Value} (hscalar : first.IsScalar)
    (h : first.same second) : second.same second := by
  cases first with
  | array items => exact hscalar.elim
  | document members => exact hscalar.elim
  | codeWithScope text scope => exact hscalar.elim
  | double double =>
    cases second with
    | double other =>
      rw [same, Binary64.same, Magnitude.same_iff] at h ⊢
      exact ⟨rfl, h.1 ▸ h.2⟩
    | _ => simp [same] at h
  | _ => cases second <;> simp_all [same]

/-- What is the same as a document of distinct names is the same as itself, if this holds of the members. -/
theorem same_self_of_same_document {members others : Document} (hnodup : members.names.Nodup)
    (hself : ∀ entry ∈ members, ∀ other : Value, entry.2.same other → other.same other)
    (h : (document members).same (.document others)) : (document others).same (.document others) := by
  obtain ⟨_, ⟨⟩, hlength, hmembers⟩ := same_document_iff.mp h
  have hnames := names_perm_of_namesakes (fun a b => a.same b) hnodup hlength hmembers
  have hothers : others.names.Nodup := hnames.nodup_iff.mp hnodup
  refine same_document_iff.mpr ⟨others, rfl, rfl, fun entry hentry => ?_⟩
  refine ⟨entry.2, Entries.get?_of_mem hothers hentry, ?_⟩
  -- The names are those of the first document, so the member has a namesake there.
  have hname : entry.1 ∈ members.names :=
    hnames.symm.subset (List.mem_map.mpr ⟨entry, hentry, rfl⟩)
  obtain ⟨namesake, hnamesake, hsame⟩ := List.mem_map.mp hname
  obtain ⟨value, hvalue, hvalueSame⟩ := hmembers namesake hnamesake
  rw [hsame, Entries.get?_of_mem hothers hentry, Option.some_inj] at hvalue
  subst hvalue
  exact hself namesake hnamesake _ hvalueSame

/-- What is the same as a value of distinct names is the same as itself. -/
theorem same_self_of_same {first second : Value} (hdistinct : first.DistinctNames)
    (h : first.same second) : second.same second := by
  induction hdistinct generalizing second with
  | scalar hscalar => exact same_self_of_isScalar hscalar h
  | @array items _ ih =>
    obtain ⟨others, rfl, hitems⟩ := same_array_iff.mp h
    have hself : ∀ item ∈ items, ∀ other : Value, item.same other → other.same other :=
      fun item hitem _ => ih item hitem
    have hboth : List.Forall₂ (fun item other : Value => other.same other ∧ item.same other)
        items others :=
      ((List.forall₂_and_left items others).mpr ⟨hself, hitems⟩).imp
        fun item other ⟨hitem, hsame⟩ => ⟨hitem other hsame, hsame⟩
    have hothers := (List.forall₂_and_left (R := fun other item : Value => item.same other)
      others items).mp hboth.flip
    exact same_array_iff.mpr ⟨others, rfl, List.forall₂_same.mpr hothers.1⟩
  | document hnodup _ ih =>
    obtain ⟨others, rfl, -⟩ := same_document_iff.mp h
    exact same_self_of_same_document hnodup (fun entry hentry _ => ih entry hentry) h
  | codeWithScope hnodup _ ih =>
    obtain ⟨others, rfl, hscope⟩ := same_codeWithScope_iff.mp h
    exact same_codeWithScope_iff.mpr
      ⟨others, rfl, same_self_of_same_document hnodup (fun entry hentry _ => ih entry hentry) hscope⟩

end Value

/-! ## One step, made again -/

namespace Terminal

variable {terminal : Terminal}

/-- Whether an update at the end of a path finds what it has made there as it would make it: all do but those
that add. -/
def Settles (terminal : Terminal) : Prop := ∀ value, terminal ≠ .push value

/-- What was put in the place of a value stays, and so does what elements were removed from. -/
theorem onValue_again (hsettles : terminal.Settles) {field : String} {value result : Value}
    (h : terminal.onValue field value = .ok result) : terminal.onValue field result = .ok result := by
  cases terminal with
  | set new =>
    cases h
    rfl
  | push new => exact absurd rfl (hsettles new)
  | pull id =>
    cases value with
    | array items =>
      cases h
      simp [onValue]
    | _ => cases h

/-- A member that a path ends at stays as it was made. -/
theorem onLast_again (hsettles : terminal.Settles) {name : String} {member result : Option Value}
    (h : terminal.onLast name member = .ok result) : terminal.onLast name result = .ok result := by
  cases terminal with
  | set new =>
    cases h
    rfl
  | push new => exact absurd rfl (hsettles new)
  | pull id =>
    cases member with
    | none =>
      cases h
      rfl
    | some value =>
      obtain ⟨after, hafter, rfl⟩ := map_eq_ok_iff.mp h
      exact map_eq_ok_iff.mpr ⟨after, onValue_again hsettles hafter, rfl⟩

/-- Elements stay as they were made, those that do not carry the identifier any more included. -/
theorem onElements_again {id : ObjectId} {edit : Value → Except StoreFailure Value}
    (hedit : ∀ item result, edit item = .ok result → edit result = .ok result)
    {items changed : List Value} (h : onElements id edit items = .ok changed) :
    onElements id edit changed = .ok changed := by
  induction items generalizing changed with
  | nil =>
    cases h
    rfl
  | cons item items ih =>
    by_cases hitem : id.namesElement item
    · obtain ⟨first, others, hfirst, hothers, rfl⟩ := (onElements_cons_of_named hitem).mp h
      by_cases hnamed : id.namesElement first
      · exact (onElements_cons_of_named hnamed).mpr
          ⟨first, others, hedit item first hfirst, ih hothers, rfl⟩
      · exact (onElements_cons_of_not (by simpa using hnamed)).mpr ⟨others, ih hothers, rfl⟩
    · rw [Bool.not_eq_true] at hitem
      obtain ⟨others, hothers, rfl⟩ := (onElements_cons_of_not hitem).mp h
      exact (onElements_cons_of_not hitem).mpr ⟨others, ih hothers, rfl⟩

/-- Whether what an update makes along steps stays as it is when it is made again. -/
def Stays (terminal : Terminal) (steps : List Step) : Prop :=
  ∀ document changed : Document, terminal.along document steps = .ok changed →
    terminal.along changed steps = .ok changed

/-- An element stays as it was made if what is made behind it does. -/
theorem onElement_again (hsettles : terminal.Settles) {field : String} {rest : List Step}
    (hrest : terminal.Stays rest) {item result : Value}
    (h : terminal.onElement field rest item = .ok result) :
    terminal.onElement field rest result = .ok result := by
  cases rest with
  | nil => exact onValue_again hsettles h
  | cons step others =>
    cases item with
    | document members =>
      obtain ⟨inner, hinner, rfl⟩ := map_eq_ok_iff.mp h
      exact map_eq_ok_iff.mpr ⟨inner, hrest members inner hinner, rfl⟩
    | _ =>
      cases h
      rfl

/-- A member stays as a step made it if what is made behind the step does. -/
theorem onMember_again (hsettles : terminal.Settles) {rest : List Step} (hrest : terminal.Stays rest)
    {step : Step} {member result : Option Value}
    (h : terminal.onMember rest step member = .ok result) :
    terminal.onMember rest step result = .ok result := by
  cases result with
  | none =>
    -- Nothing was there, and nothing was made.
    obtain rfl := eq_none_of_onMember h
    exact h
  | some after =>
    cases step with
    | field name =>
      cases rest with
      | nil => exact onLast_again hsettles h
      | cons next others =>
        obtain ⟨members, inner, -, hinner, hafter⟩ := onMember_field (List.cons_ne_nil _ _) h
        rw [eq_document_of_entered hafter]
        exact map_eq_ok_iff.mpr ⟨inner, hrest members inner hinner, rfl⟩
    | «scoped» scope =>
      obtain ⟨items, changed, -, hchanged, hafter⟩ := onMember_scoped h
      have hagain := onElements_again (fun _ _ => onElement_again hsettles hrest) hchanged
      rw [eq_array_of_listed hafter]
      exact map_eq_ok_iff.mpr ⟨changed, hagain, rfl⟩

/-- What an update makes along steps stays. -/
theorem stays (hsettles : terminal.Settles) (steps : List Step) : terminal.Stays steps := by
  induction steps with
  | nil =>
    intro document changed h
    rfl
  | cons step rest ih =>
    intro document changed h
    obtain ⟨result, hresult, hchanged, hget⟩ := along_cons_ok h
    have hsame : changed.insert? step.member result = changed := by
      rw [← hget]
      exact Entries.insert?_get? changed step.member
    rw [along_cons, hget, onMember_again hsettles ih hresult]
    exact congrArg Except.ok hsame

end Terminal

/-! ## Updates -/

/-- The path that is the name of the identifier field is one step. -/
theorem Step.parse_idField (scopes : List Scope) : parse scopes idField = .ok [.field idField] := by
  have hsplit : Text.split '.' idField = [idField] := by decide
  have htoken : placeholderLabel? idField = none := by decide
  have hne : idField ≠ "" := by decide
  simp [parse, hne, hsplit, ofTokens, ofToken, htoken]

namespace Document

variable {document changed : Document}

/-- A value that was put at a path is put there again, also at the path of the identifier field: what was put
there was the same as what had been there, so it is the same as itself. -/
theorem setAt_again {scopes : List Scope} {path : String} {value : Value}
    (hid : document.contains idField) (hdistinct : (Value.document document).DistinctNames)
    (h : document.setAt scopes path value = .ok changed) :
    changed.setAt scopes path value = .ok changed := by
  have hpath : (Terminal.set value).atPath scopes changed path = .ok changed := by
    obtain ⟨steps, hsteps, halong⟩ := bind_eq_ok_iff.mp (atPath_of_setAt h)
    exact bind_eq_ok_iff.mpr ⟨steps, hsteps, Terminal.stays (by rintro _ ⟨⟩) steps _ _ halong⟩
  by_cases hname : path = idField
  · subst hname
    obtain ⟨current, hcurrent⟩ := Option.isSome_iff_exists.mp hid
    have hsame := same_of_setAt hcurrent h
    have hself := Value.same_self_of_same
      ((Value.distinctNames_document_iff.mp hdistinct).2 _ (Entries.mem_of_get? hcurrent)) hsame
    have hvalue : changed.get? idField = some value := by
      have halong := atPath_of_setAt h
      rw [Terminal.atPath, Step.parse_idField] at halong
      cases halong
      exact Entries.get?_insert_self document idField value
    simp [setAt, hvalue, hself, hpath]
  · simp [setAt, hname, hpath]

/-- A document that carries an identifier has an identifier field. -/
theorem contains_of_names {id : ObjectId} (hnames : id.names document) :
    document.contains idField := by
  rw [Entries.contains]
  cases hvalue : document.get? idField with
  | none => simp [ObjectId.names, hvalue] at hnames
  | some value => rfl

end Document

namespace Documents

variable {documents rest : Documents} {answer : Option Document}

/-- A change of the first document that passes a test is made again without effect if the changed document
passes the test, and stays as it is. -/
theorem changeFirst_again {test : Document → Bool} {change : Document → Except StoreFailure Document}
    (hagain : ∀ document ∈ documents, ∀ changed, test document → change document = .ok changed →
      test changed ∧ change changed = .ok changed)
    (h : documents.changeFirst test change = .ok (answer, rest)) :
    rest.changeFirst test change = .ok (answer, rest) := by
  induction documents generalizing rest with
  | nil =>
    cases h
    rfl
  | cons document documents ih =>
    rw [changeFirst] at h
    split at h
    case isTrue htest =>
      obtain ⟨changed, hchanged, heq⟩ := map_eq_ok_iff.mp h
      cases heq
      obtain ⟨hpasses, hsame⟩ := hagain document List.mem_cons_self changed htest hchanged
      rw [changeFirst, if_pos hpasses, hsame]
      rfl
    case isFalse htest =>
      obtain ⟨⟨found, others⟩, hothers, heq⟩ := map_eq_ok_iff.mp h
      cases heq
      have hbehind := ih (fun other hother => hagain other (List.mem_cons_of_mem _ hother)) hothers
      rw [changeFirst, if_neg htest, hbehind]
      rfl

end Documents

namespace Terminal

/-- An update that puts a value at one path of a document with an identifier field, or removes elements,
succeeds again once it has succeeded, and leaves the document as it has made it. So whoever makes such an
update of a stored document again is answered the same, and no document of the collection is changed. -/
theorem apply_again {terminal : Terminal} (hsettles : ∀ value, terminal ≠ .push value)
    (scopes : List Scope) (path : String) :
    (∀ document changed : Document, document.contains idField →
      (Value.document document).DistinctNames →
      (terminal.asUpdate scopes path).apply document = .ok changed →
      (terminal.asUpdate scopes path).apply changed = .ok changed) ∧
    ∀ (check : Document → Except StoreFailure Unit) (id : ObjectId) (documents : Documents)
      (answer : Option Document) (rest : Documents),
      (∀ document ∈ documents, (Value.document document).DistinctNames) →
      documents.update check id (terminal.asUpdate scopes path) = .ok (answer, rest) →
      rest.update check id (terminal.asUpdate scopes path) = .ok (answer, rest) := by
  have happly : ∀ document changed : Document, document.contains idField →
      (Value.document document).DistinctNames →
      (terminal.asUpdate scopes path).apply document = .ok changed →
      (terminal.asUpdate scopes path).apply changed = .ok changed := by
    intro document changed hid hdistinct h
    cases terminal with
    | set value =>
      obtain ⟨inner, hset, heq⟩ := bind_eq_ok_iff.mp h
      cases heq
      exact bind_eq_ok_iff.mpr ⟨changed, Document.setAt_again hid hdistinct hset, rfl⟩
    | push value => exact absurd rfl (hsettles value)
    | pull id =>
      obtain ⟨steps, hsteps, halong⟩ := bind_eq_ok_iff.mp h
      exact bind_eq_ok_iff.mpr ⟨steps, hsteps, stays hsettles steps _ _ halong⟩
  refine ⟨happly, fun check id documents answer rest hdistinct h => ?_⟩
  refine Documents.changeFirst_again (fun document hmem changed hnames hchange => ?_) h
  simp only [block_eq_ok_iff, pure_eq_ok_iff] at hchange ⊢
  obtain ⟨new, hnew, passed, hcheck, rfl⟩ := hchange
  refine ⟨Document.names_of_apply hnames hnew, new, ?_, passed, hcheck, rfl⟩
  exact happly document new (Document.contains_of_names hnames) (hdistinct document hmem) hnew

/-- A document with two rows. -/
def twoRows (first second : ObjectId) : Document :=
  [(idField, .objectId (.ofNat 7)),
    ("rows", .array [.document [(idField, .objectId first)], .document [(idField, .objectId second)]])]

/-- The scope of the first of them. -/
def firstRow : List Scope := [⟨"rows", "rows", .ofNat 1⟩]

/-- A row is given another identifier. There is no such row any more, and yet the update succeeds again. -/
theorem apply_again_renamedRow :
    ((set (.objectId (.ofNat 3))).asUpdate firstRow "$[rows]._id").apply
        (twoRows (.ofNat 1) (.ofNat 2)) = .ok (twoRows (.ofNat 3) (.ofNat 2)) ∧
      ((set (.objectId (.ofNat 3))).asUpdate firstRow "$[rows]._id").apply
        (twoRows (.ofNat 3) (.ofNat 2)) = .ok (twoRows (.ofNat 3) (.ofNat 2)) := by
  have happly : ((set (.objectId (.ofNat 3))).asUpdate firstRow "$[rows]._id").apply
      (twoRows (.ofNat 1) (.ofNat 2)) = .ok (twoRows (.ofNat 3) (.ofNat 2)) := rfl
  have hdistinct : (Value.document (twoRows (.ofNat 1) (.ofNat 2))).DistinctNames := by
    have hid : ∀ id, (Value.objectId id).DistinctNames :=
      fun id => .scalar trivial
    simp [twoRows, Value.distinctNames_document_iff, Value.distinctNames_array_iff, hid, idField]
  have hsettles : ∀ value, set (.objectId (.ofNat 3)) ≠ .push value := by rintro _ ⟨⟩
  obtain ⟨hagain, -⟩ := apply_again hsettles firstRow "$[rows]._id"
  exact ⟨happly, hagain _ _ (by decide) hdistinct happly⟩

end Terminal

end RestArchive
