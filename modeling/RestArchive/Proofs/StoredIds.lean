import Mathlib.Data.List.Forall2
import RestArchive.Proofs.DocumentId
import RestArchive.Proofs.Origins

/-! # The identifiers of stored documents

An operation that changes documents leaves the outlines of what stands in their identifier fields
(`map_key?_update` and its kin), if something stands there. Documents that all have identifiers have a
list of them (`Documents.HaveIds`). Each operation of the store leaves this list as it is, adds a new
identifier at its end or lets some of them fall out, and one lemma about the operation says which. -/

namespace RestArchive

/-- What may become of the identifiers of a collection, in order: nothing else; if `adds` holds, one
more; if `drops` holds, fewer. -/
inductive IdsTurn (adds drops : Prop) (ids : List ObjectId) : List ObjectId → Prop
  /-- They stay as they are. -/
  | same : IdsTurn adds drops ids ids
  /-- A new one comes to stand at the end. -/
  | added (id : ObjectId) (may : adds) (isNew : id ∉ ids) : IdsTurn adds drops ids (ids ++ [id])
  /-- Some of them fall out. -/
  | dropped (kept : List ObjectId) (may : drops) (sublist : kept.Sublist ids) :
      IdsTurn adds drops ids kept

namespace IdsTurn

variable {adds drops : Prop} {ids after : List ObjectId}

/-- Identifiers that are distinct stay so. -/
theorem nodup (h : IdsTurn adds drops ids after) (hnodup : ids.Nodup) : after.Nodup := by
  cases h with
  | same => exact hnodup
  | added id may isNew =>
    rw [List.nodup_append]
    refine ⟨hnodup, by simp, ?_⟩
    rintro other hother _ hmem rfl
    rw [List.mem_singleton.mp hmem] at hother
    exact isNew hother
  | dropped _ may sublist => exact hnodup.sublist sublist

/-- What may happen may also happen when more is allowed. -/
theorem mono {moreAdds moreDrops : Prop} (hadds : adds → moreAdds) (hdrops : drops → moreDrops)
    (h : IdsTurn adds drops ids after) : IdsTurn moreAdds moreDrops ids after := by
  cases h with
  | same => exact .same
  | added id may isNew => exact .added id (hadds may) isNew
  | dropped _ may sublist => exact .dropped after (hdrops may) sublist

end IdsTurn

namespace Documents

variable {documents rest : Documents} {check : Document → Except StoreFailure Unit}

/-! ## What the operations of the store leave in the identifier fields -/

/-- Whether something stands in every identifier field, and its outline is one of those asked for. -/
def KeyedBy (Holds : Value → Prop) (documents : Documents) : Prop :=
  ∀ document ∈ documents, ∃ key, document.key? = some key ∧ Holds key

/-- Whether something stands in every identifier field. -/
abbrev Keyed (documents : Documents) : Prop := documents.KeyedBy fun _ => True

/-- A change of the first document that passes a test leaves what is read off the documents when it
leaves what is read off this one. -/
theorem map_changeFirst {α : Type} {read : Document → α} {test : Document → Bool}
    {change : Document → Except StoreFailure Document} {answer : Option Document}
    (hchange : ∀ document ∈ documents, ∀ changed, test document → change document = .ok changed →
      read changed = read document)
    (h : documents.changeFirst test change = .ok (answer, rest)) :
    rest.map read = documents.map read := by
  induction documents generalizing answer rest with
  | nil =>
    cases h
    rfl
  | cons document others ih =>
    obtain ⟨hdocument, hothers⟩ := List.forall_mem_cons.mp hchange
    rw [changeFirst] at h
    split at h
    case isTrue htest =>
      obtain ⟨changed, hchanged, heq⟩ := map_eq_ok_iff.mp h
      cases heq
      rw [List.map_cons, List.map_cons, hdocument changed htest hchanged]
    case isFalse =>
      obtain ⟨⟨_, kept⟩, hkept, heq⟩ := map_eq_ok_iff.mp h
      cases heq
      rw [List.map_cons, List.map_cons, ih hothers hkept]

/-- Updating the document of an identifier leaves the identifier fields. -/
theorem map_key?_update {id : ObjectId} {update : Update} {answer : Option Document}
    (hkeyed : documents.Keyed) (h : documents.update check id update = .ok (answer, rest)) :
    rest.map Document.key? = documents.map Document.key? := by
  refine map_changeFirst (fun document hmem changed _ hchanged => ?_) h
  simp only [block_eq_ok_iff, pure_eq_ok_iff] at hchanged
  obtain ⟨_, hupdate, _, -, rfl⟩ := hchanged
  obtain ⟨key, hkey, -⟩ := hkeyed document hmem
  rw [hkey, Document.key?_apply hkey hupdate]

/-- Updating the first document that meets a filter leaves the identifier fields. -/
theorem map_key?_updateFirst {filter : Filter} {values : Document} {answer : Option Document}
    (hkeyed : documents.Keyed)
    (h : documents.updateFirst check filter values = .ok (answer, rest)) :
    rest.map Document.key? = documents.map Document.key? := by
  refine map_changeFirst (fun document hmem changed _ hchanged => ?_) h
  simp only [block_eq_ok_iff, pure_eq_ok_iff] at hchanged
  obtain ⟨_, hset, _, -, rfl⟩ := hchanged
  obtain ⟨key, hkey, -⟩ := hkeyed document hmem
  rw [hkey, Document.key?_setAll hkey hset]

/-- Replacing the first document that meets a filter leaves the identifier fields. -/
theorem map_key?_replaceFirst {filter : Filter} {document : Document} {answer : Option Document}
    (h : documents.replaceFirst check filter document = .ok (answer, rest)) :
    rest.map Document.key? = documents.map Document.key? := by
  refine map_changeFirst (fun kept _ changed _ hchanged => ?_) h
  simp only [block_eq_ok_iff, pure_eq_ok_iff] at hchanged
  obtain ⟨_, -, rfl⟩ := hchanged
  rw [Document.key?, Document.get?_withIdOf, Document.key?]

/-- Updating every document that meets a filter leaves the identifier fields. -/
theorem map_key?_updateMany {filter : Filter} {values : Document} {summary : UpdateSummary}
    (hkeyed : documents.Keyed)
    (h : documents.updateMany check filter values = .ok (summary, rest)) :
    rest.map Document.key? = documents.map Document.key? := by
  induction documents generalizing summary rest with
  | nil =>
    cases h
    rfl
  | cons document others ih =>
    obtain ⟨⟨key, hkey, -⟩, hothers⟩ := List.forall_mem_cons.mp hkeyed
    rw [updateMany] at h
    split at h
    · simp only [block_eq_ok_iff] at h
      obtain ⟨changed, hchanged, _, -, ⟨_, behind⟩, hbehind, hresult⟩ := h
      split at hresult
      · cases hresult
        rw [List.map_cons, List.map_cons, ih hothers hbehind]
      · cases hresult
        rw [List.map_cons, List.map_cons, ih hothers hbehind, hkey,
          Document.key?_setAll hkey hchanged]
    · simp only [block_eq_ok_iff] at h
      obtain ⟨⟨_, behind⟩, hbehind, hresult⟩ := h
      cases hresult
      rw [List.map_cons, List.map_cons, ih hothers hbehind]

/-! ## Lists of identifiers -/

/-- Whether documents have the identifiers of a list, one by one. -/
def HaveIds (documents : Documents) (ids : List ObjectId) : Prop :=
  List.Forall₂ Document.HasId documents ids

variable {ids : List ObjectId}

/-- Documents have the identifiers of a list when these are the outlines of what stands in their
identifier fields. -/
theorem haveIds_iff_map_key? :
    documents.HaveIds ids ↔ documents.map Document.key? = ids.map fun id => some (.objectId id) := by
  rw [HaveIds, ← List.forall₂_eq_eq_eq, List.forall₂_map_left_iff, List.forall₂_map_right_iff]
  exact ⟨List.Forall₂.imp fun _ _ => Document.hasId_iff_key?.mp,
    List.Forall₂.imp fun _ _ => Document.hasId_iff_key?.mpr⟩

namespace HaveIds

/-- Each document has an identifier of the list. -/
theorem exists_hasId (hids : documents.HaveIds ids) {document : Document}
    (hmem : document ∈ documents) : ∃ id ∈ ids, document.HasId id := by
  have hkey : document.key? ∈ documents.map Document.key? := List.mem_map_of_mem hmem
  rw [haveIds_iff_map_key?.mp hids] at hkey
  obtain ⟨id, hid, heq⟩ := List.mem_map.mp hkey
  exact ⟨id, hid, Document.hasId_iff_key?.mpr heq.symm⟩

/-- Documents that have identifiers have something in their identifier fields. -/
theorem keyed (hids : documents.HaveIds ids) : documents.Keyed := by
  intro document hmem
  obtain ⟨id, -, hid⟩ := hids.exists_hasId hmem
  exact ⟨.objectId id, Document.hasId_iff_key?.mp hid, trivial⟩

/-- Documents with the same identifier fields have the same identifiers. -/
theorem of_map_key? (hids : documents.HaveIds ids)
    (h : rest.map Document.key? = documents.map Document.key?) : rest.HaveIds ids :=
  haveIds_iff_map_key?.mpr (h.trans (haveIds_iff_map_key?.mp hids))

/-- An identifier of the list is the one of some document. -/
theorem exists_of_mem (hids : documents.HaveIds ids) {id : ObjectId} (hmem : id ∈ ids) :
    ∃ document ∈ documents, document.HasId id := by
  induction hids with
  | nil => cases hmem
  | cons hid hids ih =>
    rcases List.mem_cons.mp hmem with rfl | hmem
    · exact ⟨_, List.mem_cons_self, hid⟩
    · obtain ⟨document, hdocument, hhas⟩ := ih hmem
      exact ⟨document, List.mem_cons_of_mem _ hdocument, hhas⟩

/-- Documents that are left have identifiers that are left. -/
theorem sublist (hids : documents.HaveIds ids) (h : rest.Sublist documents) :
    ∃ kept, rest.HaveIds kept ∧ kept.Sublist ids := by
  induction h generalizing ids with
  | slnil => exact ⟨[], .nil, ids.nil_sublist⟩
  | cons document h ih =>
    cases hids with
    | cons hid hids =>
      obtain ⟨kept, hkept, hsublist⟩ := ih hids
      exact ⟨kept, hkept, hsublist.cons _⟩
  | cons_cons document h ih =>
    cases hids with
    | cons hid hids =>
      obtain ⟨kept, hkept, hsublist⟩ := ih hids
      exact ⟨_ :: kept, .cons hid hkept, hsublist.cons_cons _⟩

/-- A document with an identifier behind the others. -/
theorem append (hids : documents.HaveIds ids) {document : Document} {id : ObjectId}
    (hid : document.HasId id) : HaveIds (documents ++ [document]) (ids ++ [id]) :=
  List.rel_append hids (.cons hid .nil)

end HaveIds

/-! ## What the operations of the store do to the identifiers -/

/-- When no document passes the test, none is changed. -/
theorem eq_of_changeFirst_none {test : Document → Bool}
    {change : Document → Except StoreFailure Document}
    (h : documents.changeFirst test change = .ok (none, rest)) :
    rest = documents ∧ ∀ document ∈ documents, test document = false := by
  induction documents generalizing rest with
  | nil =>
    cases h
    exact ⟨rfl, by simp⟩
  | cons document documents ih =>
    rw [changeFirst] at h
    split at h
    case isTrue =>
      obtain ⟨changed, -, heq⟩ := map_eq_ok_iff.mp h
      cases heq
    case isFalse htest =>
      obtain ⟨⟨_, others⟩, hothers, heq⟩ := map_eq_ok_iff.mp h
      cases heq
      obtain ⟨rfl, hnone⟩ := ih hothers
      exact ⟨rfl, by simpa [htest] using hnone⟩

/-- Updating the document of an identifier leaves the identifiers. -/
theorem haveIds_update {id : ObjectId} {update : Update} {answer : Option Document}
    (hids : documents.HaveIds ids)
    (h : documents.update check id update = .ok (answer, rest)) : rest.HaveIds ids :=
  hids.of_map_key? (map_key?_update hids.keyed h)

/-- Updating the first document that meets a filter leaves the identifiers. -/
theorem haveIds_updateFirst {filter : Filter} {values : Document} {answer : Option Document}
    (hids : documents.HaveIds ids)
    (h : documents.updateFirst check filter values = .ok (answer, rest)) : rest.HaveIds ids :=
  hids.of_map_key? (map_key?_updateFirst hids.keyed h)

/-- Replacing the first document that meets a filter leaves the identifiers. -/
theorem haveIds_replaceFirst {filter : Filter} {document : Document} {answer : Option Document}
    (hids : documents.HaveIds ids)
    (h : documents.replaceFirst check filter document = .ok (answer, rest)) :
    rest.HaveIds ids :=
  hids.of_map_key? (map_key?_replaceFirst h)

/-- Updating every document that meets a filter leaves the identifiers. -/
theorem haveIds_updateMany {filter : Filter} {values : Document} {summary : UpdateSummary}
    (hids : documents.HaveIds ids)
    (h : documents.updateMany check filter values = .ok (summary, rest)) : rest.HaveIds ids :=
  hids.of_map_key? (map_key?_updateMany hids.keyed h)

/-- A document that is put in the place of another takes its identifier; one that is added has a new
one. -/
theorem haveIds_replace {id : ObjectId} {document : Document} {upsert : Bool}
    {answer : Option Document} (hids : documents.HaveIds ids)
    (h : documents.replace check id document upsert = .ok (answer, rest)) :
    rest.HaveIds ids ∨ (id ∉ ids ∧ rest.HaveIds (ids ++ [id])) := by
  simp only [replace, block_eq_ok_iff] at h
  obtain ⟨_, -, ⟨found, others⟩, hothers, hresult⟩ := h
  have hkept : HaveIds others ids := by
    refine hids.of_map_key? (map_changeFirst (fun kept hmem changed hnames hchanged => ?_) hothers)
    cases hchanged
    obtain ⟨own, -, hown⟩ := hids.exists_hasId hmem
    cases hown.names_iff.mp hnames
    rw [Document.hasId_iff_key?.mp hown,
      Document.hasId_iff_key?.mp (Document.HasId.insert document id)]
  split at hresult
  case isTrue hnone =>
    cases hresult
    rw [Bool.and_eq_true, Option.isNone_iff_eq_none] at hnone
    -- Nothing was replaced, so no document carries the identifier.
    have hfound : found = none := hnone.1
    subst hfound
    obtain ⟨rfl, habsent⟩ := eq_of_changeFirst_none hothers
    refine Or.inr ⟨fun hmem => ?_, hkept.append (Document.HasId.insert document id)⟩
    obtain ⟨other, hother, hhas⟩ := hkept.exists_of_mem hmem
    have hnames := hhas.names_iff.mpr rfl
    rw [habsent other hother] at hnames
    cases hnames
  case isFalse =>
    cases hresult
    exact Or.inl hkept

/-- A document that is added has a new identifier. -/
theorem haveIds_insert {name : String} {document answer : Document} {id : ObjectId}
    (hids : documents.HaveIds ids) (hid : document.HasId id)
    (h : documents.insert check name document = .ok (answer, rest)) :
    id ∉ ids ∧ rest.HaveIds (ids ++ [id]) := by
  obtain ⟨value, hvalue, -, -, rfl, hdiffers⟩ := exists_of_insert h
  refine ⟨fun hmem => ?_, hids.append hid⟩
  obtain ⟨other, hother, hhas⟩ := hids.exists_of_mem hmem
  cases hid.symm.trans hvalue
  have hfalse := hdiffers other hother _ hhas
  simp [Value.same] at hfalse

/-- Whether documents have identifiers that may have become of those of a list. -/
def TurnIds (documents : Documents) (adds drops : Prop) (ids : List ObjectId) : Prop :=
  ∃ after, documents.HaveIds after ∧ IdsTurn adds drops ids after

end Documents

end RestArchive
