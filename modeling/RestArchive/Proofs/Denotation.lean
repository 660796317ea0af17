import RestArchive.Proofs.Commands
import RestArchive.Proofs.StoredIds

/-! # What an identifier denotes

An identifier denotes the documents that carry it, as an identifier or as a text that writes it. An
addition only asks whether what the new document carries is the same as what another one carries, so it
can bring in a second document for one identifier (`not_unambiguous_respelled`). Nothing else can: as
long as no addition respells an identifier that a stored document carries, an identifier denotes one
document at most, and none any more once that is removed (`unambiguous_of_reachedBy`). -/

namespace RestArchive

namespace Value

/-- The identifier that a stored value denotes, if it denotes one. -/
def denoted? : Value → Option ObjectId
  | .objectId id => some id
  | .string text => ObjectId.ofHex? text
  | _ => none

/-- A value denotes an identifier when that is the one it denotes. -/
theorem denotedBy_iff {value : Value} {id : ObjectId} :
    id.denotedBy value ↔ value.denoted? = some id := by
  cases value <;> simp [ObjectId.denotedBy, denoted?, eq_comm]

/-- What a value denotes can be read off its outline. -/
theorem denoted?_outline (value : Value) : value.outline.denoted? = value.denoted? := by
  cases value <;> rfl

/-- A value that denotes an identifier is the same as itself. -/
theorem same_self_of_denotedBy {value : Value} {id : ObjectId} (h : id.denotedBy value) :
    value.same value := by
  cases value <;> simp [ObjectId.denotedBy, same] at h ⊢

end Value

namespace Document

/-- The identifier that denotes a document, if one does. -/
def denoted? (document : Document) : Option ObjectId := document.key?.bind Value.denoted?

/-- A document carries an identifier when that is the one that denotes it. -/
theorem names_iff_denoted? {document : Document} {id : ObjectId} :
    id.names document ↔ document.denoted? = some id := by
  cases hvalue : document.get? idField with
  | none => simp [ObjectId.names, denoted?, key?, hvalue]
  | some value =>
    simp [ObjectId.names, denoted?, key?, hvalue, Value.denoted?_outline, Value.denotedBy_iff]

/-- An update leaves a document with the identifier that it carries. -/
theorem names_of_apply {document changed : Document} {update : Update} {id : ObjectId}
    (hnames : id.names document) (h : update.apply document = .ok changed) : id.names changed := by
  rw [names_iff_denoted?, denoted?] at hnames ⊢
  obtain ⟨key, hkey, hdenoted⟩ := Option.bind_eq_some_iff.mp hnames
  rw [key?_apply hkey h]
  exact hdenoted

end Document

/-! ## Documents that no two of which carry one identifier -/

namespace Documents

variable {documents rest : Documents} {check : Document → Except StoreFailure Unit}

/-- Whether no two documents carry the same identifier. -/
def Unambiguous (documents : Documents) : Prop :=
  documents.Pairwise fun first second => ∀ id : ObjectId, ¬ (id.names first ∧ id.names second)

/-- That can be read off the identifiers that denote the documents. -/
theorem unambiguous_iff_map_denoted? :
    documents.Unambiguous ↔ (documents.map Document.denoted?).Pairwise fun first second =>
      ∀ id, ¬ (first = some id ∧ second = some id) := by
  simp only [Unambiguous, List.pairwise_map, Document.names_iff_denoted?]

namespace Unambiguous

/-- Documents that the same identifiers denote are as unambiguous. -/
theorem of_map_denoted? (h : documents.Unambiguous)
    (hmap : rest.map Document.denoted? = documents.map Document.denoted?) : rest.Unambiguous := by
  rw [unambiguous_iff_map_denoted?, hmap]
  exact unambiguous_iff_map_denoted?.mp h

/-- Documents with the same identifier fields are as unambiguous. -/
theorem of_map_key? (h : documents.Unambiguous)
    (hmap : rest.map Document.key? = documents.map Document.key?) : rest.Unambiguous := by
  have hdenoted := congrArg (List.map fun key => key.bind Value.denoted?) hmap
  rw [List.map_map, List.map_map] at hdenoted
  exact h.of_map_denoted? hdenoted

/-- The document that carries an identifier is the one that is found under it. -/
theorem get?_of_mem (h : documents.Unambiguous) {document : Document} {id : ObjectId}
    (hmem : document ∈ documents) (hnames : id.names document) :
    documents.get? id = some document := by
  induction documents with
  | nil => cases hmem
  | cons first others ih =>
    obtain ⟨hfirst, hothers⟩ := List.pairwise_cons.mp h
    rcases List.mem_cons.mp hmem with rfl | hmem
    · exact List.find?_cons_of_pos hnames
    · have hother : ¬ id.names first := fun hcarries => hfirst document hmem id ⟨hcarries, hnames⟩
      exact (List.find?_cons_of_neg hother).trans (ih hothers hmem)

/-- Once the document of an identifier is removed, none is found under it. -/
theorem get?_delete (h : documents.Unambiguous) (id : ObjectId) :
    (documents.delete id).2.get? id = none := by
  change List.find? id.names (documents.eraseP id.names) = none
  induction documents with
  | nil => rfl
  | cons first others ih =>
    obtain ⟨hfirst, hothers⟩ := List.pairwise_cons.mp h
    by_cases hnames : id.names first
    · rw [List.eraseP_cons_of_pos hnames, List.find?_eq_none]
      exact fun other hother hcarries => hfirst other hother id ⟨hnames, hcarries⟩
    · rw [List.eraseP_cons_of_neg hnames, List.find?_cons_of_neg hnames]
      exact ih hothers

end Unambiguous

/-- One more document leaves the others unambiguous when it carries no identifier of theirs. -/
theorem unambiguous_append_iff {document : Document} :
    Unambiguous (documents ++ [document]) ↔ documents.Unambiguous ∧
      ∀ other ∈ documents, ∀ id : ObjectId, ¬ (id.names other ∧ id.names document) := by
  simp [Unambiguous, List.pairwise_append]

/-- Documents that have distinct identifiers are unambiguous. -/
theorem HaveIds.unambiguous {ids : List ObjectId} (hids : documents.HaveIds ids)
    (hnodup : ids.Nodup) : documents.Unambiguous := by
  induction hids with
  | nil => exact .nil
  | @cons document id others behind hid hids ih =>
    obtain ⟨hnew, hnodup⟩ := List.nodup_cons.mp hnodup
    refine .cons (fun other hother shared hboth => hnew ?_) (ih hnodup)
    obtain ⟨otherId, hmem, hotherId⟩ := HaveIds.exists_hasId hids hother
    rw [← hid.names_iff.mp hboth.1, hotherId.names_iff.mp hboth.2]
    exact hmem

/-- A document that is put in the place of another carries the identifier of that, and one that is
added carries one that no other carries. -/
theorem unambiguous_replace {id : ObjectId} {document : Document} {upsert : Bool}
    {answer : Option Document} (h : documents.Unambiguous)
    (hreplace : documents.replace check id document upsert = .ok (answer, rest)) :
    rest.Unambiguous := by
  simp only [replace, block_eq_ok_iff] at hreplace
  obtain ⟨_, -, ⟨found, others⟩, hothers, hresult⟩ := hreplace
  have hid := Document.HasId.insert document id
  have hkept : Unambiguous others := by
    refine h.of_map_denoted? (map_changeFirst (fun kept _ changed hnames hchanged => ?_) hothers)
    cases hchanged
    rw [Document.names_iff_denoted?.mp hnames,
      Document.names_iff_denoted?.mp (hid.names_iff.mpr rfl)]
  split at hresult
  case isTrue hnone =>
    cases hresult
    rw [Bool.and_eq_true, Option.isNone_iff_eq_none] at hnone
    have hfound : found = none := hnone.1
    subst hfound
    obtain ⟨rfl, habsent⟩ := eq_of_changeFirst_none hothers
    refine unambiguous_append_iff.mpr ⟨hkept, fun other hother shared hboth => ?_⟩
    cases hid.names_iff.mp hboth.2
    rw [habsent other hother] at hboth
    cases hboth.1
  case isFalse =>
    cases hresult
    exact hkept

end Documents

/-! ## Commands -/

namespace Command

variable {documents rest : Documents} {check : Document → Except StoreFailure Unit}
  {collection : String} {asked : Command} {outcome : Outcome}

/-- Whether a command adds a document that carries an identifier which a stored one carries in another
spelling: as a text where that has it as an identifier, or in letters of another case. -/
def Respells (documents : Documents) : Command → Prop
  | .insert document => ∃ (id : ObjectId) (stored : Document), stored ∈ documents ∧
      id.names stored ∧ id.names document ∧ stored.get? idField ≠ document.get? idField
  | _ => False

/-- What holds of the outlines in the identifier fields holds of them after a command that succeeds, if
it holds of an identifier and of what the command adds. -/
theorem keyedBy_of_perform {Holds : Value → Prop} (hkeyed : documents.KeyedBy Holds)
    (hid : ∀ id, Holds (.objectId id))
    (hadded : ∀ document value, asked = .insert document → document.get? idField = some value →
      Holds value.outline)
    (h : asked.perform check collection documents = .ok (outcome, rest)) : rest.KeyedBy Holds := by
  intro document hmem
  rcases mem_or_writes h hmem with hold | ⟨hwrites, -⟩
  · exact hkeyed document hold
  · cases hwrites with
    | insert document =>
      obtain ⟨⟨_, _⟩, hinsert, -⟩ := map_eq_ok_iff.mp h
      obtain ⟨value, hvalue, -⟩ := Documents.exists_of_insert hinsert
      exact ⟨value.outline, by rw [Document.key?, hvalue, Option.map_some],
        hadded document value rfl hvalue⟩
    | replace id document upsert =>
      exact ⟨_, Document.hasId_iff_key?.mp (Document.HasId.insert document id), hid id⟩
    | replaceFirst filter document mem =>
      obtain ⟨key, hkey, hholds⟩ := hkeyed _ mem
      exact ⟨key, by rw [Document.key?, Document.get?_withIdOf]; exact hkey, hholds⟩
    | update id change mem apply =>
      obtain ⟨key, hkey, hholds⟩ := hkeyed _ mem
      exact ⟨key, Document.key?_apply hkey apply, hholds⟩
    | updateFirst filter values mem setAll =>
      obtain ⟨key, hkey, hholds⟩ := hkeyed _ mem
      exact ⟨key, Document.key?_setAll hkey setAll, hholds⟩
    | updateMany filter values mem setAll =>
      obtain ⟨key, hkey, hholds⟩ := hkeyed _ mem
      exact ⟨key, Document.key?_setAll hkey setAll, hholds⟩

/-- After a command that succeeds, something stands in every identifier field if it did before. -/
theorem keyed_of_perform (hkeyed : documents.Keyed)
    (h : asked.perform check collection documents = .ok (outcome, rest)) : rest.Keyed :=
  keyedBy_of_perform hkeyed (fun _ => trivial) (fun _ _ _ _ => trivial) h

/-- An addition that succeeds leaves documents unambiguous when it respells no identifier. -/
theorem unambiguous_insert_iff {document answer : Document} (h : documents.Unambiguous)
    (hinsert : documents.insert check collection document = .ok (answer, rest)) :
    rest.Unambiguous ↔ ¬ (insert document).Respells documents := by
  obtain ⟨value, hvalue, -, -, rfl, hdiffers⟩ := Documents.exists_of_insert hinsert
  rw [Documents.unambiguous_append_iff]
  constructor
  · rintro ⟨-, hapart⟩ ⟨id, stored, hstored, hnames, hcarries, -⟩
    exact hapart stored hstored id ⟨hnames, hcarries⟩
  · refine fun hspelled => ⟨h, fun other hother id hboth => hspelled ?_⟩
    refine ⟨id, other, hother, hboth.1, hboth.2, fun hequal => ?_⟩
    -- In the same spelling the addition would have been refused.
    rw [hvalue] at hequal
    have hdenoted : id.denotedBy value := by simpa [ObjectId.names, hequal] using hboth.1
    have hsame := Value.same_self_of_denotedBy hdenoted
    rw [hdiffers other hother value hequal] at hsame
    cases hsame

/-- A command that succeeds leaves documents unambiguous exactly when it respells no identifier. -/
theorem unambiguous_iff_of_perform (hkeyed : documents.Keyed) (h : documents.Unambiguous)
    (hperform : asked.perform check collection documents = .ok (outcome, rest)) :
    rest.Unambiguous ↔ ¬ asked.Respells documents := by
  cases asked with
  | insert document =>
    obtain ⟨⟨_, _⟩, hinsert, heq⟩ := map_eq_ok_iff.mp hperform
    cases heq
    exact unambiguous_insert_iff h hinsert
  | find filter projection limit =>
    cases hperform
    exact iff_of_true h not_false
  | get id =>
    cases hperform
    exact iff_of_true h not_false
  | replace id document upsert =>
    obtain ⟨⟨_, _⟩, hreplace, heq⟩ := map_eq_ok_iff.mp hperform
    cases heq
    exact iff_of_true (Documents.unambiguous_replace h hreplace) not_false
  | replaceFirst filter document =>
    obtain ⟨⟨_, _⟩, hreplace, heq⟩ := map_eq_ok_iff.mp hperform
    cases heq
    exact iff_of_true (h.of_map_key? (Documents.map_key?_replaceFirst hreplace)) not_false
  | update id change =>
    obtain ⟨⟨_, _⟩, hupdate, heq⟩ := map_eq_ok_iff.mp hperform
    cases heq
    exact iff_of_true (h.of_map_key? (Documents.map_key?_update hkeyed hupdate)) not_false
  | updateFirst filter values =>
    obtain ⟨⟨_, _⟩, hupdate, heq⟩ := map_eq_ok_iff.mp hperform
    cases heq
    exact iff_of_true (h.of_map_key? (Documents.map_key?_updateFirst hkeyed hupdate)) not_false
  | updateMany filter values =>
    obtain ⟨⟨_, _⟩, hupdate, heq⟩ := map_eq_ok_iff.mp hperform
    cases heq
    exact iff_of_true (h.of_map_key? (Documents.map_key?_updateMany hkeyed hupdate)) not_false
  | delete id =>
    cases hperform
    exact iff_of_true (h.sublist List.eraseP_sublist) not_false
  | deleteMany filter =>
    cases hperform
    exact iff_of_true (h.sublist List.filter_sublist) not_false

end Command

/-! ## Stores -/

namespace Store

/-- Whatever was asked of a store, from one without documents, and whether it succeeded or failed: if
no addition that succeeded respelled an identifier of its collection, no two documents of a collection
carry the same identifier, and a command that succeeds leaves it so exactly when it does not respell one
either. Once a document is removed under an identifier, none is found under it. -/
theorem unambiguous_of_reachedBy {validator : Validator} {store : Store}
    (h : ReachedBy (fun documents asked => ¬ asked.Respells documents) validator store)
    (collection : String) :
    (store.documents collection).Unambiguous ∧
      (∀ asked outcome, (store.command validator collection asked).1 = .ok outcome →
        (((store.command validator collection asked).2.documents collection).Unambiguous ↔
          ¬ asked.Respells (store.documents collection))) ∧
      ∀ id, ((store.command validator collection (.delete id)).2.command validator collection
        (.get id)).1 = .ok (.document none) := by
  obtain ⟨hkeyed, hunambiguous⟩ := h.induction
    (fun _ documents => documents.Keyed ∧ documents.Unambiguous)
    (fun _ => ⟨fun _ hnone => absurd hnone List.not_mem_nil, .nil⟩)
    (fun _ _ _ _ _ hold hallowed hperform => ⟨Command.keyed_of_perform hold.1 hperform,
      (Command.unambiguous_iff_of_perform hold.1 hold.2 hperform).mpr hallowed⟩) collection
  refine ⟨hunambiguous, fun asked outcome hok => ?_, fun id => ?_⟩
  · obtain ⟨rest, hperform, hstore⟩ := command_ok hok
    rw [hstore, documents_put_self]
    exact Command.unambiguous_iff_of_perform hkeyed hunambiguous hperform
  · simp only [command, run, Command.perform, documents_put_self, hunambiguous.get?_delete id]

/-- A document with an identifier, one with a text that writes another, and a third one under that. -/
def spelledApart : Store :=
  let text : Value := .string (ObjectId.ofNat 8).toHex
  let first := (empty.command .none "notes" (.insert [(idField, .objectId (.ofNat 7))])).2
  let second := (first.command .none "notes" (.insert [(idField, text)])).2
  (second.command .none "notes" (.replace (.ofNat 8) [("n", .int32 1)] true)).2

/-- Its documents can be told apart, and none is found under an identifier once that is removed. -/
theorem unambiguous_of_reachedBy_spelledApart :
    spelledApart.documents "notes" =
        [[(idField, .objectId (.ofNat 7))],
          [("n", .int32 1), (idField, .objectId (.ofNat 8))]] ∧
      (spelledApart.documents "notes").Unambiguous ∧
      ((spelledApart.command .none "notes" (.delete (.ofNat 8))).2.command .none "notes"
        (.get (.ofNat 8))).1 = .ok (.document none) := by
  have hreached : ReachedBy (fun documents asked => ¬ asked.Respells documents) .none
      spelledApart := by
    refine .step "notes" _ (.step "notes" _ (.step "notes" _ .start ?_) ?_) fun _ _ => not_false
    · rintro - - ⟨id, stored, hmem, -⟩
      cases hmem
    · rintro - - ⟨id, stored, hmem, hnames, hcarries, -⟩
      have hstored : stored = [(idField, .objectId (.ofNat 7))] := List.mem_singleton.mp hmem
      subst hstored
      rw [Document.names_iff_denoted?] at hnames hcarries
      exact absurd (hnames.trans hcarries.symm) (by decide)
  have h := unambiguous_of_reachedBy hreached "notes"
  exact ⟨by rfl, h.1, h.2.2 (.ofNat 8)⟩

/-- A document with an identifier, and one with the text that writes it. -/
def respelled : Store :=
  let first := (empty.command .none "notes" (.insert [(idField, .objectId (.ofNat 7))])).2
  (first.command .none "notes" (.insert [(idField, .string (ObjectId.ofNat 7).toHex)])).2

/-- Both are stored, so one identifier denotes two documents: after one of them is removed under it,
the other one is found. -/
theorem not_unambiguous_respelled :
    Reached .none respelled ∧ ¬ (respelled.documents "notes").Unambiguous ∧
      (respelled.command .none "notes" (.delete (.ofNat 7))).1 = .ok (.deleted 1) ∧
      ((respelled.command .none "notes" (.delete (.ofNat 7))).2.command .none "notes"
        (.get (.ofNat 7))).1 =
        .ok (.document (some [(idField, .string (ObjectId.ofNat 7).toHex)])) := by
  refine ⟨.step "notes" _ (.step "notes" _ .start), fun hunambiguous => ?_, by rfl, by rfl⟩
  have hnone := hunambiguous.get?_delete (.ofNat 7)
  cases hnone

end Store

end RestArchive
