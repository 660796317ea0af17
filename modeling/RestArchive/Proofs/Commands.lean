import RestArchive.Access.Run
import RestArchive.Proofs.Origins
import RestArchive.Rules

/-! # Commands to a store

The operations of a store as data, so that one can speak of every sequence of them. A command runs
on one collection; the store takes over what it gives (`command_ok`), or stays as it was
(`command_error`). What each command keeps of the documents of a collection holds in every store
that commands lead to (`Reached.induction`), and so does what the documents that it writes
(`mem_or_writes`) have; what only some commands keep holds in every store that these lead to
(`ReachedBy.induction`). The first such fact: whatever was inserted, replaced, updated and removed,
and however often that failed, every stored document passes the check of the store, just as it is
stored (`accepted_of_reached`). -/

namespace RestArchive

/-- What can be asked of a store. -/
inductive Command where
  /-- To see the documents that meet a filter. -/
  | find (filter : Option Filter) (projection : Option Projection) (limit : Option Nat)
  /-- To see the document that carries an identifier. -/
  | get (id : ObjectId)
  /-- To add a document. -/
  | insert (document : Document)
  /-- To put a document in the place of another, or to add it if that is not there. -/
  | replace (id : ObjectId) (document : Document) (upsert : Bool)
  /-- To put a document in the place of the first one that meets a filter. -/
  | replaceFirst (filter : Filter) (document : Document)
  /-- To update the document that carries an identifier. -/
  | update (id : ObjectId) (update : Update)
  /-- To put values into the first document that meets a filter. -/
  | updateFirst (filter : Filter) (values : Document)
  /-- To put values into every document that meets a filter. -/
  | updateMany (filter : Filter) (values : Document)
  /-- To remove the document that carries an identifier. -/
  | delete (id : ObjectId)
  /-- To remove every document that meets a filter. -/
  | deleteMany (filter : Filter)

namespace Command

/-- What a command does to the documents of a collection, and what it answers. -/
def perform (check : Document → Except StoreFailure Unit) (collection : String)
    (documents : Documents) : Command → Except StoreFailure (Outcome × Documents)
  | .find filter projection limit =>
    .ok (.documents (documents.find filter projection limit), documents)
  | .get id => .ok (.document (documents.get? id), documents)
  | .insert document =>
    (documents.insert check collection document).map fun (added, rest) =>
      (.document (some added), rest)
  | .replace id document upsert =>
    (documents.replace check id document upsert).map fun (answer, rest) => (.document answer, rest)
  | .replaceFirst filter document =>
    (documents.replaceFirst check filter document).map fun (answer, rest) =>
      (.document answer, rest)
  | .update id change =>
    (documents.update check id change).map fun (answer, rest) => (.document answer, rest)
  | .updateFirst filter values =>
    (documents.updateFirst check filter values).map fun (answer, rest) => (.document answer, rest)
  | .updateMany filter values =>
    (documents.updateMany check filter values).map fun (summary, rest) => (.updated summary, rest)
  | .delete id =>
    let (found, rest) := documents.delete id
    .ok (.deleted found.toNat, rest)
  | .deleteMany filter =>
    let (count, rest) := documents.deleteMany filter
    .ok (.deleted count, rest)

end Command

namespace Store

variable {validator : Validator} {store : Store} {collection : String}

/-- What an operation leaves in any collection: what was there, or what the operation gives for the
one it runs on. -/
theorem documents_run {α : Type} (store : Store) (collection : String)
    (operation : Documents → Except StoreFailure (α × Documents)) (name : String) :
    (store.run collection operation).2.documents name = store.documents name ∨
      name = collection ∧ ∃ answer, operation (store.documents collection) =
        .ok (answer, (store.run collection operation).2.documents name) := by
  cases hresult : operation (store.documents collection) with
  | error failure =>
    refine Or.inl ?_
    simp [run, hresult]
  | ok result =>
    obtain ⟨answer, rest⟩ := result
    by_cases hname : name = collection
    · subst hname
      refine Or.inr ⟨rfl, answer, ?_⟩
      simp [run, hresult]
    · refine Or.inl ?_
      simp [run, hresult, documents_put_of_ne _ hname]

/-- Asks something of a store. -/
def command (validator : Validator) (store : Store) (collection : String) (command : Command) :
    Except StoreFailure Outcome × Store :=
  store.run collection fun documents =>
    command.perform (validator collection) collection documents

/-- A command that fails leaves the store as it was. -/
theorem command_error {asked : Command} {failure : StoreFailure}
    (h : (store.command validator collection asked).1 = .error failure) :
    asked.perform (validator collection) collection (store.documents collection) =
        .error failure ∧
      (store.command validator collection asked).2 = store := by
  cases hperform : asked.perform (validator collection) collection (store.documents collection) with
  | error cause =>
    simp only [command, run, hperform] at h ⊢
    cases h
    exact ⟨rfl, trivial⟩
  | ok result =>
    simp only [command, run, hperform] at h
    cases h

/-- A command that succeeds writes its collection, and no other. -/
theorem command_ok {asked : Command} {outcome : Outcome}
    (h : (store.command validator collection asked).1 = .ok outcome) :
    ∃ rest, asked.perform (validator collection) collection (store.documents collection) =
        .ok (outcome, rest) ∧
      (store.command validator collection asked).2 = store.put collection rest := by
  cases hperform : asked.perform (validator collection) collection (store.documents collection) with
  | error cause =>
    simp only [command, run, hperform] at h
    cases h
  | ok result =>
    simp only [command, run, hperform] at h ⊢
    cases h
    exact ⟨result.2, rfl, rfl⟩

/-- The stores that commands lead to, from one without documents. -/
inductive Reached (validator : Validator) : Store → Prop
  /-- The store without documents. -/
  | start : Reached validator empty
  /-- By one more command, whether it succeeds or fails. -/
  | step {store : Store} (collection : String) (asked : Command)
      (reached : Reached validator store) :
      Reached validator (store.command validator collection asked).2

/-- The stores that commands lead to, from one without documents, when each command that succeeds is one
of those that are allowed for the documents that it meets. -/
inductive ReachedBy (Allowed : Documents → Command → Prop) (validator : Validator) : Store → Prop
  /-- The store without documents. -/
  | start : ReachedBy Allowed validator empty
  /-- By one more command, which is allowed or fails. -/
  | step {store : Store} (collection : String) (asked : Command)
      (reached : ReachedBy Allowed validator store)
      (allowed : ∀ outcome, (store.command validator collection asked).1 = .ok outcome →
        Allowed (store.documents collection) asked) :
      ReachedBy Allowed validator (store.command validator collection asked).2

/-- What holds of a collection without documents, and is kept by each allowed command that succeeds,
holds of every collection of every store that allowed commands lead to. -/
theorem ReachedBy.induction {Allowed : Documents → Command → Prop}
    (Holds : String → Documents → Prop) (h : ReachedBy Allowed validator store)
    (nil : ∀ name, Holds name [])
    (perform : ∀ name documents (asked : Command) outcome rest, Holds name documents →
      Allowed documents asked →
      asked.perform (validator name) name documents = .ok (outcome, rest) → Holds name rest)
    (name : String) : Holds name (store.documents name) := by
  induction h with
  | start => exact nil name
  | @step store collection asked reached allowed ih =>
    -- Only the collection that the command runs on can have changed.
    rcases documents_run store collection
      (fun documents => asked.perform (validator collection) collection documents) name with
      hsame | ⟨rfl, outcome, hperform⟩
    · rw [command, hsame]
      exact ih
    · have hok : (store.command validator name asked).1 = .ok outcome := by
        rw [command, run, hperform]
      exact perform name _ asked outcome _ ih (allowed outcome hok) hperform

/-- Commands lead where they lead when all of them are allowed. -/
theorem Reached.reachedBy (h : Reached validator store) :
    ReachedBy (fun _ _ => True) validator store := by
  induction h with
  | start => exact .start
  | step collection asked reached ih => exact .step collection asked ih fun _ _ => trivial

/-- What holds of a collection without documents, and is kept by each command that succeeds, holds
of every collection of every store that commands lead to. -/
theorem Reached.induction (Holds : String → Documents → Prop) (h : Reached validator store)
    (nil : ∀ name, Holds name [])
    (perform : ∀ name documents (asked : Command) outcome rest, Holds name documents →
      asked.perform (validator name) name documents = .ok (outcome, rest) → Holds name rest)
    (name : String) : Holds name (store.documents name) :=
  h.reachedBy.induction Holds nil
    (fun name documents asked outcome rest hold _ => perform name documents asked outcome rest hold)
    name

end Store

/-! ## Accesses as commands -/

/-- Running an operation is giving a command that does the same and says so. -/
theorem Archive.runWith_eq_command {α : Type} {validator : Validator} {archive : Archive}
    {supply : IdSupply} {collection : String}
    {operation : Documents → Except StoreFailure (α × Documents)} {outcome : α → Outcome}
    {asked : Command}
    (h : ∀ documents, asked.perform (validator collection) collection documents =
      (operation documents).map fun (answer, rest) => (outcome answer, rest)) :
    archive.runWith supply collection operation outcome =
      ((archive.store.command validator collection asked).1,
        ⟨(archive.store.command validator collection asked).2, supply⟩) := by
  simp only [runWith, Store.command, Store.run, h]
  cases operation (archive.store.documents collection) <;> rfl

namespace Access

/-- Whether an access only looks. -/
def IsRead : Access → Prop
  | .query _ _ _ => True
  | .fetch _ _ _ => True
  | _ => False

/-- Which command an access gives, when identifiers are drawn from a supply. -/
inductive Issues (supply : IdSupply) : Access → Command → Prop
  /-- A document is added. -/
  | create (body : Document) : Issues supply (.create body) (.insert (body.stamp supply).1)
  /-- A document is put in the place of another. -/
  | replace (id : ObjectId) (body : Document) (upsert : Bool) :
      Issues supply (.replace id body upsert) (.replace id (body.stamp supply).1 upsert)
  /-- A document is put in the place of the first one that meets a filter. -/
  | replaceFirst (filter : Filter) (body : Document) :
      Issues supply (.replaceFirst filter body)
        (.replaceFirst filter (body.stampInside supply).1)
  /-- Values are put into the first document that meets a filter. -/
  | mergeFirst (filter : Filter) (body : Document) :
      Issues supply (.merge filter body true) (.updateFirst filter (body.stampInside supply).1)
  /-- Values are put into every document that meets a filter. -/
  | mergeAll (filter : Filter) (body : Document) :
      Issues supply (.merge filter body false) (.updateMany filter (body.stampInside supply).1)
  /-- Values are put at their paths. -/
  | setAll (id : ObjectId) (values : Document) (scopes : List Scope) :
      Issues supply (.set id "" (.document values) scopes)
        (.update id ⟨.set (values.stampInside supply).1, scopes⟩)
  /-- A value is put at a path. -/
  | setAt (id : ObjectId) {path : String} (value : Value) (scopes : List Scope) (h : path ≠ "") :
      Issues supply (.set id path value scopes)
        (.update id ⟨.set (Document.stampInside supply [(path, value)]).1, scopes⟩)
  /-- A value is added to an array. -/
  | push (id : ObjectId) (path : String) (value : Value) (scopes : List Scope) :
      Issues supply (.push id path value scopes)
        (.update id ⟨.push path (value.stamp true supply).1, scopes⟩)
  /-- An element is removed from an array. -/
  | pull (id : ObjectId) (path : String) (element : ObjectId) (scopes : List Scope) :
      Issues supply (.pull id path element scopes) (.update id ⟨.pull path element, scopes⟩)
  /-- Documents are removed. -/
  | deleteMatching (filter : Filter) : Issues supply (.deleteMatching filter) (.deleteMany filter)
  /-- A document is removed. -/
  | delete (id : ObjectId) : Issues supply (.delete id) (.delete id)

/-- What an access does: it looks, or it is refused for a value that cannot be merged, or it gives a
command and answers what the command answers. -/
theorem run_cases (validator : Validator) (collection : String) (archive : Archive)
    (access : Access) :
    (access.IsRead ∧ ∃ outcome, access.run validator collection archive = (.ok outcome, archive)) ∨
      (∃ value, access.run validator collection archive =
        (.error (.invalid (.notMergeable value)), archive)) ∨
      ∃ asked supply, access.Issues archive.supply asked ∧
        access.run validator collection archive =
          ((archive.store.command validator collection asked).1,
            ⟨(archive.store.command validator collection asked).2, supply⟩) := by
  cases access with
  | query filter projection single => exact Or.inl ⟨trivial, _, rfl⟩
  | fetch id projection path => exact Or.inl ⟨trivial, _, rfl⟩
  | create body =>
    exact Or.inr (Or.inr ⟨_, _, .create body, Archive.runWith_eq_command fun _ => rfl⟩)
  | replace id body upsert =>
    exact Or.inr (Or.inr ⟨_, _, .replace id body upsert, Archive.runWith_eq_command fun _ => rfl⟩)
  | replaceFirst filter body =>
    exact Or.inr (Or.inr ⟨_, _, .replaceFirst filter body, Archive.runWith_eq_command fun _ => rfl⟩)
  | merge filter body single =>
    cases single with
    | true =>
      exact Or.inr (Or.inr ⟨_, _, .mergeFirst filter body, Archive.runWith_eq_command fun _ => rfl⟩)
    | false =>
      exact Or.inr (Or.inr ⟨_, _, .mergeAll filter body, Archive.runWith_eq_command fun _ => rfl⟩)
  | set id path value scopes =>
    by_cases hpath : path = ""
    · -- The empty path means a merge into the document, which takes a document.
      subst hpath
      cases value with
      | document values =>
        exact Or.inr (Or.inr
          ⟨_, _, .setAll id values scopes, Archive.runWith_eq_command fun _ => rfl⟩)
      | _ => exact Or.inr (Or.inl ⟨_, rfl⟩)
    · have hrun : run validator collection archive (.set id path value scopes) =
          archive.setIn validator collection id [(path, value)] scopes := if_neg hpath
      exact Or.inr (Or.inr ⟨_, _, .setAt id value scopes hpath,
        hrun.trans (Archive.runWith_eq_command fun _ => rfl)⟩)
  | push id path value scopes =>
    exact Or.inr (Or.inr
      ⟨_, _, .push id path value scopes, Archive.runWith_eq_command fun _ => rfl⟩)
  | pull id path element scopes =>
    exact Or.inr (Or.inr
      ⟨_, _, .pull id path element scopes, Archive.runWith_eq_command fun _ => rfl⟩)
  | deleteMatching filter =>
    -- A removal does not fail, so it is run as an operation that always succeeds.
    have hrun : run validator collection archive (.deleteMatching filter) =
        archive.runWith archive.supply collection
          (fun documents => .ok (documents.deleteMany filter)) .deleted := rfl
    exact Or.inr (Or.inr ⟨_, _, .deleteMatching filter,
      hrun.trans (Archive.runWith_eq_command fun _ => rfl)⟩)
  | delete id =>
    have hrun : run validator collection archive (.delete id) =
        archive.runWith archive.supply collection (fun documents => .ok (documents.delete id))
          (fun found => .deleted found.toNat) := rfl
    exact Or.inr (Or.inr ⟨_, _, .delete id,
      hrun.trans (Archive.runWith_eq_command fun _ => rfl)⟩)

end Access

/-! ## What commands write -/

namespace Command

/-- Which documents a command may write into a collection. -/
inductive Writes (documents : Documents) : Command → Document → Prop
  /-- A document that is added. -/
  | insert (document : Document) : Writes documents (.insert document) document
  /-- A document under the identifier of the one that it replaces, or is added for. -/
  | replace (id : ObjectId) (document : Document) (upsert : Bool) :
      Writes documents (.replace id document upsert) (document.insert idField (.objectId id))
  /-- A document under the identifier of the one that it replaces. -/
  | replaceFirst (filter : Filter) (document : Document) {old : Document} (mem : old ∈ documents) :
      Writes documents (.replaceFirst filter document) (document.withIdOf old)
  /-- What an update makes of a document. -/
  | update (id : ObjectId) (change : Update) {old document : Document} (mem : old ∈ documents)
      (apply : change.apply old = .ok document) : Writes documents (.update id change) document
  /-- What values make of a document. -/
  | updateFirst (filter : Filter) (values : Document) {old document : Document}
      (mem : old ∈ documents) (setAll : old.setAll [] values = .ok document) :
      Writes documents (.updateFirst filter values) document
  /-- What values make of a document, one of many. -/
  | updateMany (filter : Filter) (values : Document) {old document : Document}
      (mem : old ∈ documents) (setAll : old.setAll [] values = .ok document) :
      Writes documents (.updateMany filter values) document

/-- A document that a command leaves in a collection was there before, or the command wrote it, and
it passed the check. -/
theorem mem_or_writes {check : Document → Except StoreFailure Unit} {collection : String}
    {documents rest : Documents} {asked : Command} {outcome : Outcome} {document : Document}
    (h : asked.perform check collection documents = .ok (outcome, rest)) (hmem : document ∈ rest) :
    document ∈ documents ∨ asked.Writes documents document ∧ check document = .ok () := by
  cases asked with
  | find filter projection limit =>
    cases h
    exact Or.inl hmem
  | get id =>
    cases h
    exact Or.inl hmem
  | insert added =>
    obtain ⟨⟨_, _⟩, hinsert, heq⟩ := map_eq_ok_iff.mp h
    cases heq
    rcases Documents.mem_or_of_insert hinsert hmem with hold | ⟨rfl, hcheck⟩
    · exact Or.inl hold
    · exact Or.inr ⟨.insert document, hcheck⟩
  | replace id new upsert =>
    obtain ⟨⟨_, _⟩, hreplace, heq⟩ := map_eq_ok_iff.mp h
    cases heq
    rcases Documents.mem_or_of_replace hreplace hmem with hold | ⟨rfl, hcheck⟩
    · exact Or.inl hold
    · exact Or.inr ⟨.replace id new upsert, hcheck⟩
  | replaceFirst filter new =>
    obtain ⟨⟨_, _⟩, hreplace, heq⟩ := map_eq_ok_iff.mp h
    cases heq
    rcases Documents.mem_or_of_replaceFirst hreplace hmem with hold | ⟨old, hwas, rfl, hcheck⟩
    · exact Or.inl hold
    · exact Or.inr ⟨.replaceFirst filter new hwas, hcheck⟩
  | update id change =>
    obtain ⟨⟨_, _⟩, hupdate, heq⟩ := map_eq_ok_iff.mp h
    cases heq
    rcases Documents.mem_or_of_update hupdate hmem with hold | ⟨old, hwas, happly, hcheck⟩
    · exact Or.inl hold
    · exact Or.inr ⟨.update id change hwas happly, hcheck⟩
  | updateFirst filter values =>
    obtain ⟨⟨_, _⟩, hupdate, heq⟩ := map_eq_ok_iff.mp h
    cases heq
    rcases Documents.mem_or_of_updateFirst hupdate hmem with hold | ⟨old, hwas, hset, hcheck⟩
    · exact Or.inl hold
    · exact Or.inr ⟨.updateFirst filter values hwas hset, hcheck⟩
  | updateMany filter values =>
    obtain ⟨⟨_, _⟩, hupdate, heq⟩ := map_eq_ok_iff.mp h
    cases heq
    rcases Documents.mem_or_of_updateMany hupdate hmem with hold | ⟨old, hwas, hset, hcheck⟩
    · exact Or.inl hold
    · exact Or.inr ⟨.updateMany filter values hwas hset, hcheck⟩
  | delete id =>
    cases h
    exact Or.inl (List.mem_of_mem_eraseP hmem)
  | deleteMany filter =>
    cases h
    exact Or.inl (List.mem_filter.mp hmem).1

/-- The document that a command answers with is one of those that it leaves. -/
theorem mem_of_perform {check : Document → Except StoreFailure Unit} {collection : String}
    {documents rest : Documents} {asked : Command} {answered : Document}
    (h : asked.perform check collection documents = .ok (.document (some answered), rest)) :
    answered ∈ rest := by
  cases asked with
  | get id =>
    simp only [perform, Except.ok.injEq, Prod.mk.injEq, Outcome.document.injEq] at h
    obtain ⟨hget, rfl⟩ := h
    exact List.mem_of_find?_eq_some hget
  | insert added =>
    obtain ⟨⟨_, _⟩, hinsert, heq⟩ := map_eq_ok_iff.mp h
    cases heq
    obtain ⟨_, -, -, rfl, rfl, -⟩ := Documents.exists_of_insert hinsert
    exact List.mem_append_right _ (List.mem_singleton.mpr rfl)
  | replace id new upsert =>
    obtain ⟨⟨_, _⟩, hreplace, heq⟩ := map_eq_ok_iff.mp h
    cases heq
    exact Documents.mem_of_replace hreplace
  | replaceFirst filter new =>
    obtain ⟨⟨_, _⟩, hreplace, heq⟩ := map_eq_ok_iff.mp h
    cases heq
    exact Documents.mem_of_changeFirst hreplace
  | update id change =>
    obtain ⟨⟨_, _⟩, hupdate, heq⟩ := map_eq_ok_iff.mp h
    cases heq
    exact Documents.mem_of_changeFirst hupdate
  | updateFirst filter values =>
    obtain ⟨⟨_, _⟩, hupdate, heq⟩ := map_eq_ok_iff.mp h
    cases heq
    exact Documents.mem_of_changeFirst hupdate
  | updateMany filter values =>
    -- This one answers with a summary.
    obtain ⟨⟨_, _⟩, -, heq⟩ := map_eq_ok_iff.mp h
    cases heq
  | _ => cases h

end Command

/-! ## Stored documents pass the check -/

namespace Store

/-- Whatever was asked of a store, from one without documents, and whether it succeeded or failed:
the check of the store accepts every document of every collection, just as it is stored. -/
theorem accepted_of_reached {validator : Validator} {store : Store} (h : Reached validator store)
    {collection : String} {document : Document} (hmem : document ∈ store.documents collection) :
    validator collection document = .ok () := by
  refine h.induction (fun name documents => ∀ document ∈ documents,
    validator name document = .ok ()) ?_ ?_ collection document hmem
  · intro name document hnone
    cases hnone
  · intro name documents asked outcome rest hall hperform document hmem
    rcases Command.mem_or_writes hperform hmem with hold | ⟨-, hcheck⟩
    · exact hall document hold
    · exact hcheck

/-- The check that documents have a name. -/
def named : Validator := .ofRules [.require "name"]

/-- The store after a named document was added, one without a name was refused, and the name was
changed in all documents. -/
def renamed : Store :=
  let add (id : Nat) (members : Document) : Command :=
    .insert ((idField, .objectId (.ofNat id)) :: members)
  let first := (empty.command named "notes" (add 7 [("name", .string "a")])).2
  let second := (first.command named "notes" (add 8 [])).2
  (second.command named "notes" (.updateMany .everything [("name", .string "b")])).2

/-- The document that came through is accepted as it stands. -/
theorem accepted_of_reached_renamed :
    renamed.documents "notes" = [[(idField, .objectId (.ofNat 7)), ("name", .string "b")]] ∧
      named "notes" [(idField, .objectId (.ofNat 7)), ("name", .string "b")] = .ok () := by
  have hdocuments : renamed.documents "notes" =
      [[(idField, .objectId (.ofNat 7)), ("name", .string "b")]] := by rfl
  have hreached : Reached named renamed :=
    .step "notes" _ (.step "notes" _ (.step "notes" _ .start))
  refine ⟨hdocuments, accepted_of_reached hreached ?_⟩
  rw [hdocuments]
  exact List.mem_cons_self

end Store

end RestArchive
