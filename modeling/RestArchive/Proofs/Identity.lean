import RestArchive.Proofs.Commands
import RestArchive.Proofs.Requests
import RestArchive.Proofs.StoredIds

/-! # The identifiers of a collection

Starting from an empty store, every document of a collection has an identifier, and no two documents
have the same one, whatever requests come and whatever identifiers are drawn. One request leaves the
list of identifiers as it is, or adds a new one at its end, or lets some of them fall out. -/

namespace RestArchive

/-! ## What accesses do to the identifiers -/

/-- Running an operation on a collection does to its identifiers what the operation does, or
nothing. -/
theorem Archive.turnIds_runWith {α : Type} {archive : Archive} {supply : IdSupply}
    {collection : String} {operation : Documents → Except StoreFailure (α × Documents)}
    {outcome : α → Outcome} {ids : List ObjectId} {adds drops : Prop}
    (hids : (archive.store.documents collection).HaveIds ids)
    (h : ∀ answer rest, operation (archive.store.documents collection) = .ok (answer, rest) →
      rest.TurnIds adds drops ids) :
    ((archive.runWith supply collection operation outcome).2.store.documents collection).TurnIds
      adds drops ids := by
  cases hresult : operation (archive.store.documents collection) with
  | ok result =>
    obtain ⟨answer, rest⟩ := result
    simpa [runWith, Store.run, hresult] using h answer rest hresult
  | error failure =>
    simpa [runWith, Store.run, hresult] using ⟨ids, hids, .same⟩

namespace Access

/-- Whether an access may add a document. -/
def Adds : Access → Prop
  | .create _ => True
  | .replace _ _ _ => True
  | _ => False

/-- Whether an access may remove documents. -/
def Drops : Access → Prop
  | .deleteMatching _ => True
  | .delete _ => True
  | _ => False

/-- Whether the document that an access adds, if it adds one, has an identifier or none. -/
def Storable : Access → Prop
  | .create body => body.MayHaveId
  | _ => True

variable {validator : Validator} {collection : String} {archive : Archive} {ids : List ObjectId}

/-- A change of documents that leaves their identifiers. -/
theorem turnIds_runWith_of_haveIds {α : Type} {supply : IdSupply}
    {operation : Documents → Except StoreFailure (α × Documents)} {outcome : α → Outcome}
    {adds drops : Prop} (hids : (archive.store.documents collection).HaveIds ids)
    (h : ∀ answer rest, operation (archive.store.documents collection) = .ok (answer, rest) →
      rest.HaveIds ids) :
    ((archive.runWith supply collection operation outcome).2.store.documents collection).TurnIds
      adds drops ids :=
  Archive.turnIds_runWith hids fun answer rest hrest => ⟨ids, h answer rest hrest, .same⟩

/-- Putting values into a document leaves the identifiers of the collection. -/
theorem turnIds_setIn {id : ObjectId} {values : Document} {scopes : List Scope} {adds drops : Prop}
    (hids : (archive.store.documents collection).HaveIds ids) :
    ((archive.setIn validator collection id values scopes).2.store.documents collection).TurnIds
      adds drops ids :=
  turnIds_runWith_of_haveIds hids fun _ _ hrest => Documents.haveIds_update hids hrest

/-- What an access may do to the identifiers of the collection. -/
theorem turnIds_run (validator : Validator) (access : Access) (hstorable : access.Storable)
    (hids : (archive.store.documents collection).HaveIds ids) :
    ((access.run validator collection archive).2.store.documents collection).TurnIds
      access.Adds access.Drops ids := by
  cases access with
  | query filter projection single => exact ⟨ids, hids, .same⟩
  | fetch id projection path => exact ⟨ids, hids, .same⟩
  | create body =>
    -- The document has an identifier once it is stamped, whichever one is drawn.
    obtain ⟨id, hid⟩ := Document.exists_hasId_stamp hstorable archive.supply
    refine Archive.turnIds_runWith hids fun answer rest hrest => ?_
    obtain ⟨isNew, hadded⟩ := Documents.haveIds_insert hids hid hrest
    exact ⟨_, hadded, .added id trivial isNew⟩
  | replace id body upsert =>
    refine Archive.turnIds_runWith hids fun answer rest hrest => ?_
    rcases Documents.haveIds_replace hids hrest with hkept | ⟨isNew, hadded⟩
    · exact ⟨ids, hkept, .same⟩
    · exact ⟨_, hadded, .added id trivial isNew⟩
  | replaceFirst filter body =>
    exact turnIds_runWith_of_haveIds hids fun _ _ hrest =>
      Documents.haveIds_replaceFirst hids hrest
  | merge filter body single =>
    cases single with
    | true =>
      exact turnIds_runWith_of_haveIds hids fun _ _ hrest =>
        Documents.haveIds_updateFirst hids hrest
    | false =>
      exact turnIds_runWith_of_haveIds hids fun _ _ hrest =>
        Documents.haveIds_updateMany hids hrest
  | set id path value scopes =>
    unfold run
    dsimp only
    split
    · split
      · exact turnIds_setIn hids
      · exact ⟨ids, hids, .same⟩
    · exact turnIds_setIn hids
  | push id path value scopes =>
    exact turnIds_runWith_of_haveIds hids fun _ _ hrest => Documents.haveIds_update hids hrest
  | pull id path element scopes =>
    exact turnIds_runWith_of_haveIds hids fun _ _ hrest => Documents.haveIds_update hids hrest
  | deleteMatching filter =>
    refine Archive.turnIds_runWith hids fun answer rest hrest => ?_
    cases hrest
    obtain ⟨kept, hkept, hsublist⟩ := hids.sublist List.filter_sublist
    exact ⟨kept, hkept, .dropped kept trivial hsublist⟩
  | delete id =>
    refine Archive.turnIds_runWith hids fun answer rest hrest => ?_
    cases hrest
    obtain ⟨kept, hkept, hsublist⟩ := hids.sublist List.eraseP_sublist
    exact ⟨kept, hkept, .dropped kept trivial hsublist⟩

end Access

/-- The address that is the whole collection is not a place inside a document. -/
theorem Address.isNested_of_parse {path : String} {omitsLast : Bool} {address : Address}
    (h : parse path omitsLast = .ok address) (hroot : address.root = none) :
    address.isNested = false := by
  simp only [parse] at h
  split at h
  · cases h
    rfl
  · split at h
    · cases h
      rfl
    · split at h
      · cases h
      · cases h
        cases hroot

namespace Action

/-- A document of a body has an identifier or none. -/
theorem mayHaveId_of_documentOf {body : Json} {document : Document}
    (h : documentOf body = .ok document) : document.MayHaveId :=
  Body.mayHaveId_of_document (mapError_eq_ok_iff.mp h)

/-- What is known of the access for an action at an address: only an addition or a replacement that
is not inside a document may add one, and only a removal that is not inside a document may remove
any. -/
structure Permits (action : Action) (address : Address) (access : Access) : Prop where
  /-- What is added has an identifier or none. -/
  storable : access.Storable
  /-- Which actions may add. -/
  adds : access.Adds →
    (action.verb = .post ∨ action.verb = .put) ∧ address.isNested = false
  /-- Which actions may remove. -/
  drops : access.Drops → action.verb = .delete ∧ address.isNested = false

variable {action : Action} {address : Address} {access : Access}

/-- An access that neither adds nor removes a document is permitted anywhere. -/
theorem Permits.of_neither (hadds : ¬ access.Adds) (hdrops : ¬ access.Drops) :
    action.Permits address access where
  storable := by
    cases access with
    | create body => exact absurd trivial hadds
    | _ => trivial
  adds := fun h => absurd h hadds
  drops := fun h => absurd h hdrops

/-- The access for an action at the address of a path is permitted by it. -/
theorem permits_of_accessAt {path : String} {omitsLast : Bool}
    (hparse : Address.parse path omitsLast = .ok address)
    (h : action.accessAt address = .ok access) : action.Permits address access := by
  cases becomes_of_accessAt h with
  | create whole hread =>
    exact ⟨mayHaveId_of_documentOf hread,
      fun _ => ⟨Or.inl rfl, Address.isNested_of_parse hparse whole⟩, False.elim⟩
  | replace leads bare hread => exact ⟨trivial, fun _ => ⟨Or.inr rfl, bare⟩, False.elim⟩
  | deleteMatching whole =>
    exact ⟨trivial, False.elim, fun _ => ⟨rfl, Address.isNested_of_parse hparse whole⟩⟩
  | delete leads bare => exact ⟨trivial, False.elim, fun _ => ⟨rfl, bare⟩⟩
  | _ => exact .of_neither not_false not_false

end Action

/-! ## What requests do to the identifiers -/

namespace Request

/-- The action that a request asks for is one of its method. -/
theorem verb_of_action {request : Request} {action : Action} (h : request.action = .ok action) :
    action.verb = request.verb := by
  rw [Request.action] at h
  split at h
  case h_1 hverb =>
    cases h
    exact hverb.symm
  all_goals
    rename_i hverb
    obtain ⟨_, -, rfl⟩ := map_eq_ok_iff.mp h
    exact hverb.symm

/-- Whether the path of a request is not one to a place inside a document. -/
def AtRoot (request : Request) : Prop :=
  ∃ omitsLast address, Address.parse request.path omitsLast = .ok address ∧
    address.isNested = false

end Request

namespace Archive

/-- The archives that requests to one collection lead to, from an empty store and any supply of
identifiers. -/
inductive Reached (validator : Validator) (collection : String) : Archive → Prop
  /-- From an empty store. -/
  | start (supply : IdSupply) : Reached validator collection ⟨Store.empty, supply⟩
  /-- By one more request. -/
  | step {archive : Archive} (request : Request) (reached : Reached validator collection archive) :
      Reached validator collection (archive.handle validator collection request).2

/-- The archives that requests to any collections lead to, from an empty store and any supply of
identifiers. -/
inductive Served (validator : Validator) : Archive → Prop
  /-- From an empty store. -/
  | start (supply : IdSupply) : Served validator ⟨Store.empty, supply⟩
  /-- By one more request. -/
  | step {archive : Archive} (collection : String) (request : Request)
      (served : Served validator archive) :
      Served validator (archive.handle validator collection request).2

variable {validator : Validator} {collection : String} {archive : Archive} {ids : List ObjectId}

/-- What a request may do to the identifiers of the collection. -/
theorem turnIds_handle (validator : Validator) (request : Request)
    (hids : (archive.store.documents collection).HaveIds ids) :
    ((archive.handle validator collection request).2.store.documents collection).TurnIds
      ((request.verb = .post ∨ request.verb = .put) ∧ request.AtRoot)
      (request.verb = .delete ∧ request.AtRoot) ids := by
  obtain hsame | ⟨plan, hplan, hrun⟩ := snd_handle validator collection archive request
  · rw [hsame]
    exact ⟨ids, hids, .same⟩
  · obtain ⟨haction, haddress, haccess⟩ := Request.plan_eq_ok_iff.mp hplan
    have hpermits := Action.permits_of_accessAt haddress haccess
    have hroot : plan.address.isNested = false → request.AtRoot := fun hbare =>
      ⟨plan.action.omitsLast, plan.address, haddress, hbare⟩
    obtain ⟨after, hafter, hturn⟩ :=
      Access.turnIds_run validator plan.access hpermits.storable hids
    rw [hrun, ← Request.verb_of_action haction]
    exact ⟨after, hafter, hturn.mono
      (fun h => ⟨(hpermits.adds h).1, hroot (hpermits.adds h).2⟩)
      fun h => ⟨(hpermits.drops h).1, hroot (hpermits.drops h).2⟩⟩

/-- A request to one collection leaves the others as they were. -/
theorem documents_handle_of_ne {other : String} (h : other ≠ collection) (request : Request) :
    (archive.handle validator collection request).2.store.documents other =
      archive.store.documents other := by
  obtain hsame | ⟨plan, -, hrun⟩ := snd_handle validator collection archive request
  · rw [hsame]
  · rw [hrun]
    rcases Access.run_cases validator collection archive plan.access with
      ⟨-, outcome, hrun⟩ | ⟨value, hrun⟩ | ⟨asked, supply, -, hrun⟩
    · rw [hrun]
    · rw [hrun]
    · rw [hrun]
      exact (Store.documents_run archive.store collection _ other).resolve_right fun hwritten =>
        h hwritten.1

/-- Requests lead to documents that have distinct identifiers, in every collection. -/
theorem Served.exists_haveIds (h : Served validator archive) (collection : String) :
    ∃ ids, (archive.store.documents collection).HaveIds ids ∧ ids.Nodup := by
  induction h with
  | start supply => exact ⟨[], .nil, .nil⟩
  | step name request served ih =>
    by_cases hname : collection = name
    · subst hname
      obtain ⟨ids, hids, hnodup⟩ := ih
      obtain ⟨after, hafter, hturn⟩ := turnIds_handle validator request hids
      exact ⟨after, hafter, hturn.nodup hnodup⟩
    · rw [documents_handle_of_ne hname]
      exact ih

/-- Requests to one collection are requests. -/
theorem Reached.served (h : Reached validator collection archive) : Served validator archive := by
  induction h with
  | start supply => exact .start supply
  | step request reached ih => exact .step collection request ih

/-- Whatever requests came, from an empty store and whatever identifiers were drawn: the documents
of the collection have distinct identifiers, and the next request leaves the list of them as it is;
or adds a new one at its end, if it is an addition or a replacement that does not go inside a
document; or lets some fall out, if it is a removal that does not go inside a document. -/
theorem haveIds_of_reached (h : Reached validator collection archive) :
    ∃ ids, (archive.store.documents collection).HaveIds ids ∧ ids.Nodup ∧
      ∀ request, ((archive.handle validator collection request).2.store.documents
        collection).TurnIds ((request.verb = .post ∨ request.verb = .put) ∧ request.AtRoot)
          (request.verb = .delete ∧ request.AtRoot) ids := by
  obtain ⟨ids, hids, hnodup⟩ := h.served.exists_haveIds collection
  exact ⟨ids, hids, hnodup, fun request => turnIds_handle validator request hids⟩

/-- The archive after two empty documents were posted, when the same identifier is drawn for
both. -/
def postedTwice : Archive :=
  let post : Request := ⟨.post, "", [], .object []⟩
  let archive : Archive := ⟨Store.empty, ⟨fun _ => .ofNat 7, 0⟩⟩
  ((archive.handle .none "notes" post).2.handle .none "notes" post).2

/-- The second document does not come in under the identifier of the first one. -/
theorem haveIds_of_reached_postedTwice :
    postedTwice.store.documents "notes" = [[(idField, .objectId (.ofNat 7))]] ∧
      ∃ ids, (postedTwice.store.documents "notes").HaveIds ids ∧ ids.Nodup ∧
        ∀ request, ((postedTwice.handle .none "notes" request).2.store.documents
          "notes").TurnIds ((request.verb = .post ∨ request.verb = .put) ∧ request.AtRoot)
            (request.verb = .delete ∧ request.AtRoot) ids := by
  refine ⟨rfl, ?_⟩
  exact haveIds_of_reached (.step _ (.step _ (.start _)))

end Archive

end RestArchive
