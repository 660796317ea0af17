import RestArchive.Proofs.Commands
import RestArchive.Proofs.ElementIds
import RestArchive.Proofs.Requests

/-! # Stores of addressable documents

What comes into a store from a body is stamped, so it is addressable. What is there stays so through
every command, access and request that spares the identifiers of elements
(`Archive.addressable_handleAll`). -/

namespace RestArchive

open Value (elements_document_iff elements_of_isPlain)

/-! ## Commands and accesses -/

/-- The scope of a step is one of those that the path is read with. -/
theorem Step.mem_of_ofTokens {scopes : List Scope} {path : String} {tokens : List String}
    {steps : List Step} {scope : Scope} (h : ofTokens scopes path tokens = .ok steps)
    (hmem : .scoped scope ∈ steps) : scope ∈ scopes := by
  induction tokens generalizing steps with
  | nil =>
    cases h
    cases hmem
  | cons token tokens ih =>
    simp only [ofTokens, block_eq_ok_iff, pure_eq_ok_iff] at h
    obtain ⟨first, hfirst, others, hothers, rfl⟩ := h
    rcases List.mem_cons.mp hmem with rfl | hmem
    · rw [ofToken] at hfirst
      split at hfirst
      · cases hfirst
      · split at hfirst
        case h_1 hfound =>
          cases hfirst
          exact List.mem_of_find?_eq_some hfound
        case h_2 => cases hfirst
    · exact ih hothers hmem

/-- A path that is read without scopes has no step by scope, so it spares the identifiers of
elements. -/
theorem Document.spares_nil (values : Document) : Document.Spares [] values := by
  intro entry _ steps hsteps value _ before scope behind hsplit
  rw [Step.parse] at hsteps
  split at hsteps
  · cases hsteps
  · have hmem : Step.scoped scope ∈ steps := by
      rw [hsplit]
      exact List.mem_append_right _ List.mem_cons_self
    exact absurd (Step.mem_of_ofTokens hsteps hmem) List.not_mem_nil

namespace Command

/-- Whether a command writes addressable documents and spares the identifiers of elements. -/
def Addressable : Command → Prop
  | .insert document => document.Addressable
  | .replace _ document _ => document.Addressable
  | .replaceFirst _ document => document.Addressable
  | .update _ change => change.Addressable
  | .updateFirst _ values => values.Addressable
  | .updateMany _ values => values.Addressable
  | _ => True

/-- Such a command leaves addressable documents addressable. -/
theorem Addressable.perform {asked : Command} {check : Document → Except StoreFailure Unit}
    {collection : String} {documents rest : Documents} {outcome : Outcome}
    (hasked : asked.Addressable) (hdocuments : ∀ document ∈ documents, document.Addressable)
    (h : asked.perform check collection documents = .ok (outcome, rest)) :
    ∀ document ∈ rest, document.Addressable := by
  intro document hmem
  rcases mem_or_writes h hmem with hold | ⟨hwrites, -⟩
  · exact hdocuments document hold
  · cases hwrites with
    | insert => exact hasked
    | replace => exact Document.Addressable.insert hasked idField (elements_of_isPlain trivial)
    | replaceFirst _ _ hold => exact Document.Addressable.withIdOf hasked (hdocuments _ hold)
    | update _ _ hold happly => exact Update.Addressable.apply hasked (hdocuments _ hold) happly
    | updateFirst _ _ hold hset =>
      exact (hdocuments _ hold).setAll hasked (Document.spares_nil _) hset
    | updateMany _ _ hold hset =>
      exact (hdocuments _ hold).setAll hasked (Document.spares_nil _) hset

end Command

namespace Document

/-- Once the members of a document are stamped, it is addressable if documents that are elements
inside it had an identifier or none. -/
theorem addressable_stampInside {document : Document} (supply : IdSupply)
    (h : ∀ entry ∈ document, entry.2.Elements MayHaveId) :
    (document.stampInside supply).1.Addressable :=
  Value.elements_stampMembers supply document h

/-- Once a document is stamped, it is addressable if documents that are elements inside it had an
identifier or none. -/
theorem addressable_stamp {document : Document} (supply : IdSupply)
    (h : ∀ entry ∈ document, entry.2.Elements MayHaveId) :
    (document.stamp supply).1.Addressable := by
  rw [stamp]
  split
  · exact addressable_stampInside supply h
  · intro entry hentry
    rcases List.mem_append.mp hentry with hold | hnew
    · exact addressable_stampInside _ h entry hold
    · rw [List.mem_singleton.mp hnew]
      exact elements_of_isPlain trivial

end Document

namespace Access

/-- Whether the values that an access writes come from bodies: documents that are elements inside
them have an identifier or none. -/
def Cast : Access → Prop
  | .create body => ∀ entry ∈ body, entry.2.Elements Document.MayHaveId
  | .replace _ body _ => ∀ entry ∈ body, entry.2.Elements Document.MayHaveId
  | .replaceFirst _ body => ∀ entry ∈ body, entry.2.Elements Document.MayHaveId
  | .merge _ body _ => ∀ entry ∈ body, entry.2.Elements Document.MayHaveId
  | .set _ _ value _ => value.Elements Document.MayHaveId
  | .push _ _ value _ => value.AsElement Document.MayHaveId
  | _ => True

/-- Whether the values that an access puts at paths spare the identifiers of elements. -/
def Spares : Access → Prop
  | .set _ path value scopes =>
    if path = "" then ∀ members, value = .document members → Document.Spares scopes members
    else Document.Spares scopes [(path, value)]
  | _ => True

/-- What is stamped, but not as an element, spares what it spared before. -/
theorem spares_stamp {value : Value} {steps : List Step} (supply : IdSupply)
    (h : (Terminal.set value).Spares steps) :
    (Terminal.set (value.stamp false supply).1).Spares steps := by
  intro stamped hstamped before scope behind hsteps
  obtain ⟨hlast, hid⟩ := h value rfl before scope behind hsteps
  cases hstamped
  refine ⟨fun hbehind members hmembers => ?_, fun hbehind => ?_⟩
  · -- The identifier of a document is a member of it, and is stamped as it was.
    cases value with
    | document old =>
      obtain ⟨id, hold⟩ := hlast hbehind old rfl
      cases hmembers
      obtain ⟨rest, hrest⟩ := Value.exists_get?_stampMembers supply old idField
      rw [Document.HasId] at hold
      refine ⟨id, ?_⟩
      rw [Document.HasId, hrest, hold]
      rfl
    | _ => cases hmembers
  · obtain ⟨id, rfl⟩ := hid hbehind
    exact ⟨id, rfl⟩

/-- Values that are stamped inside spare what they spared before. -/
theorem spares_stampInside {scopes : List Scope} {values : Document} (supply : IdSupply)
    (h : Document.Spares scopes values) :
    Document.Spares scopes (values.stampInside supply).1 := by
  intro entry hentry steps hsteps
  obtain ⟨value, rest, hmem, heq⟩ := Value.exists_of_mem_stampMembers hentry
  rw [heq]
  exact spares_stamp rest (h _ hmem steps hsteps)

/-- The command of an access writes addressable documents and spares the identifiers of elements, if
the access does and its values come from bodies. -/
theorem addressable_of_issues {access : Access} {supply : IdSupply} {asked : Command}
    (hcast : access.Cast) (hspares : access.Spares) (h : access.Issues supply asked) :
    asked.Addressable := by
  cases h with
  | create body => exact Document.addressable_stamp supply hcast
  | replace id body upsert => exact Document.addressable_stamp supply hcast
  | replaceFirst filter body => exact Document.addressable_stampInside supply hcast
  | mergeFirst filter body => exact Document.addressable_stampInside supply hcast
  | mergeAll filter body => exact Document.addressable_stampInside supply hcast
  | setAll id values scopes =>
    have hvalues := elements_document_iff.mp hcast
    rw [Spares, if_pos rfl] at hspares
    exact ⟨Document.addressable_stampInside supply hvalues,
      spares_stampInside supply (hspares values rfl)⟩
  | @setAt id path value scopes hpath =>
    have hvalues : ∀ entry ∈ [(path, value)], entry.2.Elements Document.MayHaveId := by
      intro entry hentry
      rw [List.mem_singleton.mp hentry]
      exact hcast
    rw [Spares, if_neg hpath] at hspares
    exact ⟨Document.addressable_stampInside supply hvalues, spares_stampInside supply hspares⟩
  | push id path value scopes => exact Value.asElement_stamp supply value hcast
  | pull id path element scopes => trivial
  | deleteMatching filter => trivial
  | delete id => trivial

/-- An access whose values come from bodies and that spares the identifiers of elements leaves
addressable documents addressable. -/
theorem addressable_run {validator : Validator} {collection : String} {archive : Archive}
    {access : Access} (hcast : access.Cast) (hspares : access.Spares)
    (h : ∀ name, ∀ document ∈ archive.store.documents name, document.Addressable) (name : String) :
    ∀ document ∈ (access.run validator collection archive).2.store.documents name,
      document.Addressable := by
  rcases run_cases validator collection archive access with
    ⟨-, outcome, hrun⟩ | ⟨value, hrun⟩ | ⟨asked, supply, hissues, hrun⟩
  · rw [hrun]
    exact h name
  · rw [hrun]
    exact h name
  · rw [hrun]
    -- Only the collection that the command runs on can have changed.
    rcases Store.documents_run archive.store collection
      (fun documents => asked.perform (validator collection) collection documents) name with
      hsame | ⟨rfl, outcome, hperform⟩
    · rw [Store.command, hsame]
      exact h name
    · exact (addressable_of_issues hcast hspares hissues).perform (h name) hperform

end Access

/-! ## Requests -/

/-- What an action becomes writes values that come from its body. -/
theorem Action.Becomes.cast {action : Action} {address : Address} {access : Access}
    (h : action.Becomes address access) : access.Cast := by
  have hdocument : ∀ {body : Json} {document : Document}, documentOf body = .ok document →
      ∀ entry ∈ document, entry.2.Elements Document.MayHaveId :=
    fun read => Body.elements_of_document (mapError_eq_ok_iff.mp read)
  have hvalue : ∀ {path : String} {body : Json} {value : Value}, valueOf path body = .ok value →
      value.AsElement Document.MayHaveId :=
    fun read => Body.asElement_of_valueAt (mapError_eq_ok_iff.mp read)
  have hupdate : ∀ {path : String} {body : Json} {value : Value}, updateOf path body = .ok value →
      value.Elements Document.MayHaveId := by
    intro path body value read
    rw [updateOf] at read
    split at read
    · exact (hvalue read).2
    · cases read
  have hinsert : ∀ {document : Document} (id : ObjectId),
      (∀ entry ∈ document, entry.2.Elements Document.MayHaveId) →
      ∀ entry ∈ document.insert idField (.objectId id), entry.2.Elements Document.MayHaveId :=
    fun _ hall => Entries.forall_mem_insert hall (elements_of_isPlain trivial)
  cases h with
  | create whole read => exact hdocument read
  | replaceFirst whole read => exact hdocument read
  | merge whole read => exact hdocument read
  | replace leads bare read => exact hinsert _ (hdocument read)
  | mergeInto leads bare read => exact elements_document_iff.mpr (hdocument read)
  | push leads nested read => exact hvalue read
  | replaceElement leads nested last read =>
    exact elements_document_iff.mpr (hinsert _ (hdocument read))
  | replaceField leads nested last read => exact hupdate read
  | mergeElement leads nested last read =>
    refine elements_document_iff.mpr fun entry hentry => ?_
    obtain ⟨member, hmember, rfl⟩ := List.mem_map.mp (Entries.mem_of_mem_ofPairs hentry)
    exact hdocument read member hmember
  | mergeField leads nested last read => exact hupdate read
  | _ => trivial

/-- Whether a request spares the identifiers of elements, whatever it comes to. -/
def Request.Spares (request : Request) : Prop :=
  ∀ plan, request.plan = .ok plan → plan.access.Spares

namespace Archive

/-- The archive after requests to a collection, one after the other. -/
def handleAll (validator : Validator) (collection : String) (archive : Archive)
    (requests : List Request) : Archive :=
  requests.foldl (fun archive request => (archive.handle validator collection request).2) archive

variable {validator : Validator} {collection : String} {archive : Archive}

/-- A request that spares the identifiers of elements leaves addressable documents addressable. -/
theorem addressable_handle {request : Request} (hspares : request.Spares)
    (h : ∀ name, ∀ document ∈ archive.store.documents name, document.Addressable) (name : String) :
    ∀ document ∈ (archive.handle validator collection request).2.store.documents name,
      document.Addressable := by
  rcases snd_handle validator collection archive request with
    hsame | ⟨plan, hplan, hafter⟩
  · rw [hsame]
    exact h name
  · obtain ⟨-, -, haccess⟩ := Request.plan_eq_ok_iff.mp hplan
    rw [hafter]
    exact Access.addressable_run (Action.becomes_of_accessAt haccess).cast (hspares plan hplan) h
      name

/-- So do requests one after the other. -/
theorem addressable_handleAll {requests : List Request}
    (hspares : ∀ request ∈ requests, request.Spares)
    (h : ∀ name, ∀ document ∈ archive.store.documents name, document.Addressable) (name : String) :
    ∀ document ∈ (archive.handleAll validator collection requests).store.documents name,
      document.Addressable := by
  induction requests generalizing archive with
  | nil => exact h name
  | cons request requests ih =>
    obtain ⟨hrequest, hothers⟩ := List.forall_mem_cons.mp hspares
    exact ih hothers (addressable_handle hrequest h)

end Archive

end RestArchive
