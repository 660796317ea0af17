import RestArchive.Proofs.Denotation
import RestArchive.Proofs.Refusals

/-! # Replies show what is stored

A request that changes something is answered with the document that it changed or added, bare or as
data, or tells only how many documents it met, or that there was none (`replyTo_cases`). A document
that is shown is the one that is stored afterwards, and since the documents of a collection have
distinct identifiers, reading it under its own gives the very same JSON
(`get_of_answered`). -/

namespace RestArchive

/-! ## Reading one document -/

namespace Document

/-- A member of a document stands in its JSON form under the same name. -/
theorem member?_toJson (document : Document) (name : String) :
    document.toJson.member? name = (document.get? name).map Value.toJson := by
  rw [toJson, Json.member?]
  induction document with
  | nil => rfl
  | cons entry others ih =>
    obtain ⟨key, value⟩ := entry
    by_cases hkey : key = name
    · simp [Value.membersToJson, hkey]
    · simpa [Value.membersToJson, hkey] using ih

end Document

/-- A slash and an identifier are the path of the document of that identifier. -/
theorem Address.parse_hex (id : ObjectId) (omitsLast : Bool) :
    parse ("/" ++ id.toHex) omitsLast = .ok ⟨some id.toHex, [], omitsLast⟩ := by
  have hslash : '/' ∉ id.toHex.toList := ObjectId.not_mem_of_isIdText id.isIdText_toHex rfl
  have hleading : Text.dropLeading '/' ("/" ++ id.toHex) = id.toHex :=
    Text.dropLeading_singleton_append '/' '/' id.toHex
  have htrailing : Text.dropTrailing '/' id.toHex = id.toHex :=
    if_neg fun hlast => hslash (List.mem_of_getLast? hlast)
  simp only [parse, hleading, htrailing, Text.split_of_not_mem hslash,
    if_neg id.toHex_ne_empty]
  rfl

namespace Request

/-- The request for the document of an identifier, without parameters. -/
def forId (id : ObjectId) (body : Json) : Request := ⟨.get, "/" ++ id.toHex, [], body⟩

/-- It comes to the access that looks for the identifier. -/
theorem plan_forId (id : ObjectId) (body : Json) : (forId id body).plan =
    .ok ⟨.read none none false, ⟨some id.toHex, [], false⟩, .fetch id none []⟩ := by
  refine plan_eq_ok_iff.mpr ⟨rfl, Address.parse_hex id false, ?_⟩
  simp [Action.accessAt, Address.isNested, Action.onDocument]

end Request

namespace Archive

variable {validator : Validator} {collection : String} {archive : Archive}

/-- It is answered with the document that is found under the identifier. -/
theorem handle_forId {id : ObjectId} {held : Document}
    (hget : (archive.store.documents collection).get? id = some held) (body : Json) :
    archive.handle validator collection (.forId id body) =
      (.ok (.data 200 held.toJson), archive) := by
  rw [handle_of_plan_ok (Request.plan_forId id body)]
  simp only [Access.run, hget]
  rfl

/-- A document that is stored after some requests is what its own identifier is answered with. -/
theorem Served.handle_forId_of_mem (h : Served validator archive) {held : Document}
    (hmem : held ∈ archive.store.documents collection) :
    ∃ id : ObjectId, held.toJson.member? idField = some (.string id.toHex) ∧
      ∀ body, archive.handle validator collection (.forId id body) =
        (.ok (.data 200 held.toJson), archive) := by
  obtain ⟨ids, hids, hnodup⟩ := h.exists_haveIds collection
  obtain ⟨id, -, hid⟩ := hids.exists_hasId hmem
  have hget := (hids.unambiguous hnodup).get?_of_mem hmem (hid.names_iff.mpr rfl)
  refine ⟨id, ?_, handle_forId hget⟩
  rw [Document.HasId] at hid
  rw [Document.member?_toJson, hid]
  rfl

end Archive

/-! ## Replies to changes -/

namespace Access

variable {validator : Validator} {collection : String} {archive : Archive} {access : Access}

/-- The document that an access answers with is stored afterwards, unless the access only looks. -/
theorem mem_of_run {answered : Document} (hchanges : ¬ access.IsRead)
    (h : (access.run validator collection archive).1 = .ok (.document (some answered))) :
    answered ∈ (access.run validator collection archive).2.store.documents collection := by
  rcases run_cases validator collection archive access with
    ⟨hread, -⟩ | ⟨value, hrun⟩ | ⟨asked, supply, -, hrun⟩
  · exact absurd hread hchanges
  · rw [hrun] at h
    cases h
  · rw [hrun] at h ⊢
    obtain ⟨rest, hperform, hstore⟩ := Store.command_ok h
    rw [hstore, Store.documents_put_self]
    exact Command.mem_of_perform hperform

end Access

namespace Action

/-- How an action that changes something is answered with a document: bare if a collection got a new
one or a document was put at its identifier, and as data otherwise. -/
def replyWith (address : Address) (shown : Json) : Action → Reply
  | .append _ => if address.isCollection then .bare 201 shown else .data 201 shown
  | .replace _ _ =>
    if address.isCollection || address.isNested then .data 200 shown else .bare 200 shown
  | _ => .data 200 shown

/-- Which replies to an action that changes something show no document. -/
inductive TellsNone (address : Address) : Action → Reply → Prop
  /-- How many documents of a collection values were put into. -/
  | summary {body : Json} {filter : Option Filter} (whole : address.isCollection)
      (summary : UpdateSummary) :
      TellsNone address (.merge body filter false) (.data 200 (.object
        [("matched", .integer summary.matched), ("modified", .integer summary.modified)]))
  /-- That there was no document to replace. -/
  | noneReplaced {body : Json} {filter : Option Filter} (whole : address.isCollection) :
      TellsNone address (.replace body filter) (.data 200 .null)
  /-- That there was no document to put values into. -/
  | noneMerged {body : Json} {filter : Option Filter} (whole : address.isCollection) :
      TellsNone address (.merge body filter true) (.data 200 .null)
  /-- How many documents of a collection were removed. -/
  | count {filter : Option Filter} (whole : address.isCollection) (count : Nat) :
      TellsNone address (.remove filter) (.data 200 (.object [("deletedCount", .integer count)]))
  /-- That a document was removed. -/
  | removed {filter : Option Filter} (one : address.isCollection = false)
      (bare : address.isNested = false) : TellsNone address (.remove filter) .empty

end Action

namespace Address

variable {address : Address}

/-- The address without a document is the whole collection. -/
theorem isCollection_of_root (h : address.root = none) : address.isCollection := by
  rw [isCollection, h]
  rfl

end Address

namespace Outcome

variable {address : Address} {action : Action} {access : Access} {outcome : Outcome}
  {reply : Reply} {held : Document}

/-- A document is an answer to every action that changes something. -/
theorem replyTo_some (hverb : action.verb ≠ .get) :
    (Outcome.document (some held)).replyTo address action =
      .ok (action.replyWith address held.toJson) := by
  cases action with
  | read filter projection single => exact absurd rfl hverb
  | append body => rfl
  | replace body filter =>
    simp only [replyTo, replyToReplace, Action.replyWith, optionalToJson]
    cases address.isCollection <;> cases address.isNested <;> rfl
  | merge body filter single =>
    simp only [replyTo, replyToMerge, Action.replyWith, optionalToJson, ite_self]
  | remove filter => rfl

/-- That there is no document is an answer only for a whole collection. -/
theorem tellsNone_of_replyTo_none (hverb : action.verb ≠ .get)
    (hbecomes : action.Becomes address access) (hanswers : access.Answers (.document none))
    (h : (Outcome.document none).replyTo address action = .ok reply) :
    action.TellsNone address reply := by
  cases hbecomes with
  | query | fetch | fetchInside => exact absurd rfl hverb
  | create | push | pull => cases h
  | replaceFirst whole =>
    have hwhole := Address.isCollection_of_root whole
    rw [replyTo, replyToReplace, if_pos hwhole] at h
    cases h
    exact .noneReplaced hwhole
  | merge whole =>
    have hwhole := Address.isCollection_of_root whole
    cases hanswers
    rw [replyTo, replyToMerge, if_pos hwhole] at h
    cases h
    exact .noneMerged hwhole
  | deleteMatching | delete => exact hanswers.elim
  | replace leads | replaceElement leads | replaceField leads =>
    rw [replyTo, replyToReplace, leads.isCollection_eq] at h
    cases h
  | mergeInto leads | mergeElement leads | mergeField leads =>
    rw [replyTo, replyToMerge, leads.isCollection_eq] at h
    cases h

/-- An action that changes something is answered with the document that its access answers with, or
with a reply that shows none. -/
theorem replyTo_cases (hverb : action.verb ≠ .get) (hbecomes : action.Becomes address access)
    (hanswers : access.Answers outcome) (h : outcome.replyTo address action = .ok reply) :
    action.TellsNone address reply ∨ ∃ held, outcome = .document (some held) ∧
      reply = action.replyWith address held.toJson := by
  cases outcome with
  | documents found =>
    cases hbecomes <;> first | exact absurd rfl hverb | exact hanswers.elim
  | document found =>
    cases found with
    | none => exact Or.inl (tellsNone_of_replyTo_none hverb hbecomes hanswers h)
    | some held =>
      rw [replyTo_some hverb] at h
      cases h
      exact Or.inr ⟨held, rfl, rfl⟩
  | updated summary =>
    cases hbecomes
    case merge whole _ =>
      cases hanswers
      cases h
      exact Or.inl (.summary (Address.isCollection_of_root whole) summary)
    all_goals exact hanswers.elim
  | deleted count =>
    cases hbecomes
    case deleteMatching whole =>
      have hwhole := Address.isCollection_of_root whole
      rw [replyTo, replyToRemove, if_pos hwhole] at h
      cases h
      exact Or.inl (.count hwhole count)
    case delete leads bare =>
      have hone := leads.isCollection_eq
      rw [replyTo, replyToRemove, hone, if_neg Bool.false_ne_true] at h
      split at h <;> cases h
      exact Or.inl (.removed hone bare)
    all_goals exact hanswers.elim

end Outcome

/-- The access for an action that changes something does more than look. -/
theorem Action.Becomes.not_isRead {action : Action} {address : Address} {access : Access}
    (h : action.Becomes address access) (hverb : action.verb ≠ .get) : ¬ access.IsRead := by
  cases h with
  | query | fetch | fetchInside => exact absurd rfl hverb
  | _ => exact not_false

/-! ## Requests -/

namespace Archive

variable {validator : Validator} {collection : String} {archive after : Archive}
  {request : Request} {reply : Reply}

/-- Whatever requests came, to any collections, from an empty store and whatever identifiers were drawn:
a request that changes something and is answered is answered with a reply that shows no document, or
with a document as it is stored then. A request for the identifier that is shown is answered with the
same document. -/
theorem get_of_answered (h : Served validator archive) (hverb : request.verb ≠ .get)
    (hok : archive.handle validator collection request = (.ok reply, after)) :
    ∃ action address, request.action = .ok action ∧
      Address.parse request.path action.omitsLast = .ok address ∧
      (action.TellsNone address reply ∨
        ∃ (shown : Json) (id : ObjectId), reply = action.replyWith address shown ∧
          shown.member? idField = some (.string id.toHex) ∧
          ∀ body, after.handle validator collection ⟨.get, "/" ++ id.toHex, [], body⟩ =
            (.ok (.data 200 shown), after)) := by
  cases hplan : request.plan with
  | error error =>
    rw [handle_of_plan_error hplan] at hok
    cases hok
  | ok plan =>
    obtain ⟨haction, haddress, haccess⟩ := Request.plan_eq_ok_iff.mp hplan
    have hserved : Served validator after := by
      have hstep := h.step collection request
      rw [hok] at hstep
      exact hstep
    rw [handle_of_plan_ok hplan, Prod.mk.injEq] at hok
    obtain ⟨hreply, rfl⟩ := hok
    obtain ⟨outcome, hrun, hreply⟩ := bind_eq_ok_iff.mp hreply
    have houtcome := mapError_eq_ok_iff.mp hrun
    refine ⟨plan.action, plan.address, haction, haddress, ?_⟩
    have hbecomes := Action.becomes_of_accessAt haccess
    rw [← Request.verb_of_action haction] at hverb
    rcases Outcome.replyTo_cases hverb hbecomes (Access.answers_of_run houtcome) hreply with
      hnone | ⟨held, rfl, rfl⟩
    · exact Or.inl hnone
    · have hmem := Access.mem_of_run (hbecomes.not_isRead hverb) houtcome
      obtain ⟨id, hid, hget⟩ := hserved.handle_forId_of_mem hmem
      exact Or.inr ⟨held.toJson, id, rfl, hid, hget⟩

/-- The archive after a document was posted under the first identifier that is drawn. -/
def postedOnce : Archive :=
  (Archive.handle .none "notes" ⟨Store.empty, .countingFrom 7⟩
    ⟨.post, "", [], .object [("n", .integer 1)]⟩).2

/-- A request to put a value into one document. -/
def mergeIntoOne : Request :=
  ⟨.patch, "", [("multiplicity", "one")], .object [("m", .integer 2)]⟩

/-- The document with the value, as it is shown. -/
def mergedOnce : Json :=
  .object [("n", .integer 1), (idField, .string (ObjectId.ofNat 7).toHex), ("m", .integer 2)]

/-- The merge is answered with the document, and so is the request for its identifier. -/
theorem get_of_answered_mergedOnce :
    (postedOnce.handle .none "notes" mergeIntoOne).1 = .ok (.data 200 mergedOnce) ∧
      ∃ id : ObjectId, mergedOnce.member? idField = some (.string id.toHex) ∧
        ∀ body, (postedOnce.handle .none "notes" mergeIntoOne).2.handle .none "notes"
            ⟨.get, "/" ++ id.toHex, [], body⟩ =
          (.ok (.data 200 mergedOnce), (postedOnce.handle .none "notes" mergeIntoOne).2) := by
  have hserved : Served .none postedOnce := .step "notes" _ (.start _)
  have hanswered : postedOnce.handle .none "notes" mergeIntoOne =
      (.ok (.data 200 mergedOnce), (postedOnce.handle .none "notes" mergeIntoOne).2) :=
    Prod.ext (by rfl) rfl
  obtain ⟨action, address, haction, -, hnone | ⟨shown, id, hreply, hid, hget⟩⟩ :=
    get_of_answered hserved (by decide) hanswered
  · cases haction
    cases hnone
  · cases haction
    cases hreply
    exact ⟨congrArg Prod.fst hanswered, id, hid, hget⟩

end Archive

end RestArchive
