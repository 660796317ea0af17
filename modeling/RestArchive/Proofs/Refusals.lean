import RestArchive.Proofs.Causes
import RestArchive.Proofs.Commands
import RestArchive.Proofs.Identity

/-! # A refused request changes nothing

Whatever the archive holds, a request that is answered with an error leaves every collection as it
was, and the error is never a fault of the machinery (`unchanged_of_refused`). There are three ways
to an error. The request comes to no access; the access fails, and then the store is the one from
before; or the access succeeds, but what it gives back is no answer. In the last case the request
only reads, or nothing was found to change. -/

namespace RestArchive

/-! ## Failures of the store -/

/-- Whether a failure is one that says that a document cannot be stored. -/
def StoreFailure.IsRejection : StoreFailure → Prop
  | .validation _ => True
  | .cast _ _ => True
  | .invalid _ => True
  | _ => False

/-- Whether a check fails only by saying that a document cannot be stored. -/
def Validator.OnlyRejects (validator : Validator) : Prop :=
  ∀ collection document failure, validator collection document = .error failure →
    failure.IsRejection

/-- Whether a failure is a fault of what is to be written, or an identifier that is taken, or what
the check says of a document. -/
def StoreFailure.IsRefusal (check : Document → Except StoreFailure Unit) (failure : StoreFailure) :
    Prop :=
  failure.IsFault ∨ (∃ id collection, failure = .alreadyExists id collection) ∨
    ∃ document, check document = .error failure

/-- The check that every document passes never fails. -/
theorem Validator.onlyRejects_none : Validator.none.OnlyRejects := by
  intro collection document failure hfailure
  cases hfailure

/-- Rules fail only by saying that a document cannot be stored, if what they forbid fields with
does. -/
theorem Rule.isRejection_of_checkAll {rules : List Rule} {document : Document}
    {failure : StoreFailure}
    (hforbid : ∀ field cause, forbid field cause ∈ rules → cause.IsRejection)
    (h : checkAll document rules = .error failure) : failure.IsRejection := by
  induction rules with
  | nil => cases h
  | cons rule rules ih =>
    rcases error_of_steps h with hrule | hrules
    · cases rule with
      | require field => cases hrule
      | requireInElements array field =>
        simp only [check] at hrule
        split at hrule <;> cases hrule
      | number field =>
        simp only [check] at hrule
        split at hrule
        · split at hrule <;> cases hrule
          trivial
        · cases hrule
      | forbid field cause =>
        simp only [check] at hrule
        split at hrule <;> cases hrule
        exact hforbid field failure List.mem_cons_self
    · exact ih (fun field cause hmem => hforbid field cause (List.mem_cons_of_mem _ hmem)) hrules

/-- A validator from rules only rejects, if what its rules forbid fields with does. -/
theorem Validator.onlyRejects_ofRules {rules : List Rule}
    (h : ∀ field cause, Rule.forbid field cause ∈ rules → cause.IsRejection) :
    (Validator.ofRules rules).OnlyRejects := by
  intro collection document failure hfailure
  rw [ofRules] at hfailure
  split at hfailure
  case h_1 cause hall =>
    cases hfailure
    exact Rule.isRejection_of_checkAll h hall
  case h_2 => cases hfailure
  case h_3 =>
    cases hfailure
    trivial

namespace Documents

variable {check : Document → Except StoreFailure Unit} {documents rest : Documents}
  {failure : StoreFailure}

/-- Changing the first document that passes a test fails only if the change does. -/
theorem exists_of_changeFirst_error {test : Document → Bool}
    {change : Document → Except StoreFailure Document}
    (h : documents.changeFirst test change = .error failure) :
    ∃ document ∈ documents, change document = .error failure := by
  induction documents with
  | nil => cases h
  | cons first others ih =>
    rw [changeFirst] at h
    split at h
    · exact ⟨first, List.mem_cons_self, map_eq_error_iff.mp h⟩
    · obtain ⟨document, hmem, hchange⟩ := ih (map_eq_error_iff.mp h)
      exact ⟨document, List.mem_cons_of_mem _ hmem, hchange⟩

/-- A change that is checked fails when it cannot be made, or when the check fails. -/
theorem isRefusal_of_checked {result : Except StoreFailure Document}
    (hresult : ∀ failure, result = .error failure → failure.IsFault)
    (h : (do let changed ← result; check changed; return changed) = .error failure) :
    failure.IsRefusal check := by
  rcases block_eq_error_iff.mp h with hfault | ⟨changed, -, hrest⟩
  · exact Or.inl (hresult failure hfault)
  · exact Or.inr (Or.inr ⟨changed, error_of_step hrest⟩)

/-- A document that has an identifier is not added because the check fails, or because its
identifier is taken. -/
theorem isRefusal_insert {name : String} {document : Document}
    (hid : document.get? idField ≠ none)
    (h : documents.insert check name document = .error failure) : failure.IsRefusal check := by
  rw [insert] at h
  split at h
  case h_1 hnone => exact absurd hnone hid
  case h_2 =>
    rcases block_eq_error_iff.mp h with hcheck | ⟨_, -, htaken⟩
    · exact Or.inr (Or.inr ⟨document, hcheck⟩)
    · simp only at htaken
      split at htaken <;> cases htaken
      exact Or.inr (Or.inl ⟨_, _, rfl⟩)

/-- A document is not put in the place of another because the check fails. -/
theorem isRefusal_replace {id : ObjectId} {document : Document} {upsert : Bool}
    (h : documents.replace check id document upsert = .error failure) :
    failure.IsRefusal check := by
  rcases block_eq_error_iff.mp h with hcheck | ⟨_, -, hrest⟩
  · exact Or.inr (Or.inr ⟨_, hcheck⟩)
  · rcases block_eq_error_iff.mp hrest with hchange | ⟨⟨answer, others⟩, -, hanswer⟩
    · -- The change puts the new document there and cannot fail: it was checked before.
      obtain ⟨_, -, hnever⟩ := exists_of_changeFirst_error hchange
      cases hnever
    · simp only at hanswer
      split at hanswer <;> cases hanswer

/-- A document is not put in the place of the first one that meets a filter because the check
fails. -/
theorem isRefusal_replaceFirst {filter : Filter} {document : Document}
    (h : documents.replaceFirst check filter document = .error failure) :
    failure.IsRefusal check := by
  obtain ⟨kept, -, hchange⟩ := exists_of_changeFirst_error h
  exact Or.inr (Or.inr ⟨_, error_of_step hchange⟩)

/-- An update fails when it cannot be made, or when the check fails. -/
theorem isRefusal_update {id : ObjectId} {update : Update}
    (h : documents.update check id update = .error failure) : failure.IsRefusal check := by
  obtain ⟨document, -, hchange⟩ := exists_of_changeFirst_error h
  exact isRefusal_of_checked (fun _ => Update.isFault_apply) hchange

/-- An update of the first document that meets a filter fails when it cannot be made, or when the
check fails. -/
theorem isRefusal_updateFirst {filter : Filter} {values : Document}
    (h : documents.updateFirst check filter values = .error failure) :
    failure.IsRefusal check := by
  obtain ⟨document, -, hchange⟩ := exists_of_changeFirst_error h
  exact isRefusal_of_checked (fun _ => Document.isFault_setAll) hchange

/-- An update of every document that meets a filter fails when it cannot be made in one of them, or
when the check fails. -/
theorem isRefusal_updateMany {filter : Filter} {values : Document}
    (h : documents.updateMany check filter values = .error failure) :
    failure.IsRefusal check := by
  induction documents with
  | nil => cases h
  | cons document others ih =>
    rw [updateMany] at h
    split at h
    · -- The values do not fit this document, or it does not pass then, or it is one behind it.
      rcases block_eq_error_iff.mp h with hset | ⟨changed, -, hrest⟩
      · exact Or.inl (Document.isFault_setAll hset)
      · rcases block_eq_error_iff.mp hrest with hcheck | ⟨_, -, hothers⟩
        · exact Or.inr (Or.inr ⟨changed, hcheck⟩)
        · rcases block_eq_error_iff.mp hothers with hothers | ⟨⟨summary, rest⟩, -, hanswer⟩
          · exact ih hothers
          · simp only at hanswer
            split at hanswer <;> cases hanswer
    · exact ih (error_of_step h)

end Documents

/-! ## Commands -/

/-- Whether an outcome says that nothing was found. -/
def Outcome.IsNothing : Outcome → Prop
  | .document none => True
  | .deleted 0 => True
  | _ => False

namespace Documents

variable {documents rest : Documents}

/-- A change of the first document that passes a test leaves the documents as they were if it found
none. -/
theorem eq_of_changeFirst_isNothing {test : Document → Bool}
    {change : Document → Except StoreFailure Document} {answer : Option Document}
    (hnothing : (Outcome.document answer).IsNothing)
    (h : documents.changeFirst test change = .ok (answer, rest)) : rest = documents := by
  cases answer with
  | none => exact (eq_of_changeFirst_none h).1
  | some found => exact hnothing.elim

/-- A removal by identifier leaves the documents as they were if it found none. -/
theorem snd_delete_of_isNothing {id : ObjectId}
    (hnothing : (Outcome.deleted (documents.delete id).1.toNat).IsNothing) :
    (documents.delete id).2 = documents := by
  have hnone : documents.any id.names = false := by
    cases hany : documents.any id.names with
    | false => rfl
    | true =>
      rw [delete, hany] at hnothing
      exact hnothing.elim
  refine List.eraseP_of_forall_not fun document hmem hnames => ?_
  rw [List.any_eq_true.mpr ⟨document, hmem, hnames⟩] at hnone
  cases hnone

/-- A removal by a filter leaves the documents as they were if it found none. -/
theorem snd_deleteMany_of_isNothing {filter : Filter}
    (hnothing : (Outcome.deleted (documents.deleteMany filter).1).IsNothing) :
    (documents.deleteMany filter).2 = documents := by
  have hnone : documents.countP (fun document => filter.accepts document) = 0 := by
    cases hcount : documents.countP fun document => filter.accepts document with
    | zero => rfl
    | succ count =>
      rw [deleteMany, hcount] at hnothing
      exact hnothing.elim
  refine List.filter_eq_self.mpr fun document hmem => ?_
  simpa using List.countP_eq_zero.mp hnone document hmem

end Documents

namespace Command

variable {check : Document → Except StoreFailure Unit} {collection : String}
  {documents rest : Documents} {asked : Command} {failure : StoreFailure} {outcome : Outcome}

/-- Whether the document that a command adds, if it adds one, has an identifier. -/
def Identified : Command → Prop
  | .insert document => document.get? idField ≠ none
  | _ => True

/-- A command fails for what was to be written. -/
theorem isRefusal_of_perform (hid : asked.Identified)
    (h : asked.perform check collection documents = .error failure) : failure.IsRefusal check := by
  cases asked with
  | find filter projection limit => cases h
  | get id => cases h
  | insert document => exact Documents.isRefusal_insert hid (map_eq_error_iff.mp h)
  | replace id document upsert => exact Documents.isRefusal_replace (map_eq_error_iff.mp h)
  | replaceFirst filter document => exact Documents.isRefusal_replaceFirst (map_eq_error_iff.mp h)
  | update id change => exact Documents.isRefusal_update (map_eq_error_iff.mp h)
  | updateFirst filter values => exact Documents.isRefusal_updateFirst (map_eq_error_iff.mp h)
  | updateMany filter values => exact Documents.isRefusal_updateMany (map_eq_error_iff.mp h)
  | delete id => cases h
  | deleteMany filter => cases h

/-- A command that found nothing left the documents as they were. -/
theorem eq_of_isNothing (hnothing : outcome.IsNothing)
    (h : asked.perform check collection documents = .ok (outcome, rest)) : rest = documents := by
  cases asked with
  | find filter projection limit =>
    cases h
    rfl
  | get id =>
    cases h
    rfl
  | insert document =>
    -- What is added is given back.
    obtain ⟨⟨added, others⟩, -, heq⟩ := map_eq_ok_iff.mp h
    cases heq
    exact hnothing.elim
  | replace id document upsert =>
    obtain ⟨⟨answer, others⟩, hreplace, heq⟩ := map_eq_ok_iff.mp h
    cases heq
    simp only [Documents.replace, block_eq_ok_iff] at hreplace
    obtain ⟨_, -, ⟨found, kept⟩, hkept, hanswer⟩ := hreplace
    split at hanswer
    · -- So is what is added here, when there was nothing to replace.
      cases hanswer
      exact hnothing.elim
    · cases hanswer
      exact Documents.eq_of_changeFirst_isNothing hnothing hkept
  | replaceFirst filter document =>
    obtain ⟨⟨answer, others⟩, hreplace, heq⟩ := map_eq_ok_iff.mp h
    cases heq
    exact Documents.eq_of_changeFirst_isNothing hnothing hreplace
  | update id change =>
    obtain ⟨⟨answer, others⟩, hupdate, heq⟩ := map_eq_ok_iff.mp h
    cases heq
    exact Documents.eq_of_changeFirst_isNothing hnothing hupdate
  | updateFirst filter values =>
    obtain ⟨⟨answer, others⟩, hupdate, heq⟩ := map_eq_ok_iff.mp h
    cases heq
    exact Documents.eq_of_changeFirst_isNothing hnothing hupdate
  | updateMany filter values =>
    -- A summary counts as an answer, also when it counts no document.
    obtain ⟨⟨summary, others⟩, -, heq⟩ := map_eq_ok_iff.mp h
    cases heq
    exact hnothing.elim
  | delete id =>
    cases h
    exact Documents.snd_delete_of_isNothing hnothing
  | deleteMany filter =>
    cases h
    exact Documents.snd_deleteMany_of_isNothing hnothing

end Command

/-! ## Accesses -/

/-- Writing what is there leaves every collection as it is. -/
theorem Store.documents_put_documents (store : Store) (name other : String) :
    (store.put name (store.documents name)).documents other = store.documents other := by
  by_cases hname : other = name
  · rw [hname, documents_put_self]
  · exact documents_put_of_ne store hname _

namespace Access

variable {validator : Validator} {collection : String} {archive : Archive} {access : Access}

/-- The document that a command adds has an identifier, for it was stamped. -/
theorem identified_of_issues {supply : IdSupply} {asked : Command} (hstorable : access.Storable)
    (h : access.Issues supply asked) : asked.Identified := by
  cases h with
  | create body =>
    obtain ⟨id, hid⟩ := Document.exists_hasId_stamp hstorable supply
    rw [Document.HasId] at hid
    rw [Command.Identified, hid]
    exact Option.some_ne_none _
  | _ => trivial

/-- An access that fails does so for what was to be written, and leaves the store as it was. -/
theorem isRefusal_of_run {failure : StoreFailure} (hstorable : access.Storable)
    (h : (access.run validator collection archive).1 = .error failure) :
    failure.IsRefusal (validator collection) ∧
      (access.run validator collection archive).2.store = archive.store := by
  rcases run_cases validator collection archive access with
    ⟨-, outcome, hrun⟩ | ⟨value, hrun⟩ | ⟨asked, supply, hissues, hrun⟩
  · rw [hrun] at h
    cases h
  · rw [hrun] at h ⊢
    cases h
    exact ⟨Or.inl trivial, rfl⟩
  · -- The supply of identifiers may have moved on; the store has not.
    rw [hrun] at h ⊢
    obtain ⟨hperform, hstore⟩ := Store.command_error h
    have hid := identified_of_issues hstorable hissues
    exact ⟨Command.isRefusal_of_perform hid hperform, hstore⟩

/-- An access that only looks, or that found nothing, leaves every collection as it was. -/
theorem documents_of_idle {outcome : Outcome}
    (h : (access.run validator collection archive).1 = .ok outcome)
    (hidle : access.IsRead ∨ outcome.IsNothing) (name : String) :
    (access.run validator collection archive).2.store.documents name =
      archive.store.documents name := by
  rcases run_cases validator collection archive access with
    ⟨-, outcome, hrun⟩ | ⟨value, hrun⟩ | ⟨asked, supply, hissues, hrun⟩
  · rw [hrun]
  · rw [hrun]
  · rw [hrun] at h ⊢
    obtain ⟨rest, hperform, hstore⟩ := Store.command_ok h
    rcases hidle with hread | hnothing
    · -- What gives a command does more than look.
      cases hissues <;> exact hread.elim
    · rw [hstore, Command.eq_of_isNothing hnothing hperform, Store.documents_put_documents]

end Access

/-! ## Answers -/

/-- Whether an error says that something is not there. -/
def RequestError.IsAbsence : RequestError → Prop
  | .idNotFound _ => True
  | .fieldNotFound _ => True
  | _ => False

/-- A descent fails where something is not there. -/
theorem Value.isAbsence_descend {value : Value} {segments : List Segment} {error : RequestError}
    (h : value.descend segments = .error error) : error.IsAbsence := by
  induction segments generalizing value with
  | nil =>
    rw [descend_nil] at h
    cases h
  | cons segment rest ih =>
    rw [descend_cons] at h
    rcases bind_eq_error_iff.mp h with hchild | ⟨below, -, hbelow⟩
    · cases segment with
      | identifier id =>
        simp only [child] at hchild
        split at hchild
        · split at hchild <;> cases hchild
          trivial
        · cases hchild
          trivial
      | field name =>
        simp only [child] at hchild
        split at hchild
        · split at hchild <;> cases hchild
          trivial
        · cases hchild
          trivial
    · exact ih hbelow

/-- Which outcomes an access has when it succeeds. -/
def Access.Answers : Access → Outcome → Prop
  | .query _ _ _, .documents _ => True
  | .merge _ _ single, .updated _ => single = false
  | .merge _ _ single, .document _ => single = true
  | .deleteMatching _, .deleted _ => True
  | .delete _, .deleted _ => True
  | .deleteMatching _, .document _ => False
  | .delete _, .document _ => False
  | _, .document _ => True
  | _, _ => False

/-- An operation that is run answers with its own kind of outcome. -/
theorem Archive.exists_of_runWith_ok {α : Type} {archive : Archive} {supply : IdSupply}
    {collection : String} {operation : Documents → Except StoreFailure (α × Documents)}
    {outcome : α → Outcome} {given : Outcome}
    (h : (archive.runWith supply collection operation outcome).1 = .ok given) :
    ∃ answer, given = outcome answer := by
  obtain ⟨answer, -, rfl⟩ := map_eq_ok_iff.mp h
  exact ⟨answer, rfl⟩

/-- An access has one of its outcomes. -/
theorem Access.answers_of_run {validator : Validator} {collection : String} {archive : Archive}
    {access : Access} {outcome : Outcome}
    (h : (access.run validator collection archive).1 = .ok outcome) : access.Answers outcome := by
  cases access with
  | query filter projection single =>
    cases single <;> cases h <;> trivial
  | fetch id projection path =>
    cases h
    trivial
  | merge filter body single =>
    cases single <;> obtain ⟨answer, rfl⟩ := Archive.exists_of_runWith_ok h <;> rfl
  | set id path value scopes =>
    simp only [run] at h
    split at h
    · split at h
      · obtain ⟨answer, rfl⟩ := Archive.exists_of_runWith_ok h
        trivial
      · cases h
    · obtain ⟨answer, rfl⟩ := Archive.exists_of_runWith_ok h
      trivial
  | _ =>
    obtain ⟨answer, rfl⟩ := Archive.exists_of_runWith_ok h
    trivial

namespace Outcome

variable {address : Address} {action : Action} {access : Access} {outcome : Outcome}
  {error : RequestError}

/-- The reply to a reading request fails because something is not there. -/
theorem isAbsence_of_replyToRead (hread : access.IsRead) (hanswers : access.Answers outcome)
    (h : outcome.replyToRead address = .error error) : error.IsAbsence := by
  cases outcome with
  | documents found => cases h
  | document found =>
    simp only [replyToRead] at h
    split at h
    · cases h
    · split at h
      · exact Value.isAbsence_descend (map_eq_error_iff.mp h)
      · cases h
        trivial
  | updated summary => cases access <;> first | exact hanswers.elim | exact hread.elim
  | deleted count => cases access <;> first | exact hanswers.elim | exact hread.elim

/-- A change of a document is not answered only when the document is not there. -/
theorem isAbsence_of_replyTo_document {found : Option Document} (hverb : action.verb ≠ .get)
    (h : (Outcome.document found).replyTo address action = .error error) :
    error.IsAbsence ∧ (Outcome.document found).IsNothing := by
  cases found with
  | some held =>
    exfalso
    cases action with
    | read filter projection single => exact hverb rfl
    | append body => cases h
    | replace body filter =>
      simp only [replyTo, replyToReplace] at h
      split at h <;> cases h
    | merge body filter single =>
      simp only [replyTo, replyToMerge] at h
      split at h <;> cases h
    | remove filter => cases h
  | none =>
    -- Each method has its own way to say that the document is not there.
    refine ⟨?_, trivial⟩
    cases action with
    | read filter projection single => exact absurd rfl hverb
    | append body =>
      cases h
      trivial
    | replace body filter =>
      simp only [replyTo, replyToReplace] at h
      split at h <;> cases h
      trivial
    | merge body filter single =>
      simp only [replyTo, replyToMerge] at h
      split at h <;> cases h
      trivial
    | remove filter =>
      cases h
      trivial

/-- The reply to a request that removes documents fails when there is none. -/
theorem isAbsence_of_replyToRemove_deleted {count : Nat}
    (h : (Outcome.deleted count).replyToRemove address = .error error) :
    error.IsAbsence ∧ (Outcome.deleted count).IsNothing := by
  simp only [replyToRemove] at h
  split at h
  · cases h
  · split at h
    case isTrue hzero =>
      subst hzero
      cases h
      exact ⟨trivial, trivial⟩
    case isFalse => cases h

/-- What an access gives back is no answer only if something is not there; and then the access only
looks, or nothing was found at all. -/
theorem isAbsence_of_replyTo (hbecomes : action.Becomes address access)
    (hanswers : access.Answers outcome) (h : outcome.replyTo address action = .error error) :
    error.IsAbsence ∧ (access.IsRead ∨ outcome.IsNothing) := by
  cases hbecomes
  case query | fetch | fetchInside =>
    refine ⟨isAbsence_of_replyToRead ?_ hanswers h, Or.inl ?_⟩ <;> trivial
  case merge =>
    cases outcome with
    | document found =>
      exact (isAbsence_of_replyTo_document (by simp [Action.verb]) h).imp_right Or.inr
    | updated summary => cases h
    | _ => exact hanswers.elim
  case deleteMatching | delete =>
    cases outcome with
    | deleted count => exact (isAbsence_of_replyToRemove_deleted h).imp_right Or.inr
    | _ => exact hanswers.elim
  -- All others change one document.
  all_goals
    cases outcome with
    | document found =>
      exact (isAbsence_of_replyTo_document (by simp [Action.verb]) h).imp_right Or.inr
    | _ => exact hanswers.elim

end Outcome

/-! ## Requests -/

/-- The document that an access adds was read from a body, and has an identifier or none. -/
theorem Action.Becomes.storable {action : Action} {address : Address} {access : Access}
    (h : action.Becomes address access) : access.Storable := by
  cases h with
  | create whole read => exact mayHaveId_of_documentOf read
  | _ => trivial

namespace RequestError

variable {check : Document → Except StoreFailure Unit} {error : RequestError}

/-- Whether an error is one of what the request says, or of something that is not there, or of what
was to be written. -/
def IsRefusal (check : Document → Except StoreFailure Unit) (error : RequestError) : Prop :=
  error.IsOfRequest ∨ error.IsAbsence ∨
    ∃ failure, error = .store failure ∧ failure.IsRefusal check

/-- A fault of what is to be written is the fault of the request. -/
theorem kindOfFailure_of_isFault {failure : StoreFailure} (h : failure.IsFault) :
    kindOfFailure failure = .badRequest := by
  cases failure <;> first | rfl | exact h.elim

/-- A refusal is the fault of the request, or says that something is not there, if the check only
rejects. -/
theorem IsRefusal.kind_eq
    (hrejects : ∀ document failure, check document = .error failure → failure.IsRejection)
    (h : error.IsRefusal check) : error.kind = .badRequest ∨ error.kind = .notFound := by
  rcases h with hrequest | habsence |
    ⟨failure, rfl, hfault | ⟨id, collection, rfl⟩ | ⟨document, hcheck⟩⟩
  · cases error with
    | invalidRoot isWrite text => cases isWrite <;> simp [kind]
    | store failure => exact Or.inl (kindOfFailure_of_isFault hrequest)
    | _ => first | exact Or.inl rfl | exact hrequest.elim
  · cases error <;> first | exact Or.inl rfl | exact Or.inr rfl | exact habsence.elim
  · exact Or.inl (kindOfFailure_of_isFault hfault)
  · exact Or.inl rfl
  · have hrejection := hrejects document failure hcheck
    cases failure <;> first | exact Or.inl rfl | exact hrejection.elim

/-- No refusal says that the store answered something else than what was asked for. -/
theorem IsRefusal.ne_unexpectedOutcome (h : error.IsRefusal check) (found : String) :
    error ≠ .unexpectedOutcome found := by
  rintro rfl
  rcases h with hrequest | habsence | ⟨failure, hstore, -⟩
  · exact hrequest
  · exact habsence
  · cases hstore

/-- No refusal says that nothing can be replaced. -/
theorem IsRefusal.ne_methodRefused (h : error.IsRefusal check) :
    error ≠ .methodRefused Verb.put.text := by
  rintro rfl
  rcases h with hrequest | habsence | ⟨failure, hstore, -⟩
  · exact hrequest rfl
  · exact habsence
  · cases hstore

/-- A refusal for a document without an identifier is one of the check. -/
theorem IsRefusal.exists_of_unidentified (h : (store (.invalid .unidentified)).IsRefusal check) :
    ∃ document, check document = .error (.invalid .unidentified) := by
  rcases h with hrequest | habsence | ⟨failure, hstore, hfault | ⟨id, collection, htaken⟩ | hcheck⟩
  · exact hrequest.elim
  · exact habsence.elim
  · cases hstore
    exact hfault.elim
  · cases hstore
    cases htaken
  · cases hstore
    exact hcheck

end RequestError

namespace Archive

variable {validator : Validator} {collection : String} {archive : Archive} {request : Request}
  {error : RequestError}

/-- A request that is answered with an error is refused, and leaves every collection as it was. -/
theorem isRefusal_of_handle
    (h : (archive.handle validator collection request).1 = .error error) :
    error.IsRefusal (validator collection) ∧
      ∀ name, (archive.handle validator collection request).2.store.documents name =
        archive.store.documents name := by
  cases hplan : request.plan with
  | error cause =>
    rw [handle_of_plan_error hplan] at h ⊢
    cases h
    exact ⟨Or.inl (Request.isOfRequest_plan hplan), fun _ => rfl⟩
  | ok plan =>
    obtain ⟨-, -, haccess⟩ := Request.plan_eq_ok_iff.mp hplan
    have hbecomes := Action.becomes_of_accessAt haccess
    have hstorable := hbecomes.storable
    rw [handle_of_plan_ok hplan] at h ⊢
    rcases bind_eq_error_iff.mp h with hrun | ⟨outcome, hrun, hreply⟩
    · -- The access fails.
      obtain ⟨failure, hfailure, rfl⟩ := mapError_eq_error_iff.mp hrun
      obtain ⟨hrefusal, hstore⟩ := Access.isRefusal_of_run hstorable hfailure
      exact ⟨Or.inr (Or.inr ⟨failure, rfl, hrefusal⟩), fun name => by rw [hstore]⟩
    · -- The access succeeds, but what it gives back is no answer.
      have houtcome := mapError_eq_ok_iff.mp hrun
      obtain ⟨habsence, hidle⟩ :=
        Outcome.isAbsence_of_replyTo hbecomes (Access.answers_of_run houtcome) hreply
      exact ⟨Or.inr (Or.inl habsence), Access.documents_of_idle houtcome hidle⟩

/-- Whatever the archive holds: a request that is answered with an error was wrong, or names what is
not there; the error is never that the machinery did something unforeseen, nor that nothing can be
replaced, and that a document has no identifier is never said but by the check. And every collection
holds the documents that it held before, in the same order. -/
theorem unchanged_of_refused (hrejects : validator.OnlyRejects)
    (h : (archive.handle validator collection request).1 = .error error) :
    (error.kind = .badRequest ∨ error.kind = .notFound) ∧
      (∀ found, error ≠ .unexpectedOutcome found) ∧
      error ≠ .methodRefused Verb.put.text ∧
      (error = .store (.invalid .unidentified) →
        ∃ document, validator collection document = .error (.invalid .unidentified)) ∧
      ∀ name, (archive.handle validator collection request).2.store.documents name =
        archive.store.documents name := by
  obtain ⟨hrefusal, hsame⟩ := isRefusal_of_handle h
  have hkind := hrefusal.kind_eq (hrejects collection)
  refine ⟨hkind, hrefusal.ne_unexpectedOutcome, hrefusal.ne_methodRefused, ?_, hsame⟩
  intro hunidentified
  rw [hunidentified] at hrefusal
  exact hrefusal.exists_of_unidentified

/-- An archive with two documents, the second of which does not take what the first one takes. -/
def halfMergeable : Archive :=
  ⟨⟨[("notes", [[(idField, .objectId (.ofNat 7)), ("inner", .document [])],
    [(idField, .objectId (.ofNat 8)), ("inner", .int32 1)]])]⟩, ⟨.ofNat, 9⟩⟩

/-- A merge into all documents that goes wrong at the second one. -/
def mergeInside : Request := ⟨.patch, "", [], .object [("inner.depth", .integer 2)]⟩

/-- The first document has not been changed either. -/
theorem unchanged_of_refused_halfMergeable :
    Validator.none.OnlyRejects ∧
      (halfMergeable.handle .none "notes" mergeInside).1 =
        .error (.store (.invalid (.notADocument "inner" (.int32 1)))) ∧
      ∀ name, (halfMergeable.handle .none "notes" mergeInside).2.store.documents name =
        halfMergeable.store.documents name := by
  have hrefused : (halfMergeable.handle .none "notes" mergeInside).1 =
      .error (.store (.invalid (.notADocument "inner" (.int32 1)))) := by rfl
  exact ⟨Validator.onlyRejects_none, hrefused,
    (unchanged_of_refused Validator.onlyRejects_none hrefused).2.2.2.2⟩

end Archive

end RestArchive
