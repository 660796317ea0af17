import RestArchive.Proofs.Commands
import RestArchive.Proofs.Identity
import RestArchive.Proofs.Requests
import RestArchive.Proofs.ScopedText

/-! # Nested writes stay below the first segment

A write inside a document goes in by the name of a member, and changes that member only
(`sameApart_of_handle`). The name travels at the head of a dotted path. It is found there again
unless it has a dot, is spelled like a placeholder without an identifier behind it, or is empty and
the whole of the path: the empty path means a merge into the document (`at_emptyName`). -/

namespace RestArchive

/-! ## Paths that go in by a name -/

namespace Step

/-- Whether a path goes in by a name: whenever it is read as steps, the first one changes the member
of that name. -/
def GoesBy (scopes : List Scope) (name path : String) : Prop :=
  ∀ steps, parse scopes path = .ok steps → ∃ step rest, steps = step :: rest ∧ step.member = name

/-- A path goes in by what its first token is read as. -/
theorem goesBy_of_split {scopes : List Scope} {name path token : String} {tokens : List String}
    (hsplit : Text.split '.' path = token :: tokens)
    (htoken : ∀ step, ofToken scopes path token = .ok step → step.member = name) :
    GoesBy scopes name path := by
  intro steps hsteps
  rw [parse, hsplit] at hsteps
  split at hsteps
  · cases hsteps
  · simp only [ofTokens, block_eq_ok_iff, pure_eq_ok_iff] at hsteps
    obtain ⟨first, hfirst, others, -, rfl⟩ := hsteps
    exact ⟨first, others, rfl, htoken first hfirst⟩

end Step

namespace Segment

/-- A name in front of other segments that is found again at the head of the dotted path. -/
structure Legible (name : String) (behind : List Segment) : Prop where
  /-- It has no dot. -/
  dotless : '.' ∉ name.toList
  /-- It is not spelled like a placeholder when another name follows. -/
  plain : placeholderLabel? name = none ∨ ∀ other rest, behind ≠ .field other :: rest
  /-- It is not empty when nothing follows. -/
  visible : name ≠ "" ∨ behind ≠ []

/-- The first token of the dotted form of segments. -/
def headToken (name : String) (behind : List Segment) : String :=
  match behind with
  | .identifier _ :: _ => placeholder name
  | _ => name

/-- The dotted form of segments starts with the first token. -/
theorem exists_tokens_eq_cons (name : String) (behind : List Segment) :
    ∃ others, (ScopedPath.ofSegments [] (.field name :: behind)).tokens =
      headToken name behind :: others := by
  cases behind with
  | nil => exact ⟨_, rfl⟩
  | cons segment rest => cases segment <;> exact ⟨_, rfl⟩

variable {name : String} {behind : List Segment}

/-- The first token has no dot when the name has none. -/
theorem dot_not_mem_headToken (h : '.' ∉ name.toList) :
    '.' ∉ (headToken name behind).toList := by
  unfold headToken
  split
  · exact dot_not_mem_placeholder h
  · exact h

/-- The first token is read as a step to the member of the name. -/
theorem member_of_ofToken_headToken
    (hplain : placeholderLabel? name = none ∨ ∀ other rest, behind ≠ .field other :: rest)
    {path : String} {step : Step}
    (h : Step.ofToken (ScopedPath.ofSegments [] (.field name :: behind)).scopes path
      (headToken name behind) = .ok step) : step.member = name := by
  cases behind with
  | nil =>
    -- There are no scopes, so the token can only be read as a name.
    rw [Step.ofToken] at h
    split at h
    · cases h
      rfl
    · cases h
  | cons segment rest =>
    cases segment with
    | identifier id =>
      -- The first scope is the one that the placeholder stands for.
      have hscopes : (ScopedPath.ofSegments [] (.field name :: .identifier id :: rest)).scopes =
          ⟨name, name, id⟩ ::
            (ScopedPath.ofSegments [name] rest).scopes := by
        simp [ScopedPath.ofSegments, freeLabel]
      rw [Step.ofToken, hscopes, headToken, placeholderLabel?_placeholder] at h
      simp only [Scope.find?, List.find?_cons_of_pos, decide_true] at h
      cases h
      rfl
    | field other =>
      have hname : placeholderLabel? name = none := by
        rcases hplain with hname | hnone
        · exact hname
        · exact absurd rfl (hnone other rest)
      rw [headToken, Step.ofToken, hname] at h
      · cases h
        rfl
      · intro id others hcons
        cases hcons

/-- The first piece of the dotted form of segments is the first token. -/
theorem exists_split_text (hdotless : '.' ∉ name.toList) :
    ∃ pieces, Text.split '.' (ScopedPath.ofSegments [] (.field name :: behind)).text =
      headToken name behind :: pieces := by
  obtain ⟨others, htokens⟩ := exists_tokens_eq_cons name behind
  rw [ScopedPath.text, htokens]
  exact Text.exists_split_join_cons (dot_not_mem_headToken hdotless) others

/-- The dotted form of segments is not empty, unless they are the empty name alone. -/
theorem text_ne_empty (hvisible : name ≠ "" ∨ behind ≠ []) :
    (ScopedPath.ofSegments [] (.field name :: behind)).text ≠ "" := by
  intro hempty
  obtain ⟨others, htokens⟩ := exists_tokens_eq_cons name behind
  rw [ScopedPath.text, htokens] at hempty
  -- A second token would stand behind a dot.
  have hothers : others = [] := by
    by_contra hne
    have hchars := congrArg String.toList hempty
    rw [Text.toList_join_cons _ _ hne] at hchars
    simp at hchars
  subst hothers
  have hhead : headToken name behind = "" := by simpa [Text.join] using hempty
  cases behind with
  | nil => exact hvisible.elim (fun hne => hne hhead) fun hne => hne rfl
  | cons segment below =>
    cases segment with
    | identifier id =>
      have hchars := congrArg String.toList hhead
      simp [headToken, placeholder] at hchars
    | field other =>
      obtain ⟨more, hmore⟩ := exists_tokens_eq_cons other below
      have hnone : (ScopedPath.ofSegments [] (.field other :: below)).tokens = [] :=
        (List.cons.inj htokens).2
      rw [hmore] at hnone
      cases hnone

end Segment

/-! ## Updates that go in by a name -/

namespace Document

/-- Whether two documents have the same members apart from those of a name: the same names, in the
same order, with the same values. -/
def SameApart (name : String) (before after : Document) : Prop :=
  Entries.erase after name = Entries.erase before name

namespace SameApart

variable {name : String} {first second third : Document}

/-- Every document is the same as itself. -/
theorem refl (name : String) (document : Document) : document.SameApart name document := rfl

/-- What is the same twice is the same. -/
theorem trans (h : first.SameApart name second) (h' : second.SameApart name third) :
    first.SameApart name third :=
  Eq.trans h' h

/-- Every other member has the value that it had, or is absent as it was. -/
theorem get?_eq (h : first.SameApart name second) {key : String} (hne : key ≠ name) :
    second.get? key = first.get? key := by
  rw [← Entries.get?_erase_of_ne second hne, ← Entries.get?_erase_of_ne first hne, h]

end SameApart

variable {scopes : List Scope} {name : String} {document changed : Document}

/-- An update along steps changes the member of the first one only. -/
theorem sameApart_along {terminal : Terminal} {step : Step} {rest : List Step}
    (h : terminal.along document (step :: rest) = .ok changed) :
    document.SameApart step.member changed := by
  obtain ⟨result, -, rfl, -⟩ := Terminal.along_cons_ok h
  cases result with
  | none => exact SameApart.refl _ _
  | some value => exact Entries.erase_insert document _ value

/-- An update at a path that goes in by a name changes the member of that name only. -/
theorem sameApart_atPath {terminal : Terminal} {path : String}
    (hpath : Step.GoesBy scopes name path)
    (h : terminal.atPath scopes document path = .ok changed) : document.SameApart name changed := by
  obtain ⟨steps, hsteps, halong⟩ := bind_eq_ok_iff.mp h
  obtain ⟨step, rest, rfl, rfl⟩ := hpath steps hsteps
  exact sameApart_along halong

/-- Values whose paths all go in by a name change the member of that name only. -/
theorem sameApart_setAll {values : Document}
    (hpaths : ∀ path ∈ values.names, Step.GoesBy scopes name path)
    (h : document.setAll scopes values = .ok changed) : document.SameApart name changed := by
  induction values generalizing document with
  | nil =>
    cases h
    exact SameApart.refl name _
  | cons entry values ih =>
    obtain ⟨path, value⟩ := entry
    obtain ⟨inner, hinner, hothers⟩ := bind_eq_ok_iff.mp h
    have hfirst : document.SameApart name inner :=
      sameApart_atPath (hpaths path List.mem_cons_self) (atPath_of_setAt hinner)
    exact hfirst.trans (ih (fun path hpath => hpaths path (List.mem_cons_of_mem _ hpath)) hothers)

end Document

namespace Update

/-- Whether all paths of an update go in by a name. -/
def GoesBy (name : String) (update : Update) : Prop :=
  match update.change with
  | .set values => ∀ path ∈ values.names, Step.GoesBy update.scopes name path
  | .push path _ => Step.GoesBy update.scopes name path
  | .pull path _ => Step.GoesBy update.scopes name path

/-- An update that goes in by a name changes the member of that name only. -/
theorem GoesBy.sameApart {update : Update} {name : String} {document changed : Document}
    (hgoes : update.GoesBy name) (h : update.apply document = .ok changed) :
    document.SameApart name changed := by
  obtain ⟨change, scopes⟩ := update
  cases change with
  | set values => exact Document.sameApart_setAll hgoes h
  | push path value => exact Document.sameApart_atPath hgoes h
  | pull path id => exact Document.sameApart_atPath hgoes h

end Update

/-- What the first document that meets a test is changed into stands in its place; all others are
where they were. -/
theorem Documents.exists_of_changeFirst_some {documents rest : Documents} {test : Document → Bool}
    {change : Document → Except StoreFailure Document} {changed : Document}
    (h : documents.changeFirst test change = .ok (some changed, rest)) :
    ∃ before document following, documents = before ++ document :: following ∧
      rest = before ++ changed :: following ∧ (∀ other ∈ before, test other = false) ∧
      test document ∧ change document = .ok changed := by
  induction documents generalizing rest with
  | nil => cases h
  | cons first others ih =>
    rw [changeFirst] at h
    split at h
    case isTrue htest =>
      obtain ⟨result, hresult, heq⟩ := map_eq_ok_iff.mp h
      cases heq
      exact ⟨[], first, others, rfl, rfl, by simp, htest, hresult⟩
    case isFalse htest =>
      obtain ⟨⟨answer, kept⟩, hkept, heq⟩ := map_eq_ok_iff.mp h
      cases heq
      obtain ⟨before, document, following, rfl, rfl, hbefore, hdocument, hchange⟩ := ih hkept
      refine ⟨first :: before, document, following, rfl, rfl, ?_, hdocument, hchange⟩
      intro other hother
      rcases List.mem_cons.mp hother with rfl | hother
      · simpa using htest
      · exact hbefore other hother

/-- An update that answers has changed the first document of the identifier, in its place. -/
theorem Documents.exists_of_update_some {check : Document → Except StoreFailure Unit}
    {id : ObjectId} {update : Update} {documents rest : Documents} {changed : Document}
    (h : documents.update check id update = .ok (some changed, rest)) :
    ∃ before document following, documents = before ++ document :: following ∧
      rest = before ++ changed :: following ∧ (∀ other ∈ before, id.names other = false) ∧
      id.names document ∧ update.apply document = .ok changed := by
  obtain ⟨before, document, following, hbefore, hafter, hothers, hnames, hchange⟩ :=
    exists_of_changeFirst_some h
  simp only [block_eq_ok_iff, pure_eq_ok_iff] at hchange
  obtain ⟨_, happly, _, -, rfl⟩ := hchange
  exact ⟨before, document, following, hbefore, hafter, hothers, hnames, happly⟩

/-! ## Addresses that go in by a name -/

namespace Address

variable {address : Address} {name : String} {behind : List Segment}

/-- Whether the last segment counts does not change what a path names. -/
theorem parse_omitting {path : String} {omitsLast : Bool} (h : parse path omitsLast = .ok address)
    (other : Bool) : parse path other = .ok { address with omitsLast := other } := by
  simp only [parse] at h ⊢
  split at h
  case isTrue hempty =>
    rw [if_pos hempty]
    cases h
    rfl
  case isFalse hempty =>
    rw [if_neg hempty]
    split at h
    · cases h
      rfl
    · split at h
      · cases h
      · cases h
        rfl

/-- What counts of segments below a name: none, or those below the name, the last one or not. -/
theorem retained_cases (hsegments : address.segments = .field name :: behind) :
    address.retained = [] ∨ address.retained = .field name :: behind ∨
      address.retained = .field name :: behind.dropLast := by
  rw [retained, hsegments]
  cases address.omitsLast with
  | false => exact Or.inr (Or.inl rfl)
  | true =>
    cases behind with
    | nil => exact Or.inl rfl
    | cons segment rest => exact Or.inr (Or.inr rfl)

/-- The path of an address below a legible name goes in by that name. -/
theorem goesBy_fieldPath (hsegments : address.segments = .field name :: behind)
    (hlegible : Segment.Legible name behind) :
    Step.GoesBy address.scopes name address.fieldPath := by
  rw [scopes, fieldPath, scopedPath]
  rcases retained_cases hsegments with hretained | hretained | hretained <;> rw [hretained]
  · -- The empty path is not read at all.
    intro steps hsteps
    cases hsteps
  · obtain ⟨pieces, hsplit⟩ := Segment.exists_split_text hlegible.dotless
    exact Step.goesBy_of_split hsplit fun _ => Segment.member_of_ofToken_headToken hlegible.plain
  · -- Without the last segment, no other name follows than before.
    have hplain : placeholderLabel? name = none ∨
        ∀ other rest, behind.dropLast ≠ .field other :: rest := by
      refine hlegible.plain.imp_right fun hnone other rest hdrop => ?_
      cases behind with
      | nil => cases hdrop
      | cons segment others =>
        cases others with
        | nil => cases hdrop
        | cons second more =>
          cases hdrop
          exact hnone other _ rfl
    obtain ⟨pieces, hsplit⟩ := Segment.exists_split_text hlegible.dotless
    exact Step.goesBy_of_split hsplit fun _ => Segment.member_of_ofToken_headToken hplain

/-- So does everything behind a dot, when the last segment counts. -/
theorem goesBy_append_dot (hretained : address.retained = .field name :: behind)
    (hlegible : Segment.Legible name behind) (key : String) :
    Step.GoesBy address.scopes name (address.fieldPath ++ "." ++ key) := by
  rw [scopes, fieldPath, scopedPath, hretained]
  obtain ⟨pieces, hsplit⟩ := Segment.exists_split_text hlegible.dotless
  have hmore := Text.split_append_dot (ScopedPath.ofSegments [] (.field name :: behind)).text key
  rw [hsplit, List.cons_append] at hmore
  exact Step.goesBy_of_split hmore fun _ => Segment.member_of_ofToken_headToken hlegible.plain

/-- The path of an address below a legible name is not empty, when the last segment counts. -/
theorem fieldPath_ne_empty (hretained : address.retained = .field name :: behind)
    (hlegible : Segment.Legible name behind) : address.fieldPath ≠ "" := by
  rw [fieldPath, scopedPath, hretained]
  exact Segment.text_ne_empty hlegible.visible

end Address

/-! ## Writes that go in by a name -/

/-- Stamping keeps the names of members. -/
theorem Value.names_stampMembers (supply : IdSupply) (members : Document) :
    Entries.names (stampMembers supply members).1 = members.names := by
  induction members generalizing supply with
  | nil => rfl
  | cons member members ih =>
    obtain ⟨name, value⟩ := member
    simp [stampMembers, ih]

namespace Access

/-- A put below a path that is not empty gives a command that puts one value there. -/
theorem exists_of_issues_set {supply : IdSupply} {id : ObjectId} {path : String} {value : Value}
    {scopes : List Scope} {asked : Command} (hpath : path ≠ "")
    (h : (set id path value scopes).Issues supply asked) :
    ∃ stamped, asked = .update id ⟨.set [(path, stamped)], scopes⟩ := by
  cases h with
  | setAll => exact absurd rfl hpath
  | setAt => exact ⟨_, rfl⟩

end Access

namespace Action

variable {action : Action} {address : Address} {access : Access} {supply : IdSupply}
  {asked : Command} {name : String} {behind : List Segment}

/-- Only what is asked to be seen becomes an access that only looks. -/
theorem Becomes.verb_of_isRead (h : action.Becomes address access) (hread : access.IsRead) :
    action.verb = .get := by
  cases h <;> first | rfl | exact hread.elim

/-- What is written inside a document below a legible name is an update that goes in by that
name. -/
theorem exists_update_of_issues (hbecomes : action.Becomes address access)
    (hissues : access.Issues supply asked) (hroot : address.root ≠ none)
    (hsegments : address.segments = .field name :: behind)
    (hlegible : Segment.Legible name behind)
    (hcounts : action.omitsLast = false → address.omitsLast = false) :
    ∃ id update, address.LeadsTo id ∧ asked = .update id update ∧ update.GoesBy name := by
  have hnested : address.isNested = true := by simp [Address.isNested, hsegments]
  have hretained : action.omitsLast = false → address.retained = .field name :: behind := by
    intro homits
    rw [Address.retained, hcounts homits, hsegments]
    rfl
  -- A value that is put at the path of the address.
  have hput : ∀ {id : ObjectId} {value : Value}, action.omitsLast = false → address.LeadsTo id →
      (Access.set id address.fieldPath value address.scopes).Issues supply asked →
      ∃ id update, address.LeadsTo id ∧ asked = .update id update ∧ update.GoesBy name := by
    intro id value homits leads hissues
    have hpath := Address.fieldPath_ne_empty (hretained homits) hlegible
    obtain ⟨stamped, rfl⟩ := Access.exists_of_issues_set hpath hissues
    refine ⟨id, _, leads, rfl, ?_⟩
    intro path hmem
    rw [List.mem_singleton.mp hmem]
    exact Address.goesBy_fieldPath hsegments hlegible
  cases hbecomes with
  | query whole => exact absurd whole hroot
  | create whole => exact absurd whole hroot
  | replaceFirst whole => exact absurd whole hroot
  | merge whole => exact absurd whole hroot
  | deleteMatching whole => exact absurd whole hroot
  | fetch leads bare => cases hissues
  | replace leads bare => rw [hnested] at bare; cases bare
  | mergeInto leads bare => rw [hnested] at bare; cases bare
  | delete leads bare => rw [hnested] at bare; cases bare
  | fetchInside leads nested => cases hissues
  | push leads nested read =>
    cases hissues
    exact ⟨_, _, leads, rfl, Address.goesBy_fieldPath hsegments hlegible⟩
  | replaceElement leads nested last read => exact hput rfl leads hissues
  | replaceField leads nested last read => exact hput rfl leads hissues
  | mergeElement leads nested last read =>
    cases hissues with
    | setAll id values scopes =>
      refine ⟨_, _, leads, rfl, ?_⟩
      intro path hmem
      rw [Document.stampInside, Value.names_stampMembers] at hmem
      obtain ⟨pair, hpair, rfl⟩ := List.mem_map.mp hmem
      obtain ⟨member, -, rfl⟩ := List.mem_map.mp (Entries.mem_of_mem_ofPairs hpair)
      exact Address.goesBy_append_dot (hretained rfl) hlegible member.1
    | setAt id value scopes hpath => exact absurd rfl hpath
  | mergeField leads nested last read => exact hput rfl leads hissues
  | pull leads nested last =>
    cases hissues
    exact ⟨_, _, leads, rfl, Address.goesBy_fieldPath hsegments hlegible⟩

end Action

/-- A writing request that finds no document is not answered. -/
theorem Outcome.replyTo_document_none_ne_ok {address : Address} {action : Action} {reply : Reply}
    (hroot : address.root ≠ none) (hverb : action.verb ≠ .get) :
    (Outcome.document none).replyTo address action ≠ .ok reply := by
  have hcollection : address.isCollection = false := by
    simpa [Address.isCollection, Option.isSome_iff_ne_none] using hroot
  cases action with
  | read filter projection single => exact absurd rfl hverb
  | append body => simp [replyTo, replyToAppend]
  | replace body filter => simp [replyTo, replyToReplace, hcollection]
  | merge body filter single => simp [replyTo, replyToMerge, hcollection]
  | remove filter => simp [replyTo, replyToRemove]

/-- An update that is performed and answered has found its document. -/
theorem Command.exists_of_perform_update {check : Document → Except StoreFailure Unit}
    {collection : String} {id : ObjectId} {update : Update} {documents rest : Documents}
    {outcome : Outcome} {address : Address} {action : Action} {reply : Reply}
    (hroot : address.root ≠ none) (hverb : action.verb ≠ .get)
    (hperform : (Command.update id update).perform check collection documents = .ok (outcome, rest))
    (hreply : outcome.replyTo address action = .ok reply) :
    ∃ changed, outcome = .document (some changed) ∧
      documents.update check id update = .ok (some changed, rest) := by
  obtain ⟨⟨answer, kept⟩, hupdate, heq⟩ := map_eq_ok_iff.mp hperform
  cases heq
  cases answer with
  | none => exact absurd hreply (Outcome.replyTo_document_none_ne_ok hroot hverb)
  | some changed => exact ⟨changed, rfl, hupdate⟩

namespace Archive

variable {validator : Validator} {collection : String} {archive : Archive} {request : Request}
  {reply : Reply}

/-- A writing request that is answered has come to an access that gives a command. The command succeeds,
the archive takes over what it leaves, and its outcome is what is answered. -/
theorem exists_command_of_handle (hverb : request.verb ≠ .get)
    (h : (archive.handle validator collection request).1 = .ok reply) :
    ∃ plan asked outcome rest, request.plan = .ok plan ∧ plan.access.Issues archive.supply asked ∧
      asked.perform (validator collection) collection (archive.store.documents collection) =
        .ok (outcome, rest) ∧
      (archive.handle validator collection request).2.store = archive.store.put collection rest ∧
      outcome.replyTo plan.address plan.action = .ok reply := by
  cases hplan : request.plan with
  | error error =>
    rw [handle_of_plan_error hplan] at h
    cases h
  | ok plan =>
    obtain ⟨haction, -, haccess⟩ := Request.plan_eq_ok_iff.mp hplan
    rw [handle_of_plan_ok hplan] at h ⊢
    obtain ⟨outcome, houtcome, hreply⟩ := bind_eq_ok_iff.mp h
    rw [mapError_eq_ok_iff] at houtcome
    rcases Access.run_cases validator collection archive plan.access with
      ⟨hread, -⟩ | ⟨value, hrun⟩ | ⟨asked, supply, hissues, hrun⟩
    · -- Only a reading request only looks.
      rw [← Request.verb_of_action haction] at hverb
      exact absurd ((Action.becomes_of_accessAt haccess).verb_of_isRead hread) hverb
    · rw [hrun] at houtcome
      cases houtcome
    · rw [hrun] at houtcome ⊢
      obtain ⟨rest, hperform, hstore⟩ := Store.command_ok houtcome
      exact ⟨plan, asked, outcome, rest, rfl, hissues, hperform, hstore, hreply⟩

/-- A writing request that is answered, and whose path goes from a document in by a legible name,
updates the document, by that name. -/
theorem exists_update_of_handle {omitsLast : Bool} {address : Address} {name : String}
    {behind : List Segment} (hparse : Address.parse request.path omitsLast = .ok address)
    (hsegments : address.segments = .field name :: behind)
    (hlegible : Segment.Legible name behind) (hverb : request.verb ≠ .get)
    (h : (archive.handle validator collection request).1 = .ok reply) :
    ∃ id update changed rest, address.LeadsTo id ∧ update.GoesBy name ∧
      (archive.store.documents collection).update (validator collection) id update =
        .ok (some changed, rest) ∧
      (archive.handle validator collection request).2.store =
        archive.store.put collection rest := by
  obtain ⟨plan, asked, outcome, rest, hplan, hissues, hperform, hstore, hreply⟩ :=
    exists_command_of_handle hverb h
  obtain ⟨haction, haddress, haccess⟩ := Request.plan_eq_ok_iff.mp hplan
  have hsame : plan.address = { address with omitsLast := plan.action.omitsLast } := by
    rw [Address.parse_omitting hparse plan.action.omitsLast] at haddress
    exact (Except.ok.inj haddress).symm
  have hroot : plan.address.root ≠ none := by
    intro hnone
    have hbare := Address.isNested_of_parse haddress hnone
    rw [hsame, Address.isNested, hsegments] at hbare
    cases hbare
  obtain ⟨id, update, hleads, rfl, hgoes⟩ :=
    Action.exists_update_of_issues (Action.becomes_of_accessAt haccess) hissues hroot
      (by rw [hsame]; exact hsegments) hlegible (by rw [hsame]; exact id)
  rw [← Request.verb_of_action haction] at hverb
  obtain ⟨changed, -, hupdate⟩ := Command.exists_of_perform_update hroot hverb hperform hreply
  rw [hsame] at hleads
  exact ⟨id, update, changed, rest, hleads, hgoes, hupdate, hstore⟩

/-- Whatever the archive holds: a writing request that is answered, and whose path goes from a
document in by a legible name, changes the first document of that identifier and no other one of any
collection; and in that document it changes the member of the name and no other one. -/
theorem sameApart_of_handle {omitsLast : Bool} {address : Address} {name : String}
    {behind : List Segment} (hparse : Address.parse request.path omitsLast = .ok address)
    (hsegments : address.segments = .field name :: behind)
    (hlegible : Segment.Legible name behind) (hverb : request.verb ≠ .get)
    (h : (archive.handle validator collection request).1 = .ok reply) :
    (∀ other, other ≠ collection →
      (archive.handle validator collection request).2.store.documents other =
        archive.store.documents other) ∧
      ∃ id before document changed following, address.LeadsTo id ∧
        (∀ other ∈ before, id.names other = false) ∧ id.names document ∧
        archive.store.documents collection = before ++ document :: following ∧
        (archive.handle validator collection request).2.store.documents collection =
          before ++ changed :: following ∧
        document.SameApart name changed := by
  obtain ⟨id, update, answer, rest, hleads, hgoes, hupdate, hstore⟩ :=
    exists_update_of_handle hparse hsegments hlegible hverb h
  obtain ⟨before, document, following, hbefore, rfl, hothers, hnames, happly⟩ :=
    Documents.exists_of_update_some hupdate
  rw [hstore]
  refine ⟨fun other hother => Store.documents_put_of_ne _ hother _, ?_⟩
  exact ⟨id, before, document, answer, following, hleads, hothers, hnames, hbefore,
    Store.documents_put_self _ _ _, hgoes.sameApart happly⟩

/-- The text of the identifier that the documents below have. -/
def sevenText : String := "000000000000000000000007"

/-- The text is that of an identifier. -/
theorem ofHex?_sevenText : ObjectId.ofHex? sevenText = some (.ofNat 7) := by
  decide +kernel

/-- An archive with one document. -/
def oneNote : Archive :=
  ⟨⟨[("notes", [[("a", .int32 1), (idField, .objectId (.ofNat 7))]])]⟩, ⟨.ofNat, 9⟩⟩

/-- A request to put a document of one member at a place inside the document. -/
def putAtPlace (place : String) : Request :=
  ⟨.put, sevenText ++ place, [], .object [("update", .object [("a", .integer 2)])]⟩

/-- What it comes to, when the place has the given segments and their dotted form. -/
def putPlan (segments : List Segment) (path : String) : Plan :=
  ⟨.replace (putAtPlace "").body none, ⟨some sevenText, segments, false⟩,
    .set (.ofNat 7) path (.document [("a", .int32 2)]) []⟩

/-- Put at a field inside a new member, it leaves the members that are there. -/
theorem sameApart_of_handle_putAtPlace :
    Address.parse (putAtPlace "/b/c").path false =
        .ok ⟨some sevenText, [.field "b", .field "c"], false⟩ ∧
      Segment.Legible "b" [.field "c"] ∧
      (oneNote.handle .none "notes" (putAtPlace "/b/c")).2.store.documents "notes" =
        [[("a", .int32 1), (idField, .objectId (.ofNat 7)),
          ("b", .document [("c", .document [("a", .int32 2)])])]] ∧
      ∃ id before document changed following,
        (⟨some sevenText, [.field "b", .field "c"], false⟩ : Address).LeadsTo id ∧
        (∀ other ∈ before, id.names other = false) ∧ id.names document ∧
        oneNote.store.documents "notes" = before ++ document :: following ∧
        (oneNote.handle .none "notes" (putAtPlace "/b/c")).2.store.documents "notes" =
          before ++ changed :: following ∧
        document.SameApart "b" changed := by
  have hparse : Address.parse (putAtPlace "/b/c").path false =
      .ok ⟨some sevenText, [.field "b", .field "c"], false⟩ := by
    rw [← toOption_eq_some_iff]
    decide +kernel
  have hlegible : Segment.Legible "b" [.field "c"] :=
    ⟨by decide, Or.inl (by decide), Or.inl (by decide)⟩
  have hplan : (putAtPlace "/b/c").plan = .ok (putPlan [.field "b", .field "c"] "b.c") := by
    rw [Request.plan_eq_ok_iff]
    refine ⟨rfl, hparse, ?_⟩
    simp only [putPlan, Action.accessAt, ofHex?_sevenText]
    rfl
  have hreply : ∃ reply, (oneNote.handle .none "notes" (putAtPlace "/b/c")).1 = .ok reply := by
    rw [handle_of_plan_ok hplan]
    exact ⟨_, rfl⟩
  refine ⟨hparse, hlegible, ?_, ?_⟩
  · rw [handle_of_plan_ok hplan]
    rfl
  · obtain ⟨reply, hreply⟩ := hreply
    exact (sameApart_of_handle hparse rfl hlegible (by decide) hreply).2

/-- Put at the empty name, it is merged into the document instead: the request is answered, and
another member than that of the name has changed. -/
theorem at_emptyName :
    Address.parse (putAtPlace "//").path false = .ok ⟨some sevenText, [.field ""], false⟩ ∧
      (∃ reply, (oneNote.handle .none "notes" (putAtPlace "//")).1 = .ok reply) ∧
      oneNote.store.documents "notes" = [[("a", .int32 1), (idField, .objectId (.ofNat 7))]] ∧
      (oneNote.handle .none "notes" (putAtPlace "//")).2.store.documents "notes" =
        [[("a", .int32 2), (idField, .objectId (.ofNat 7))]] ∧
      ¬ Document.SameApart "" [("a", .int32 1), (idField, .objectId (.ofNat 7))]
        [("a", .int32 2), (idField, .objectId (.ofNat 7))] := by
  have hparse : Address.parse (putAtPlace "//").path false =
      .ok ⟨some sevenText, [.field ""], false⟩ := by
    rw [← toOption_eq_some_iff]
    decide +kernel
  have hplan : (putAtPlace "//").plan = .ok (putPlan [.field ""] "") := by
    rw [Request.plan_eq_ok_iff]
    refine ⟨rfl, hparse, ?_⟩
    simp only [putPlan, Action.accessAt, ofHex?_sevenText]
    rfl
  refine ⟨hparse, ?_, rfl, ?_, ?_⟩
  · rw [handle_of_plan_ok hplan]
    exact ⟨_, rfl⟩
  · rw [handle_of_plan_ok hplan]
    rfl
  · intro hsame
    have hvalue := hsame.get?_eq (by decide : "a" ≠ "")
    cases hvalue

end Archive

end RestArchive
