import RestArchive.Proofs.DocumentId
import RestArchive.Proofs.Requests

/-! # Why requests are refused

Each part of a request is read by a function that may fail, and each such function fails for few
reasons only. What is known of the errors is collected here part by part: parameters, paths, bodies,
the step from an action to an access, and updates. None of them is a fault of the machinery, and
none says that a document carries no identifier. -/

namespace RestArchive

/-! ## Parameters -/

/-- Whether an error is one of a parameter of the query string. -/
def RequestError.IsOfParameter : RequestError → Prop
  | .malformedParameter _ => True
  | .unsupportedOperator _ => True
  | .mixedProjection => True
  | _ => False

namespace Filter

variable {error : RequestError}

/-- A comparison is refused as a parameter. -/
theorem isOfParameter_comparisonOf {field operator : String} {value : Json}
    (h : comparisonOf field operator value = .error error) : error.IsOfParameter := by
  rw [comparisonOf] at h
  split at h
  · cases h
    trivial
  · split at h <;> cases h
    trivial

mutual

/-- Operators are refused as a parameter. -/
theorem isOfParameter_operatorsOf {field : String} : ∀ members : List (String × Json),
    operatorsOf field members = .error error → error.IsOfParameter
  | [], h => by cases h
  | (operator, value) :: members, h => by
    have hothers : operatorsOf field members = .error error → error.IsOfParameter :=
      isOfParameter_operatorsOf members
    rw [operatorsOf] at h
    split at h
    · rcases error_of_steps h with hfirst | h
      · cases hfirst
      · exact hothers h
    · split at h
      · exact (error_of_steps h).elim (isOfParameter_negationOf value) hothers
      · exact (error_of_steps h).elim isOfParameter_comparisonOf hothers

/-- A negation is refused as a parameter. -/
theorem isOfParameter_negationOf {field : String} : ∀ value : Json,
    negationOf field value = .error error → error.IsOfParameter
  | .object members, h => by
    rw [negationOf] at h
    split at h
    · exact isOfParameter_operatorsOf members (map_eq_error_iff.mp h)
    · cases h
      trivial
  | .null, h | .bool _, h | .integer _, h | .double _, h | .string _, h | .array _, h => by
    cases h
    trivial

end

/-- A condition is refused as a parameter. -/
theorem isOfParameter_conditionOf {field : String} {value : Json}
    (h : conditionOf field value = .error error) : error.IsOfParameter := by
  cases value with
  | object members =>
    rw [conditionOf] at h
    split at h
    · exact isOfParameter_operatorsOf members h
    · cases h
  | _ => cases h

mutual

/-- A filter is refused as a parameter. -/
theorem isOfParameter_ofJson : ∀ value : Json, ofJson value = .error error → error.IsOfParameter
  | .object members, h => by
    rw [ofJson] at h
    exact isOfParameter_membersToFilters members (map_eq_error_iff.mp h)
  | .null, h | .bool _, h | .integer _, h | .double _, h | .string _, h | .array _, h => by
    cases h
    trivial

/-- Clauses are refused as a parameter. -/
theorem isOfParameter_clausesOfJson : ∀ value : Json,
    clausesOfJson value = .error error → error.IsOfParameter
  | .array clauses, h => isOfParameter_itemsToFilters clauses h
  | .null, h | .bool _, h | .integer _, h | .double _, h | .string _, h | .object _, h => by
    cases h
    trivial

/-- A list of filters is refused as a parameter. -/
theorem isOfParameter_itemsToFilters : ∀ items : List Json,
    itemsToFilters items = .error error → error.IsOfParameter
  | [], h => by cases h
  | item :: items, h => by
    rw [itemsToFilters] at h
    rcases error_of_steps h with hfirst | hothers
    · exact isOfParameter_ofJson item hfirst
    · exact isOfParameter_itemsToFilters items hothers

/-- The members of a filter are refused as a parameter. -/
theorem isOfParameter_membersToFilters : ∀ members : List (String × Json),
    membersToFilters members = .error error → error.IsOfParameter
  | [], h => by cases h
  | (name, value) :: members, h => by
    have hothers := isOfParameter_membersToFilters members
    have hclauses : ∀ {wrap : List Filter → List Filter},
        (clausesOfJson value).map wrap = .error error → error.IsOfParameter :=
      fun h => isOfParameter_clausesOfJson value (map_eq_error_iff.mp h)
    rw [membersToFilters] at h
    split at h
    · exact (error_of_steps h).elim hclauses hothers
    · split at h
      · exact (error_of_steps h).elim hclauses hothers
      · split at h
        · exact (error_of_steps h).elim hclauses hothers
        · split at h
          · rcases error_of_steps h with hfirst | h
            · cases hfirst
              trivial
            · exact hothers h
          · exact (error_of_steps h).elim isOfParameter_conditionOf hothers

end

end Filter

/-- A projection is refused as a parameter. -/
theorem Projection.isOfParameter_ofJson {value : Json} {error : RequestError}
    (h : ofJson value = .error error) : error.IsOfParameter := by
  cases value with
  | array items =>
    simp only [ofJson] at h
    split at h <;> cases h
    trivial
  | _ =>
    cases h
    trivial

namespace Selection

/-- A parameter is refused as one if its value is. -/
theorem isOfParameter_readWith {α : Type} {read : Json → Except RequestError α}
    {parameters : Entries String} {name : String} {error : RequestError}
    (hread : ∀ value, read value = .error error → error.IsOfParameter)
    (h : readWith read parameters name = .error error) : error.IsOfParameter := by
  rw [readWith] at h
  split at h
  · cases h
  · rcases bind_eq_error_iff.mp (map_eq_error_iff.mp h) with hjson | ⟨value, -, hvalue⟩
    · rw [jsonOf] at hjson
      split at hjson <;> cases hjson
      trivial
    · exact hread value hvalue

/-- Parameters are refused as such. -/
theorem isOfParameter_ofParameters {parameters : Entries String} {error : RequestError}
    (h : ofParameters parameters = .error error) : error.IsOfParameter := by
  rw [ofParameters] at h
  rcases error_of_steps h with hfilter | hprojection
  · exact isOfParameter_readWith Filter.isOfParameter_ofJson hfilter
  · exact isOfParameter_readWith (fun _ => Projection.isOfParameter_ofJson) hprojection

end Selection

/-! ## Bodies and updates -/

/-- Whether a failure is a fault of what is to be written: of a body, or of an update that does not
fit the document. -/
def StoreFailure.IsFault : StoreFailure → Prop
  | .cast _ _ => True
  | .invalid .unidentified => False
  | .invalid _ => True
  | _ => False

/-- Whether a failure says that an update does not fit the document: something on the way, or at the
end, is of another type, or the identifier would change. -/
def StoreFailure.IsMisfit : StoreFailure → Prop
  | .invalid (.notAnArray _ _) => True
  | .invalid (.notSelectable _) => True
  | .invalid (.notADocument _ _) => True
  | .invalid .immutableId => True
  | _ => False

/-- An update that does not fit is a fault of what is to be written. -/
theorem StoreFailure.IsMisfit.isFault {failure : StoreFailure} (h : failure.IsMisfit) :
    failure.IsFault := by
  rw [IsMisfit.eq_def] at h
  split at h <;> trivial

namespace Body

variable {failure : StoreFailure}

/-- An identifier field is refused for its value. -/
theorem isFault_castId {path : String} {value : Json}
    (h : castId path value = .error failure) : failure.IsFault := by
  cases value with
  | string text =>
    simp only [castId] at h
    split at h <;> cases h
    trivial
  | _ =>
    cases h
    trivial

mutual

/-- A part of a body is refused for a value in it. -/
theorem isFault_valueAt {path : Option String} : ∀ value : Json,
    valueAt path value = .error failure → failure.IsFault
  | .object members, h => by
    rw [valueAt] at h
    exact isFault_membersAt members (map_eq_error_iff.mp h)
  | .array items, h => by
    rw [valueAt] at h
    exact isFault_itemsAt items (map_eq_error_iff.mp h)
  | .null, h | .bool _, h | .integer _, h | .double _, h | .string _, h => by cases h

/-- The items of an array are refused for a value in them. -/
theorem isFault_itemsAt {path : Option String} : ∀ items : List Json,
    itemsAt path items = .error failure → failure.IsFault
  | [], h => by cases h
  | item :: items, h => by
    rw [itemsAt] at h
    rcases error_of_steps h with hfirst | hothers
    · exact isFault_valueAt item hfirst
    · exact isFault_itemsAt items hothers

/-- The members of an object are refused for a value in them. -/
theorem isFault_membersAt {path : Option String} : ∀ members : List (String × Json),
    membersAt path members = .error failure → failure.IsFault
  | [], h => by cases h
  | (name, value) :: members, h => by
    have hothers : membersAt path members = .error failure → failure.IsFault :=
      isFault_membersAt members
    simp only [membersAt] at h
    split at h
    · exact (error_of_steps h).elim isFault_castId hothers
    · exact (error_of_steps h).elim (isFault_valueAt value) hothers

end

/-- A body is refused for being no object, or for a value in it. -/
theorem isFault_document {body : Json} (h : document body = .error failure) : failure.IsFault := by
  cases body with
  | object members => exact isFault_membersAt members h
  | _ =>
    cases h
    trivial

end Body

namespace Step

variable {failure : StoreFailure}

/-- Tokens are refused for a label that no scope has. -/
theorem isFault_ofTokens {scopes : List Scope} {path : String} {tokens : List String}
    (h : ofTokens scopes path tokens = .error failure) : failure.IsFault := by
  induction tokens with
  | nil => cases h
  | cons token tokens ih =>
    rw [ofTokens] at h
    rcases error_of_steps h with hfirst | hothers
    · rw [ofToken] at hfirst
      split at hfirst
      · cases hfirst
      · split at hfirst <;> cases hfirst
        trivial
    · exact ih hothers

/-- A path is refused for being empty, or for a label that no scope has. -/
theorem isFault_parse {scopes : List Scope} {path : String}
    (h : parse scopes path = .error failure) : failure.IsFault := by
  rw [parse] at h
  split at h
  · cases h
    trivial
  · exact isFault_ofTokens h

end Step

namespace Terminal

variable {failure : StoreFailure}

/-- A value that is there is refused for being no array. -/
theorem isMisfit_onValue {terminal : Terminal} {field : String} {value : Value}
    (h : terminal.onValue field value = .error failure) : failure.IsMisfit := by
  rw [onValue.eq_def] at h
  split at h <;> cases h
  trivial

/-- Elements are refused for one of those that are changed. -/
theorem isMisfit_onElements {id : ObjectId} {change : Value → Except StoreFailure Value}
    (hchange : ∀ item, change item = .error failure → failure.IsMisfit) {items : List Value}
    (h : onElements id change items = .error failure) : failure.IsMisfit := by
  induction items with
  | nil => cases h
  | cons item items ih =>
    rw [onElements] at h
    split at h
    · exact (error_of_steps h).elim (hchange item) ih
    · rcases error_of_steps h with hfirst | hothers
      · cases hfirst
      · exact ih hothers

/-- An update is refused for what is on the way. -/
theorem isMisfit_along {terminal : Terminal} {document : Document} {steps : List Step}
    (h : terminal.along document steps = .error failure) : failure.IsMisfit := by
  induction steps generalizing document with
  | nil => cases h
  | cons step rest ih =>
    rw [along_cons] at h
    have hmember := map_eq_error_iff.mp h
    rw [onMember.eq_def] at hmember
    split at hmember
    · split at hmember
      · -- The path ends here.
        rw [onLast.eq_def] at hmember
        split at hmember
        · cases hmember
        · cases hmember
        · cases hmember
        · exact isMisfit_onValue (map_eq_error_iff.mp hmember)
      · split at hmember
        · exact ih (map_eq_error_iff.mp hmember)
        · cases hmember
      · exact ih (map_eq_error_iff.mp hmember)
      · cases hmember
        trivial
    · cases hmember
    · refine isMisfit_onElements ?_ (map_eq_error_iff.mp hmember)
      intro item hitem
      rw [onElement.eq_def] at hitem
      split at hitem
      · exact isMisfit_onValue hitem
      · exact ih (map_eq_error_iff.mp hitem)
      · cases hitem
    · cases hmember
      trivial

/-- An update at a path is refused for the path, or for what is on the way. -/
theorem parse_or_isMisfit_of_atPath {terminal : Terminal} {scopes : List Scope}
    {document : Document} {path : String}
    (h : terminal.atPath scopes document path = .error failure) :
    Step.parse scopes path = .error failure ∨ failure.IsMisfit := by
  rcases bind_eq_error_iff.mp h with hparse | ⟨steps, -, halong⟩
  · exact Or.inl hparse
  · exact Or.inr (isMisfit_along halong)

end Terminal

/-- Values are refused for one of their paths, or because they do not fit. -/
theorem Document.parse_or_isMisfit_of_setAll {scopes : List Scope} {document values : Document}
    {failure : StoreFailure} (h : document.setAll scopes values = .error failure) :
    (∃ path ∈ values.names, Step.parse scopes path = .error failure) ∨ failure.IsMisfit := by
  induction values generalizing document with
  | nil => cases h
  | cons entry values ih =>
    obtain ⟨path, value⟩ := entry
    have hhead : Step.parse scopes path = .error failure →
        ∃ other ∈ Entries.names ((path, value) :: values), Step.parse scopes other = .error failure :=
      fun hparse => ⟨path, List.mem_cons_self, hparse⟩
    rcases bind_eq_error_iff.mp h with hfirst | ⟨changed, -, hothers⟩
    · rw [setAt] at hfirst
      split at hfirst
      · split at hfirst
        · exact (Terminal.parse_or_isMisfit_of_atPath hfirst).imp_left hhead
        · cases hfirst
          exact Or.inr trivial
      · exact (Terminal.parse_or_isMisfit_of_atPath hfirst).imp_left hhead
    · refine (ih hothers).imp_left ?_
      rintro ⟨other, hother, hparse⟩
      exact ⟨other, List.mem_cons_of_mem path hother, hparse⟩

namespace Update

/-- The paths of an update. -/
def paths (update : Update) : List String :=
  match update.change with
  | .set values => values.names
  | .push path _ => [path]
  | .pull path _ => [path]

variable {update : Update} {document : Document} {failure : StoreFailure}

/-- An update is refused for one of its paths, or because it does not fit the document. -/
theorem parse_or_isMisfit_of_apply (h : update.apply document = .error failure) :
    (∃ path ∈ update.paths, Step.parse update.scopes path = .error failure) ∨
      failure.IsMisfit := by
  obtain ⟨change, scopes⟩ := update
  cases change with
  | set values => exact Document.parse_or_isMisfit_of_setAll h
  | push path value =>
    exact (Terminal.parse_or_isMisfit_of_atPath h).imp_left
      fun hparse => ⟨path, List.mem_singleton_self path, hparse⟩
  | pull path id =>
    exact (Terminal.parse_or_isMisfit_of_atPath h).imp_left
      fun hparse => ⟨path, List.mem_singleton_self path, hparse⟩

/-- An update is refused for what it says, or for the document that it is of. -/
theorem isFault_apply (h : update.apply document = .error failure) : failure.IsFault := by
  rcases parse_or_isMisfit_of_apply h with ⟨path, -, hparse⟩ | hmisfit
  · exact Step.isFault_parse hparse
  · exact hmisfit.isFault

end Update

/-- Values are refused for what they say, or for the document that they are put into. -/
theorem Document.isFault_setAll {scopes : List Scope} {document values : Document}
    {failure : StoreFailure} (h : document.setAll scopes values = .error failure) :
    failure.IsFault :=
  Update.isFault_apply (show (Update.mk (.set values) scopes).apply document = .error failure from h)

/-! ## Actions and addresses -/

/-- Whether an error is one of what a request says, before the store is looked at. A method that is
refused is another one than `PUT`. -/
def RequestError.IsOfRequest : RequestError → Prop
  | .strayIdentifier _ => True
  | .invalidRoot _ _ => True
  | .methodRefused method => method ≠ Verb.put.text
  | .filterRequired => True
  | .missingUpdate => True
  | .store failure => failure.IsFault
  | error => error.IsOfParameter

namespace Action

variable {action : Action} {address : Address} {error : RequestError}

/-- An error of a parameter is one of the request. -/
theorem isOfRequest_of_isOfParameter (h : error.IsOfParameter) : error.IsOfRequest := by
  cases error <;> first | exact h | exact False.elim h

/-- A document is refused for what the body says. -/
theorem isOfRequest_documentOf {body : Json} (h : documentOf body = .error error) :
    error.IsOfRequest := by
  obtain ⟨failure, hfailure, rfl⟩ := mapError_eq_error_iff.mp h
  exact Body.isFault_document hfailure

/-- A value is refused for what the body says. -/
theorem isOfRequest_valueOf {path : String} {body : Json}
    (h : valueOf path body = .error error) : error.IsOfRequest := by
  obtain ⟨failure, hfailure, rfl⟩ := mapError_eq_error_iff.mp h
  exact Body.isFault_valueAt body hfailure

/-- A new value is refused for not being there, or for what the body says. -/
theorem isOfRequest_updateOf {path : String} {body : Json}
    (h : updateOf path body = .error error) : error.IsOfRequest := by
  rw [updateOf] at h
  split at h
  · exact isOfRequest_valueOf h
  · cases h
    trivial

/-- A filter is refused for not being there. -/
theorem isOfRequest_required {filter : Option Filter} (h : required filter = .error error) :
    error.IsOfRequest := by
  cases filter with
  | none =>
    cases h
    trivial
  | some filter => cases h

/-- An action on a collection is refused for what the request says. -/
theorem isOfRequest_onCollection (h : action.onCollection = .error error) :
    error.IsOfRequest := by
  cases action with
  | read filter projection single => cases h
  | append body => exact isOfRequest_documentOf (map_eq_error_iff.mp h)
  | replace body filter =>
    rcases error_of_steps h with hfilter | hdocument
    · exact isOfRequest_required hfilter
    · exact isOfRequest_documentOf hdocument
  | merge body filter single => exact isOfRequest_documentOf (error_of_step h)
  | remove filter => exact isOfRequest_required (map_eq_error_iff.mp h)

/-- An action on a document is refused for what the request says. -/
theorem isOfRequest_onDocument {id : ObjectId} (h : action.onDocument id = .error error) :
    error.IsOfRequest := by
  cases action with
  | read filter projection single => cases h
  | append body =>
    cases h
    exact (by decide : Verb.post.text ≠ Verb.put.text)
  | replace body filter => exact isOfRequest_documentOf (error_of_step h)
  | merge body filter single => exact isOfRequest_documentOf (error_of_step h)
  | remove filter => cases h

/-- An action inside a document is refused for what the request says. -/
theorem isOfRequest_onPlace {id : ObjectId} (h : action.onPlace id address = .error error) :
    error.IsOfRequest := by
  simp only [onPlace] at h
  split at h
  case h_1 => cases h
  case h_2 =>
    cases h
    exact (by decide : Verb.post.text ≠ Verb.put.text)
  case h_8 =>
    split at h <;> cases h
    exact (by decide : Verb.delete.text ≠ Verb.put.text)
  -- What is left reads a value from the body.
  all_goals
    have hread := error_of_step h
    first
    | exact isOfRequest_valueOf hread
    | exact isOfRequest_documentOf hread
    | exact isOfRequest_updateOf hread

/-- An action at an address is refused for what the request says. -/
theorem isOfRequest_accessAt (h : action.accessAt address = .error error) :
    error.IsOfRequest := by
  rw [accessAt] at h
  split at h
  · exact isOfRequest_onCollection h
  · split at h
    · cases h
      trivial
    · split at h
      · exact isOfRequest_onPlace h
      · exact isOfRequest_onDocument h

end Action

/-- A path is refused for an identifier that follows no field. -/
theorem Address.isOfRequest_parse {path : String} {omitsLast : Bool} {error : RequestError}
    (h : parse path omitsLast = .error error) : error.IsOfRequest := by
  simp only [parse] at h
  split at h
  · cases h
  · split at h
    · cases h
    · split at h <;> cases h
      trivial

namespace Request

variable {request : Request} {error : RequestError}

/-- A request whose action cannot be read is refused for a parameter. -/
theorem isOfRequest_action (h : request.action = .error error) : error.IsOfRequest := by
  rw [Request.action] at h
  split at h
  · cases h
  all_goals
    exact Action.isOfRequest_of_isOfParameter
      (Selection.isOfParameter_ofParameters (map_eq_error_iff.mp h))

/-- A request that comes to nothing is refused for what it says. -/
theorem isOfRequest_plan (h : request.plan = .error error) : error.IsOfRequest := by
  simp only [Request.plan, block_eq_error_iff, pure_ne_error, and_false, exists_false,
    or_false] at h
  rcases h with haction | ⟨action, -, haddress | ⟨address, -, haccess⟩⟩
  · exact isOfRequest_action haction
  · exact Address.isOfRequest_parse haddress
  · exact Action.isOfRequest_accessAt haccess

end Request

end RestArchive
