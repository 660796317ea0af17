import RestArchive.Proofs.AddressableStores
import RestArchive.Proofs.Containment

/-! # Array elements stay addressable

From an empty store on, every document that is an element of an array has an identifier, and can be
selected by it, as long as requests are orderly (`identified_of_orderly`): their paths survive being
written with dots, none leads to the identifier field of an element, and no key of a merge is
spelled like a placeholder. A request that puts a text at the identifier field of an element is
answered all the same, and then the element is lost to every path (`at_elementId`). -/

namespace RestArchive

/-! ## Steps behind each other -/

namespace Step

/-- Tokens behind each other are read as steps behind each other. -/
theorem exists_append_of_ofTokens {scopes : List Scope} {path : String} {first second : List String}
    {steps : List Step} (h : ofTokens scopes path (first ++ second) = .ok steps) :
    ∃ before behind, ofTokens scopes path first = .ok before ∧
      ofTokens scopes path second = .ok behind ∧ steps = before ++ behind := by
  induction first generalizing steps with
  | nil => exact ⟨[], steps, rfl, h, rfl⟩
  | cons token tokens ih =>
    simp only [List.cons_append, ofTokens, block_eq_ok_iff, pure_eq_ok_iff] at h
    obtain ⟨step, hstep, others, hothers, rfl⟩ := h
    obtain ⟨before, behind, hbefore, hbehind, rfl⟩ := ih hothers
    exact ⟨step :: before, behind, ofTokens_cons hstep hbefore, hbehind, rfl⟩

/-- Tokens that are not spelled like placeholders are read as steps by name. -/
theorem eq_map_field_of_ofTokens {scopes : List Scope} {path : String} {tokens : List String}
    {steps : List Step} (hplain : ∀ token ∈ tokens, placeholderLabel? token = none)
    (h : ofTokens scopes path tokens = .ok steps) : steps = tokens.map .field := by
  induction tokens generalizing steps with
  | nil =>
    cases h
    rfl
  | cons token tokens ih =>
    obtain ⟨htoken, hothers⟩ := List.forall_mem_cons.mp hplain
    simp only [ofTokens, ofToken, htoken, block_eq_ok_iff, pure_eq_ok_iff] at h
    obtain ⟨first, hfirst, others, hread, rfl⟩ := h
    cases hfirst
    rw [ih hothers hread, List.map_cons]

/-- What is written behind the path of segments and a dot is read behind the steps that trace them:
by name, if no part of it is spelled like a placeholder. -/
theorem exists_traces_of_parse_append_dot {segments : List Segment} {key : String}
    {steps : List Step} (hwell : Segment.WellFormed segments) (hne : segments ≠ [])
    (hkey : ∀ token ∈ Text.split '.' key, placeholderLabel? token = none)
    (h : parse (ScopedPath.ofSegments [] segments).scopes
      ((ScopedPath.ofSegments [] segments).text ++ "." ++ key) = .ok steps) :
    ∃ traced, Traces traced segments ∧ steps = traced ++ (Text.split '.' key).map .field := by
  have htokens : (ScopedPath.ofSegments [] segments).tokens ≠ [] := by
    cases segments with
    | nil => exact absurd rfl hne
    | cons segment behind =>
      cases segment with
      | identifier id => exact absurd hwell Segment.WellFormed.not_identifier_cons
      | field name =>
        obtain ⟨others, hcons⟩ := Segment.exists_tokens_eq_cons name behind
        rw [hcons]
        exact List.cons_ne_nil _ _
  have hsplit : Text.split '.' (ScopedPath.ofSegments [] segments).text =
      (ScopedPath.ofSegments [] segments).tokens :=
    Text.split_join htokens (dot_not_mem_tokens [] segments hwell.dotless)
  rw [parse] at h
  split at h
  · cases h
  · rw [Text.split_append_dot, hsplit] at h
    obtain ⟨before, behind, hbefore, hbehind, rfl⟩ := exists_append_of_ofTokens h
    obtain ⟨traced, htraced, htraces⟩ := exists_ofTokens_eq_traces _ [] segments hwell [] (by simp)
    rw [List.nil_append] at htraced
    have heq : before = traced := Except.ok.inj (hbefore.symm.trans htraced)
    exact ⟨before, heq ▸ htraces, by rw [eq_map_field_of_ofTokens hkey hbehind]⟩

/-- A step by scope is traced by the identifier that it selects, and the steps behind it by the
segments behind that. -/
theorem Traces.exists_of_scoped {before behind : List Step} {scope : Scope}
    {segments : List Segment} (h : Traces (before ++ .scoped scope :: behind) segments) :
    ∃ front below, segments = front ++ .identifier scope.id :: below ∧ Traces behind below := by
  induction before generalizing segments with
  | nil =>
    cases h with
    | «scoped» _ rest => exact ⟨[.field scope.field], _, rfl, rest⟩
  | cons step before ih =>
    cases h with
    | field name rest =>
      obtain ⟨front, below, rfl, hbelow⟩ := ih rest
      exact ⟨.field name :: front, below, rfl, hbelow⟩
    | «scoped» other rest =>
      obtain ⟨front, below, rfl, hbelow⟩ := ih rest
      exact ⟨.field other.field :: .identifier other.id :: front, below, rfl, hbelow⟩

/-- Of steps with steps by name behind them, a step by scope has all those names behind it. -/
theorem exists_of_append_fields {traced before behind : List Step} {scope : Scope}
    {names : List String} (h : traced ++ names.map .field = before ++ .scoped scope :: behind) :
    ∃ between, behind = between ++ names.map .field := by
  have hfields : .scoped scope ∉ names.map Step.field := by simp
  rcases List.append_eq_append_iff.mp h with ⟨kept, -, hkept⟩ | ⟨kept, -, hkept⟩
  · rw [hkept] at hfields
    exact absurd (List.mem_append_right _ List.mem_cons_self) hfields
  · cases kept with
    | nil =>
      rw [List.nil_append] at hkept
      rw [← hkept] at hfields
      exact absurd List.mem_cons_self hfields
    | cons step between => exact ⟨between, (List.cons.inj hkept).2⟩

/-- A name whose parts between dots make up a single step, whatever is in front, is the name of that
step. -/
theorem eq_of_append_split {before : List Step} {key name : String}
    (h : before ++ (Text.split '.' key).map .field = [.field name]) : key = name := by
  have hsingle : Text.split '.' key = [name] := by
    rcases List.append_eq_singleton_iff.mp h with ⟨-, hfields⟩ | ⟨-, hnone⟩
    · simpa using hfields
    · exact absurd hnone (by simpa using Text.split_ne_nil '.' key)
  rw [← Text.join_split '.' key, hsingle]
  simp [Text.join]

end Step

/-! ## Orderly requests -/

/-- Whether the keys of a body are not spelled like placeholders, nor is any part of them between
dots. -/
def Json.PlainKeys (body : Json) : Prop :=
  ∀ members, body = .object members → ∀ member ∈ members, ∀ token ∈ Text.split '.' member.1,
    placeholderLabel? token = none

namespace Segment

/-- Segments that survive being written with dots and do not lead to the identifier field of an
element. -/
structure Orderly (segments : List Segment) : Prop where
  /-- They survive being written with dots. -/
  wellFormed : WellFormed segments
  /-- They do not lead to the identifier field of an element. -/
  aside : ∀ before id, segments ≠ before ++ [.identifier id, .field idField]

end Segment

/-- A request whose path is orderly, if it is one, and so are the keys of its body, if it merges. -/
structure Request.Orderly (request : Request) : Prop where
  /-- The path is orderly. -/
  path : ∀ address, Address.parse request.path false = .ok address →
    Segment.Orderly address.segments
  /-- The keys are orderly. -/
  keys : request.verb = .patch → request.body.PlainKeys

namespace Access

variable {address : Address} {id : ObjectId}

/-- A path that is empty has no scopes. -/
theorem scopes_eq_nil_of_fieldPath (hwell : Segment.WellFormed address.retained)
    (hempty : address.fieldPath = "") : address.scopes = [] := by
  rw [Address.fieldPath, Address.scopedPath] at hempty
  rw [Address.scopes, Address.scopedPath]
  cases hretained : address.retained with
  | nil => rfl
  | cons segment behind =>
    rw [hretained] at hwell hempty
    cases segment with
    | identifier id => exact absurd hwell Segment.WellFormed.not_identifier_cons
    | field name =>
      cases behind with
      | nil => rfl
      | cons next others =>
        exact absurd hempty (Segment.text_ne_empty (Or.inr (List.cons_ne_nil next others)))

/-- A member of the document that a body is has a key of the body, and holds an identifier under the
name of the identifier field. -/
theorem plain_of_mem_document {body : Json} {document : Document} {key : String} {value : Value}
    (hkeys : body.PlainKeys) (hread : Body.document body = .ok document)
    (hmem : (key, value) ∈ document) :
    (∀ token ∈ Text.split '.' key, placeholderLabel? token = none) ∧
      (key = idField → ∃ id, value = .objectId id) := by
  cases body with
  | object members =>
    obtain ⟨hnames, hids⟩ := Body.names_of_membersAt hread
    refine ⟨?_, hids _ hmem⟩
    have hname : key ∈ members.map Prod.fst := by
      rw [← hnames]
      exact List.mem_map_of_mem hmem
    obtain ⟨member, hmember, rfl⟩ := List.mem_map.mp hname
    exact hkeys members rfl member hmember
  | _ => cases hread

/-- A value that is put at an orderly address spares the identifiers of elements, if it has one when
it takes the place of an element. -/
theorem spares_put {value : Value} (horderly : Segment.Orderly address.retained)
    (hvalue : ∀ element, address.retained.getLast? = some (.identifier element) →
      ∀ members, value = .document members → Document.Identified members) :
    (set id address.fieldPath value address.scopes).Spares := by
  rw [Spares]
  split
  case isTrue hempty =>
    intro members _
    rw [scopes_eq_nil_of_fieldPath horderly.wellFormed hempty]
    exact Document.spares_nil members
  case isFalse hpath =>
    intro entry hentry steps hsteps new hnew before scope behind hsplit
    rw [List.mem_singleton.mp hentry] at hsteps hnew
    cases hnew
    obtain ⟨traced, htraced, htraces⟩ := Step.exists_parse_eq_traces horderly.wellFormed hpath
    have heq : steps = traced := Except.ok.inj (hsteps.symm.trans htraced)
    rw [← heq, hsplit] at htraces
    -- The address selects an element where the step by scope stands.
    obtain ⟨front, below, hsegments, hbelow⟩ := htraces.exists_of_scoped
    refine ⟨?_, ?_⟩
    · -- It ends there, so the value takes the place of that element.
      rintro rfl
      rw [hbelow.nil_iff.mp rfl] at hsegments
      exact hvalue scope.id (by rw [hsegments, List.getLast?_concat])
    · -- It ends at the identifier field behind, which an orderly address does not.
      rintro rfl
      cases hbelow with
      | field _ rest =>
        rw [rest.nil_iff.mp rfl] at hsegments
        exact absurd hsegments (horderly.aside front scope.id)

/-- Values that are merged into an element at an orderly address spare the identifiers of
elements. -/
theorem spares_mergeElement {body : Json} {document : Document} {element : ObjectId}
    (horderly : Segment.Orderly address.retained) (hkeys : body.PlainKeys)
    (hlast : address.retained.getLast? = some (.identifier element))
    (hread : Body.document body = .ok document) :
    (set id "" (.document (Entries.ofPairs (document.map fun (name, value) =>
      (address.fieldPath ++ "." ++ name, value)))) address.scopes).Spares := by
  have hne : address.retained ≠ [] := by
    intro hnil
    rw [hnil] at hlast
    cases hlast
  rw [Spares, if_pos rfl]
  rintro _ ⟨⟩ entry hentry steps hsteps new hnew before scope behind hsplit
  obtain ⟨⟨key, value⟩, hmember, rfl⟩ := List.mem_map.mp (Entries.mem_of_mem_ofPairs hentry)
  cases hnew
  obtain ⟨hkey, hid⟩ := plain_of_mem_document hkeys hread hmember
  obtain ⟨traced, -, rfl⟩ :=
    Step.exists_traces_of_parse_append_dot horderly.wellFormed hne hkey hsteps
  -- The step by scope is one of those that trace the address, so the key stands behind it: the path
  -- does not end there, and what is put at the identifier field was cast under that key.
  obtain ⟨between, rfl⟩ := Step.exists_of_append_fields hsplit
  refine ⟨fun hnil => ?_, fun hone => hid (Step.eq_of_append_split hone)⟩
  exact absurd (List.append_eq_nil_iff.mp hnil).2 (by simpa using Text.split_ne_nil '.' key)

end Access

/-- What an action at an orderly address becomes spares the identifiers of elements. -/
theorem Action.Becomes.spares {action : Action} {address : Address} {access : Access}
    (h : action.Becomes address access) (horderly : Segment.Orderly address.segments)
    (hcounts : action.omitsLast = false → address.omitsLast = false)
    (hkeys : ∀ body filter single, action = .merge body filter single → body.PlainKeys) :
    access.Spares := by
  have hretained : action.omitsLast = false → Segment.Orderly address.retained := by
    intro homits
    rw [Address.retained, hcounts homits]
    exact horderly
  cases h with
  | mergeInto leads bare read =>
    rw [Access.Spares, if_pos rfl]
    exact fun members _ => Document.spares_nil members
  | replaceElement leads nested last read =>
    refine Access.spares_put (hretained rfl) ?_
    rintro element - _ ⟨⟩
    exact ⟨_, Document.HasId.insert _ _⟩
  | replaceField leads nested last read =>
    exact Access.spares_put (hretained rfl) fun element helement => absurd helement (last element)
  | mergeElement leads nested last read =>
    exact Access.spares_mergeElement (hretained rfl) (hkeys _ _ _ rfl) last
      (mapError_eq_ok_iff.mp read)
  | mergeField leads nested last read =>
    exact Access.spares_put (hretained rfl) fun element helement => absurd helement (last element)
  | _ => trivial

namespace Request

variable {request : Request}

/-- A request that asks to merge is a `PATCH` with its body. -/
theorem eq_of_action_eq_merge {body : Json} {filter : Option Filter} {single : Bool}
    (h : request.action = .ok (.merge body filter single)) :
    request.verb = .patch ∧ request.body = body := by
  rw [Request.action] at h
  split at h
  · cases h
  case h_4 hverb =>
    obtain ⟨selection, -, heq⟩ := map_eq_ok_iff.mp h
    cases heq
    exact ⟨hverb, rfl⟩
  all_goals
    obtain ⟨selection, -, heq⟩ := map_eq_ok_iff.mp h
    cases heq

/-- An orderly request spares the identifiers of elements. -/
theorem Orderly.spares (h : request.Orderly) : request.Spares := by
  intro plan hplan
  obtain ⟨haction, haddress, haccess⟩ := Request.plan_eq_ok_iff.mp hplan
  have hsegments := h.path _ (Address.parse_omitting haddress false)
  refine (Action.becomes_of_accessAt haccess).spares hsegments ?_ ?_
  · intro homits
    have hsame := Address.parse_omitting haddress plan.action.omitsLast
    rw [haddress] at hsame
    rw [congrArg Address.omitsLast (Except.ok.inj hsame)]
    exact homits
  · intro body filter single hmerge
    rw [hmerge] at haction
    obtain ⟨hverb, rfl⟩ := eq_of_action_eq_merge haction
    exact h.keys hverb

end Request

namespace Archive

variable {validator : Validator} {collection : String}

/-- Whatever orderly requests came, from an empty store and whatever identifiers were drawn, and
whether they succeeded or failed: every document that is an element of an array, at any depth inside
a stored document, has an identifier, and is selected by it. -/
theorem identified_of_orderly (supply : IdSupply) {requests : List Request}
    (horderly : ∀ request ∈ requests, request.Orderly) {name : String} {document : Document}
    (hstored : document ∈ ((⟨Store.empty, supply⟩ : Archive).handleAll validator collection
      requests).store.documents name)
    {items : List Value} {members : Document}
    (hinside : (Value.array items).Inside (.document document)) (hmem : .document members ∈ items) :
    ∃ id, Document.HasId members id ∧ id.namesElement (.document members) := by
  have haddressable : document.Addressable := by
    refine addressable_handleAll (fun request hrequest => (horderly request hrequest).spares) ?_
      name document hstored
    intro other document hnone
    cases hnone
  obtain ⟨id, hid⟩ := Value.elements_document_iff.mpr haddressable items hinside members hmem
  exact ⟨id, hid, hid.names_iff.mpr rfl⟩

/-- An empty archive that draws identifiers from the eighth on. -/
def fromEight : Archive := ⟨Store.empty, ⟨.ofNat, 8⟩⟩

/-- A request to put a document with an array of one empty document. -/
def putItems : Request :=
  ⟨.put, sevenText, [], .object [("items", .array [.object []])]⟩

/-- A request to add an empty document to the array. -/
def postItem : Request := ⟨.post, sevenText ++ "/items", [], .object []⟩

/-- The path of the first request names the document. -/
theorem parse_putItems : Address.parse putItems.path false = .ok ⟨some sevenText, [], false⟩ := by
  rw [← toOption_eq_some_iff]
  decide +kernel

/-- The path of the second request names the array. -/
theorem parse_postItem :
    Address.parse postItem.path false = .ok ⟨some sevenText, [.field "items"], false⟩ := by
  rw [← toOption_eq_some_iff]
  decide +kernel

/-- What the first request comes to. -/
theorem plan_putItems :
    putItems.plan = .ok ⟨.replace putItems.body none, ⟨some sevenText, [], false⟩,
      .replace (.ofNat 7) [("items", .array [.document []]), (idField, .objectId (.ofNat 7))]
        true⟩ := by
  rw [Request.plan_eq_ok_iff]
  refine ⟨rfl, parse_putItems, ?_⟩
  simp only [Action.accessAt, ofHex?_sevenText]
  rfl

/-- What the second request comes to. -/
theorem plan_postItem :
    postItem.plan = .ok ⟨.append (.object []), ⟨some sevenText, [.field "items"], false⟩,
      .push (.ofNat 7) "items" (.document []) []⟩ := by
  rw [Request.plan_eq_ok_iff]
  refine ⟨rfl, parse_postItem, ?_⟩
  simp only [Action.accessAt, ofHex?_sevenText]
  rfl

/-- Both elements have identifiers, those that were drawn for them. -/
theorem identified_of_orderly_postItem :
    (∀ request ∈ [putItems, postItem], request.Orderly) ∧
      (fromEight.handleAll .none "notes" [putItems, postItem]).store.documents "notes" =
        [[("items", .array [.document [(idField, .objectId (.ofNat 8))],
            .document [(idField, .objectId (.ofNat 9))]]), (idField, .objectId (.ofNat 7))]] ∧
      ∃ id, Document.HasId [(idField, .objectId (.ofNat 9))] id ∧
        id.namesElement (.document [(idField, .objectId (.ofNat 9))]) := by
  have hput : putItems.Orderly := by
    refine ⟨fun address haddress => ?_, fun hverb => absurd hverb (by decide)⟩
    cases parse_putItems.symm.trans haddress
    exact ⟨by decide, fun before id hsegments => by simp at hsegments⟩
  have hpost : postItem.Orderly := by
    refine ⟨fun address haddress => ?_, fun hverb => absurd hverb (by decide)⟩
    cases parse_postItem.symm.trans haddress
    refine ⟨by decide, fun before id hsegments => ?_⟩
    have hlength := congrArg List.length hsegments
    simp at hlength
  have horderly : ∀ request ∈ [putItems, postItem], request.Orderly :=
    List.forall_mem_cons.mpr ⟨hput, List.forall_mem_singleton.mpr hpost⟩
  have hstored : (fromEight.handleAll .none "notes" [putItems, postItem]).store.documents "notes" =
      [[("items", .array [.document [(idField, .objectId (.ofNat 8))],
        .document [(idField, .objectId (.ofNat 9))]]), (idField, .objectId (.ofNat 7))]] := by
    simp only [handleAll, List.foldl_cons, List.foldl_nil, handle_of_plan_ok plan_putItems,
      handle_of_plan_ok plan_postItem]
    rfl
  refine ⟨horderly, hstored, ?_⟩
  refine identified_of_orderly _ horderly (by rw [← fromEight, hstored]; exact List.mem_cons_self)
    (.member _ List.mem_cons_self .self) (List.mem_cons_of_mem _ List.mem_cons_self)

/-- A request to put a text at the identifier field of an element. -/
def putElementId : Request :=
  ⟨.put, sevenText ++ "/items/000000000000000000000008/_id", [],
    .object [("update", .string "zzz")]⟩

/-- The request is answered; then the element carries the text, and no identifier selects it. -/
theorem at_elementId :
    (fromEight.handleAll .none "notes" [putItems]).store.documents "notes" =
        [[("items", .array [.document [(idField, .objectId (.ofNat 8))]]),
          (idField, .objectId (.ofNat 7))]] ∧
      (∃ reply, ((fromEight.handleAll .none "notes" [putItems]).handle .none "notes"
        putElementId).1 = .ok reply) ∧
      (fromEight.handleAll .none "notes" [putItems, putElementId]).store.documents "notes" =
        [[("items", .array [.document [(idField, .string "zzz")]]),
          (idField, .objectId (.ofNat 7))]] ∧
      ∀ id : ObjectId, ¬ Document.HasId [(idField, .string "zzz")] id ∧
        id.namesElement (.document [(idField, .string "zzz")]) = false := by
  have hparse : Address.parse putElementId.path false = .ok ⟨some sevenText,
      [.field "items", .identifier (.ofNat 8), .field idField], false⟩ := by
    rw [← toOption_eq_some_iff]
    decide +kernel
  have hplan : putElementId.plan = .ok ⟨.replace putElementId.body none, ⟨some sevenText,
      [.field "items", .identifier (.ofNat 8), .field idField], false⟩,
      .set (.ofNat 7) "$[items]._id" (.string "zzz") [⟨"items", "items", .ofNat 8⟩]⟩ := by
    rw [Request.plan_eq_ok_iff]
    refine ⟨rfl, hparse, ?_⟩
    simp only [Action.accessAt, ofHex?_sevenText]
    rfl
  refine ⟨?_, ?_, ?_, ?_⟩
  · simp only [handleAll, List.foldl_cons, List.foldl_nil, handle_of_plan_ok plan_putItems]
    rfl
  · simp only [handleAll, List.foldl_cons, List.foldl_nil, handle_of_plan_ok plan_putItems,
      handle_of_plan_ok hplan]
    exact ⟨_, rfl⟩
  · simp only [handleAll, List.foldl_cons, List.foldl_nil, handle_of_plan_ok plan_putItems,
      handle_of_plan_ok hplan]
    rfl
  · intro id
    have htext : ObjectId.ofHex? "zzz" = none := by decide +kernel
    refine ⟨?_, ?_⟩
    · rintro ⟨⟩
    · simp [ObjectId.namesElement, ObjectId.names, ObjectId.denotedBy, htext]

end Archive

end RestArchive
