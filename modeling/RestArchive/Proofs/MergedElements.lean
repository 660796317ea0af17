import RestArchive.Path.Descent
import RestArchive.Proofs.OrderlyRequests
import RestArchive.Proofs.Places

/-! # Merging into an element

A merge into an element of an array puts each member of the body at a path of its own, one after the
other, and each path selects the element anew by its identifier. As long as the element keeps its
identifier, all of them find it: it then has every member of the body, and its own members of other
names (`merged_of_handle`). A body that gives the element another identifier hides it from the members
that come behind: they are dropped (`at_renamedElement`). -/

namespace RestArchive

/-! ## Positions -/

/-- A way down by one level. -/
inductive Position where
  /-- To the member of a name. -/
  | member (name : String)
  /-- To the item at an index. -/
  | item (index : Nat)
  deriving DecidableEq, Repr

namespace Value

/-- The value at a position, if there is one. -/
def below? : Value → Position → Option Value
  | .document members, .member name => Entries.get? members name
  | .array items, .item index => items[index]?
  | _, _ => none

/-- The value that positions lead to, if they lead to one. -/
def at? (value : Value) (positions : List Position) : Option Value :=
  positions.foldlM below? value

@[simp] theorem at?_nil (value : Value) : value.at? [] = some value := rfl

@[simp] theorem at?_cons (value : Value) (position : Position) (rest : List Position) :
    value.at? (position :: rest) = (value.below? position).bind fun below => below.at? rest := rfl

/-- Which values segments lead to, and along which positions: a name leads to the member, an identifier
to each element that carries it. -/
inductive Reaches : Value → List Segment → List Position → Value → Prop
  /-- No segments lead nowhere else. -/
  | here (value : Value) : Reaches value [] [] value
  /-- By name to a member. -/
  | member {members : Document} {name : String} {below target : Value} {rest : List Segment}
      {positions : List Position} (get : members.get? name = some below)
      (behind : Reaches below rest positions target) :
      Reaches (.document members) (.field name :: rest) (.member name :: positions) target
  /-- By identifier to an element that carries it. -/
  | item {items : List Value} {index : Nat} {id : ObjectId} {below target : Value}
      {rest : List Segment} {positions : List Position} (get : items[index]? = some below)
      (names : id.namesElement below) (behind : Reaches below rest positions target) :
      Reaches (.array items) (.identifier id :: rest) (.item index :: positions) target

variable {value target : Value} {segments : List Segment} {positions : List Position}

/-- What segments reach along positions stands there. -/
theorem Reaches.at?_eq (h : value.Reaches segments positions target) :
    value.at? positions = some target := by
  induction h with
  | here value => rfl
  | member hget _ ih => simp [below?, hget, ih]
  | item hget _ _ ih => simp [below?, hget, ih]

/-- Where descent ends is reached. -/
theorem exists_reaches_of_descend (h : value.descend segments = .ok target) :
    ∃ positions, value.Reaches segments positions target := by
  induction segments generalizing value with
  | nil =>
    rw [descend_nil] at h
    cases h
    exact ⟨[], .here _⟩
  | cons segment rest ih =>
    rw [descend_cons] at h
    obtain ⟨below, hbelow, hrest⟩ := bind_eq_ok_iff.mp h
    obtain ⟨positions, hpositions⟩ := ih hrest
    cases segment with
    | field name =>
      cases value with
      | document members =>
        rw [child] at hbelow
        split at hbelow
        case h_1 hget =>
          cases hbelow
          exact ⟨.member name :: positions, .member hget hpositions⟩
        case h_2 => cases hbelow
      | _ => cases hbelow
    | identifier id =>
      cases value with
      | array items =>
        rw [child] at hbelow
        split at hbelow
        case h_1 hfind =>
          cases hbelow
          obtain ⟨index, hindex, hget⟩ := List.getElem_of_mem (List.mem_of_find?_eq_some hfind)
          exact ⟨.item index :: positions,
            .item (List.getElem?_eq_some_iff.mpr ⟨hindex, hget⟩) (List.find?_some hfind) hpositions⟩
        case h_2 => cases hbelow
      | _ => cases hbelow

end Value

/-! ## One member -/

namespace Terminal

/-- An element that carries the identifier is changed where it stands. -/
theorem exists_getElem?_of_onElements {id : ObjectId} {edit : Value → Except StoreFailure Value}
    {items changed : List Value} (h : onElements id edit items = .ok changed) {index : Nat}
    {item : Value} (hget : items[index]? = some item) (hitem : id.namesElement item) :
    ∃ result, edit item = .ok result ∧ changed[index]? = some result := by
  induction items generalizing changed index with
  | nil => cases hget
  | cons first items ih =>
    cases index with
    | zero =>
      cases hget
      obtain ⟨result, others, hresult, -, rfl⟩ := (onElements_cons_of_named hitem).mp h
      exact ⟨result, hresult, rfl⟩
    | succ index =>
      by_cases hfirst : id.namesElement first
      · obtain ⟨_, others, -, hothers, rfl⟩ := (onElements_cons_of_named hfirst).mp h
        exact ih hothers hget
      · rw [Bool.not_eq_true] at hfirst
        obtain ⟨others, hothers, rfl⟩ := (onElements_cons_of_not hfirst).mp h
        exact ih hothers hget

/-- A document is changed in place where a value is put below a member that holds it. -/
theorem exists_along_of_document {terminal : Terminal} {document changed members : Document}
    {name : String} {rest : List Step} (hrest : rest ≠ [])
    (hget : document.get? name = some (.document members))
    (h : terminal.along document (.field name :: rest) = .ok changed) :
    ∃ inner, terminal.along members rest = .ok inner ∧
      changed.get? name = some (.document inner) := by
  obtain ⟨result, hresult, -, hmember⟩ := along_cons_ok h
  rw [Step.member] at hresult hmember
  rw [hget] at hresult
  cases rest with
  | nil => exact absurd rfl hrest
  | cons next others =>
    obtain ⟨inner, hinner, rfl⟩ := map_eq_ok_iff.mp hresult
    exact ⟨inner, hinner, hmember⟩

/-- The elements that a scope selects are changed in their array. -/
theorem exists_onElements_of_array {terminal : Terminal} {document changed : Document}
    {scope : Scope} {rest : List Step} {items : List Value}
    (hget : document.get? scope.field = some (.array items))
    (h : terminal.along document (.scoped scope :: rest) = .ok changed) :
    ∃ out, onElements scope.id (terminal.onElement scope.field rest) items = .ok out ∧
      changed.get? scope.field = some (.array out) := by
  obtain ⟨result, hresult, -, hmember⟩ := along_cons_ok h
  rw [Step.member] at hresult hmember
  rw [hget] at hresult
  obtain ⟨out, hout, rfl⟩ := map_eq_ok_iff.mp hresult
  exact ⟨out, hout, hmember⟩

/-- A document keeps its identifier when a value is put inside it, unless right over the identifier
field; there the value must denote it. -/
theorem namesElement_of_along {value : Value} {steps : List Step} {key : String} {id : ObjectId}
    {document changed : Document} (hnames : id.namesElement (.document document))
    (hkeeps : steps = [] → key = idField → id.denotedBy value)
    (h : (Terminal.set value).along document (steps ++ [.field key]) = .ok changed) :
    id.namesElement (.document changed) := by
  obtain ⟨held, hheld, hdenoted⟩ := ObjectId.namesElement_document_iff.mp hnames
  -- No other path leads through the identifier field, which holds neither a document nor an array.
  by_cases hlast : steps ++ [.field key] = [.field idField]
  · rw [hlast] at h
    cases h
    obtain ⟨rfl, hkey⟩ : steps = [] ∧ key = idField := by
      cases steps with
      | nil => exact ⟨rfl, by simpa using hlast⟩
      | cons step steps => simp at hlast
    exact ObjectId.namesElement_document_iff.mpr
      ⟨value, Entries.get?_insert_self _ _ _, hkeeps rfl hkey⟩
  · have hplain := ObjectId.plain_of_denotedBy hdenoted
    have hid := get?_along_of_plain h hheld hplain.1 hplain.2 fun _ _ => hlast
    exact ObjectId.namesElement_document_iff.mpr ⟨held, hid, hdenoted⟩

/-- A value that is put under a name behind a traced path is written into each document that the
segments reach, where it stands; the segments still reach it there, unless the value is written over
the identifier by which the last of them selects. -/
theorem at?_along {value : Value} {key : String} {steps : List Step} {segments : List Segment}
    (htraces : Step.Traces steps segments) {document changed element : Document}
    {positions : List Position}
    (hreaches : (Value.document document).Reaches segments positions (.document element))
    (h : (Terminal.set value).along document (steps ++ [.field key]) = .ok changed) :
    (Value.document changed).at? positions = some (.document (element.insert key value)) ∧
      ((key = idField → ∀ before id, segments = before ++ [.identifier id] → id.denotedBy value) →
        (Value.document changed).Reaches segments positions
          (.document (element.insert key value))) := by
  induction htraces generalizing document changed positions with
  | nil =>
    cases hreaches
    cases h
    exact ⟨rfl, fun _ => .here _⟩
  | @field steps segments name htraces ih =>
    cases hreaches with
    | @member _ _ below _ _ positions hget hbelow =>
      have hrest : steps ++ [.field key] ≠ [] := by simp
      -- The update went into the member, so this is a document.
      obtain ⟨members, rfl⟩ : ∃ members, below = .document members := by
        obtain ⟨result, hresult, -⟩ := along_cons_ok h
        rw [Step.member, hget] at hresult
        obtain ⟨members, -, hmembers, -⟩ := onMember_field hrest hresult
        exact ⟨members, eq_document_of_entered hmembers⟩
      obtain ⟨inner, hinner, hmember⟩ := exists_along_of_document hrest hget h
      obtain ⟨hat, hstays⟩ := ih hbelow hinner
      refine ⟨by simp [Value.below?, hmember, hat], fun hkeeps => .member hmember (hstays ?_)⟩
      rintro hkey before id rfl
      exact hkeeps hkey (.field name :: before) id rfl
  | @«scoped» steps segments scope htraces ih =>
    cases hreaches with
    | member hget hbelow =>
      cases hbelow with
      | @item items index _ below _ _ positions hitem hnames hbelow =>
        have hrest : steps ++ [.field key] ≠ [] := by simp
        obtain ⟨out, hout, hmember⟩ := exists_onElements_of_array hget h
        obtain ⟨result, hresult, hindex⟩ := exists_getElem?_of_onElements hout hitem hnames
        obtain ⟨members, inner, rfl, hinner, rfl⟩ := onElement_of_named hrest hnames hresult
        obtain ⟨hat, hstays⟩ := ih hbelow hinner
        refine ⟨by simp [Value.below?, hmember, hindex, hat], fun hkeeps => ?_⟩
        refine .member hmember (.item hindex (namesElement_of_along hnames ?_ hinner) (hstays ?_))
        · rintro rfl hkey
          cases htraces
          exact hkeeps hkey [.field scope.field] scope.id rfl
        · rintro hkey before id rfl
          exact hkeeps hkey (.field scope.field :: .identifier scope.id :: before) id rfl

end Terminal

/-! ## All members of a body -/

namespace Document

/-- Whether each name of a body is a token of its own behind a path: the names are different, have no
dots and are not spelled like placeholders. -/
structure FlatKeys (body : Document) : Prop where
  /-- Each name is there once. -/
  nodup : body.names.Nodup
  /-- No name has a dot. -/
  dotless : ∀ name ∈ body.names, '.' ∉ name.toList
  /-- No name is spelled like a placeholder. -/
  plain : ∀ name ∈ body.names, placeholderLabel? name = none

/-- Whether a body that is merged into an element leaves it its identifier while there are members to
come: what the body has in the identifier field denotes this identifier, or is its last member. -/
def KeepsName (body : Document) (id : ObjectId) : Prop :=
  ∀ value, body.get? idField = some value →
    id.denotedBy value ∨ body.names.getLast? = some idField

variable {name : String} {value : Value} {body : Document}

/-- What holds of the names of a body holds of those behind the first. -/
theorem FlatKeys.tail (h : FlatKeys ((name, value) :: body)) : body.FlatKeys where
  nodup := (List.nodup_cons.mp h.nodup).2
  dotless other hother := h.dotless other (List.mem_cons_of_mem _ hother)
  plain other hother := h.plain other (List.mem_cons_of_mem _ hother)

/-- The first name does not come again. -/
theorem FlatKeys.get?_eq_none (h : FlatKeys ((name, value) :: body)) : body.get? name = none := by
  by_contra hsome
  exact (List.nodup_cons.mp h.nodup).1 ((Entries.mem_names_iff body name).mpr hsome)

/-- The first of several members leaves the identifier, and so do those behind it. -/
theorem KeepsName.of_cons {id : ObjectId} (h : KeepsName ((name, value) :: body) id)
    (hflat : FlatKeys ((name, value) :: body)) (hne : body ≠ []) :
    (name = idField → id.denotedBy value) ∧ body.KeepsName id := by
  have hlast? : (Entries.names ((name, value) :: body)).getLast? = body.names.getLast? := by
    obtain ⟨entry, rest, rfl⟩ := List.exists_cons_of_ne_nil hne
    rw [Entries.names_cons, Entries.names, List.map_cons, List.getLast?_cons_cons]
  constructor
  · rintro rfl
    refine (h value (by simp)).resolve_right fun hid => ?_
    rw [hlast?] at hid
    exact (List.nodup_cons.mp hflat.nodup).1 (List.mem_of_getLast? hid)
  · intro held hheld
    have hname : name ≠ idField := by
      rintro rfl
      rw [hflat.get?_eq_none] at hheld
      cases hheld
    rw [← hlast?]
    exact h held (by simp [hname, hheld])

/-- The members of a body under paths of their own, each behind a path and a dot. -/
def under (path : String) (body : Document) : Document :=
  body.map fun (name, value) => (path ++ "." ++ name, value)

/-- A value that is put behind the path of well-formed segments, under a name that is a token of its
own, is put along steps that trace the segments, and then under the name. -/
theorem exists_along_of_setAt {address : Address} (hwell : Segment.WellFormed address.retained)
    (hne : address.retained ≠ []) (hdot : '.' ∉ name.toList)
    (hplain : placeholderLabel? name = none) {document changed : Document}
    (h : document.setAt address.scopes (address.fieldPath ++ "." ++ name) value = .ok changed) :
    ∃ steps, Step.Traces steps address.retained ∧
      (Terminal.set value).along document (steps ++ [.field name]) = .ok changed := by
  obtain ⟨steps, hsteps, halong⟩ := bind_eq_ok_iff.mp (atPath_of_setAt h)
  have hsplit : Text.split '.' name = [name] := Text.split_of_not_mem hdot
  have hshape : ∀ token ∈ Text.split '.' name, placeholderLabel? token = none := by
    rw [hsplit]
    exact List.forall_mem_singleton.mpr hplain
  obtain ⟨traced, htraced, rfl⟩ :=
    Step.exists_traces_of_parse_append_dot hwell hne hshape hsteps
  rw [hsplit] at halong
  exact ⟨traced, htraced, halong⟩

/-- Members that are put behind the path of an element, one after the other, are written into the
element where it stands. -/
theorem at?_setAll {address : Address} {id : ObjectId}
    (hwell : Segment.WellFormed address.retained)
    (hlast : address.retained.getLast? = some (.identifier id)) (hflat : body.FlatKeys)
    (hkeeps : body.KeepsName id) {document changed element : Document} {positions : List Position}
    (hreaches : (Value.document document).Reaches address.retained positions (.document element))
    (h : document.setAll address.scopes (body.under address.fieldPath) = .ok changed) :
    (Value.document changed).at? positions = some (.document
      (body.foldl (fun entries pair => Entries.insert entries pair.1 pair.2) element)) := by
  induction body generalizing document element with
  | nil =>
    cases h
    exact hreaches.at?_eq
  | cons member body ih =>
    obtain ⟨name, value⟩ := member
    have hne : address.retained ≠ [] := fun hnil => by simp [hnil] at hlast
    obtain ⟨next, hnext, hrest⟩ := bind_eq_ok_iff.mp h
    obtain ⟨steps, htraces, halong⟩ := exists_along_of_setAt hwell hne
      (hflat.dotless name List.mem_cons_self) (hflat.plain name List.mem_cons_self) hnext
    obtain ⟨hat, hstays⟩ := Terminal.at?_along htraces hreaches halong
    by_cases hbody : body = []
    · -- After the last member nothing has to find the element any more.
      subst hbody
      cases hrest
      exact hat
    · obtain ⟨hdenoted, hkeeps⟩ := hkeeps.of_cons hflat hbody
      refine ih hflat.tail hkeeps (hstays fun hkey before other hsegments => ?_) hrest
      rw [hsegments, List.getLast?_concat] at hlast
      cases hlast
      exact hdenoted hkey

/-- Members under paths of their own are stamped like the members. -/
theorem stampInside_under (path : String) (supply : IdSupply) (body : Document) :
    ((body.under path).stampInside supply).1 = Document.under path (body.stampInside supply).1 := by
  simp only [stampInside, under]
  induction body generalizing supply with
  | nil => rfl
  | cons member body ih =>
    obtain ⟨name, value⟩ := member
    simp [Value.stampMembers, ih]

/-- Stamping leaves the names of a body tokens of their own. -/
theorem FlatKeys.stampInside (h : body.FlatKeys) (supply : IdSupply) :
    FlatKeys (body.stampInside supply).1 := by
  have hnames : Entries.names (body.stampInside supply).1 = body.names :=
    Value.names_stampMembers supply body
  exact ⟨hnames ▸ h.nodup, hnames ▸ h.dotless, hnames ▸ h.plain⟩

/-- Stamping leaves an element its identifier. -/
theorem KeepsName.stampInside {id : ObjectId} (h : body.KeepsName id) (supply : IdSupply) :
    KeepsName (body.stampInside supply).1 id := by
  intro value hvalue
  obtain ⟨rest, hrest⟩ := Value.exists_get?_stampMembers supply body idField
  rw [Document.stampInside, hrest, Option.map_eq_some_iff] at hvalue
  obtain ⟨held, hheld, rfl⟩ := hvalue
  rw [Document.stampInside, Value.names_stampMembers]
  refine (h held hheld).imp_left fun hdenoted => ?_
  cases held with
  | document _ => cases hdenoted
  | array _ => cases hdenoted
  | _ => exact hdenoted

/-- The members of a body under paths of their own are written as they are when the names differ. -/
theorem ofPairs_under (h : body.FlatKeys) (path : String) :
    Entries.ofPairs (body.under path) = body.under path := by
  refine Entries.ofPairs_of_nodup ?_
  have hmap : (body.under path).map Prod.fst = body.names.map fun name => path ++ "." ++ name := by
    simp [under, Entries.names, List.map_map, Function.comp_def]
  rw [hmap]
  exact h.nodup.map fun first second heq => (String.append_right_inj _).mp heq

end Document

/-! ## Merging requests -/

/-- All segments count unless the last one is left out. -/
theorem Address.retained_of_parse {path : String} {address : Address}
    (h : parse path false = .ok address) : address.retained = address.segments := by
  have homits := congrArg omitsLast (Except.ok.inj (h.symm.trans (parse_omitting h false)))
  rw [retained, homits]
  rfl

/-- A merge into an element puts the members of the body behind the path of the element. -/
theorem Action.eq_set_of_merge {address : Address} {access : Access} {id last : ObjectId}
    {json : Json} {filter : Option Filter} {single : Bool} {body : Document}
    (hleads : address.LeadsTo id) (hlast : address.retained.getLast? = some (.identifier last))
    (hbody : Body.document json = .ok body) (hflat : body.FlatKeys)
    (h : (Action.merge json filter single).accessAt address = .ok access) :
    access = .set id "" (.document (body.under address.fieldPath)) address.scopes := by
  have hnested : address.isNested := by
    cases hsegments : address.segments with
    | nil => simp [Address.retained, hsegments] at hlast
    | cons segment rest => simp [Address.isNested, hsegments]
  cases becomes_of_accessAt h with
  | merge whole => exact absurd whole hleads.root_ne_none
  | mergeInto leads bare => simp [hnested] at bare
  | mergeField leads nested last => exact absurd hlast (last _)
  | @mergeElement _ _ _ document id' _ leads nested last read =>
    rw [documentOf, mapError_eq_ok_iff, hbody] at read
    cases read
    rw [hleads.eq leads, ← Document.ofPairs_under hflat]
    rfl

namespace Archive

variable {validator : Validator} {collection : String} {archive : Archive} {request : Request}
  {reply : Reply}

/-- A merge into an element that is answered has updated the document that the address leads to, with
the members of the body, stamped, behind the path of the element. -/
theorem exists_setAll_of_handle {address : Address} {id element : ObjectId} {body : Document}
    (hverb : request.verb = .patch) (hparse : Address.parse request.path false = .ok address)
    (hleads : address.LeadsTo id)
    (hlast : address.segments.getLast? = some (.identifier element))
    (hbody : Body.document request.body = .ok body) (hflat : body.FlatKeys)
    (h : (archive.handle validator collection request).1 = .ok reply) :
    ∃ before document changed following,
      archive.store.documents collection = before ++ document :: following ∧
      (archive.handle validator collection request).2.store.documents collection =
        before ++ changed :: following ∧
      (∀ other ∈ before, id.names other = false) ∧ id.names document ∧
      document.setAll address.scopes
        (Document.under address.fieldPath (body.stampInside archive.supply).1) = .ok changed ∧
      reply = .data 200 changed.toJson := by
  obtain ⟨plan, asked, outcome, rest, hplan, hissues, hperform, hstore, hreply⟩ :=
    exists_command_of_handle (by simp [hverb]) h
  obtain ⟨haction, haddress, haccess⟩ := Request.plan_eq_ok_iff.mp hplan
  obtain ⟨filter, single, hmerge⟩ :
      ∃ filter single, plan.action = .merge request.body filter single := by
    simp only [Request.action, hverb] at haction
    obtain ⟨selection, -, heq⟩ := map_eq_ok_iff.mp haction
    exact ⟨_, _, heq.symm⟩
  rw [hmerge] at haddress haccess hreply
  obtain rfl : address = plan.address := Except.ok.inj (hparse.symm.trans haddress)
  have hretained : plan.address.retained.getLast? = some (.identifier element) := by
    rw [Address.retained_of_parse hparse, hlast]
  rw [Action.eq_set_of_merge hleads hretained hbody hflat haccess] at hissues
  cases hissues with
  | setAt id value scopes hpath => exact absurd rfl hpath
  | setAll id values scopes =>
    obtain ⟨changed, rfl, hupdate⟩ := Command.exists_of_perform_update hleads.root_ne_none
      (by simp [Action.verb]) hperform hreply
    obtain ⟨before, document, following, hbefore, rfl, hothers, hnames, happly⟩ :=
      Documents.exists_of_update_some hupdate
    refine ⟨before, document, changed, following, hbefore, ?_, hothers, hnames, ?_, ?_⟩
    · rw [hstore, Store.documents_put_self]
    · rw [← Document.stampInside_under]
      exact happly
    · simpa [Outcome.replyTo, Outcome.replyToMerge, hleads.isCollection_eq] using hreply.symm

/-- Whatever the archive holds: a merge into an element that is answered changes the first document of
the identifier in its place, and in this document each element that the address reaches. Such an element
then has the members of the body, stamped, and its own members of other names. The body must leave the
element its identifier while there are members to come. -/
theorem merged_of_handle {address : Address} {id last : ObjectId} {body root target : Document}
    (hverb : request.verb = .patch) (hparse : Address.parse request.path false = .ok address)
    (hleads : address.LeadsTo id) (hwell : Segment.WellFormed address.segments)
    (hlast : address.segments.getLast? = some (.identifier last))
    (hbody : Body.document request.body = .ok body) (hflat : body.FlatKeys)
    (hkeeps : body.KeepsName last)
    (hroot : (archive.store.documents collection).get? id = some root)
    (hwalk : (Value.document root).descend address.segments = .ok (.document target))
    (h : (archive.handle validator collection request).1 = .ok reply) :
    ∃ before changed following,
      archive.store.documents collection = before ++ root :: following ∧
      (archive.handle validator collection request).2.store.documents collection =
        before ++ changed :: following ∧
      reply = .data 200 changed.toJson ∧
      (∃ positions, (Value.document root).Reaches address.segments positions (.document target)) ∧
      ∀ positions (element : Document),
        (Value.document root).Reaches address.segments positions (.document element) →
        ∃ merged : Document, (Value.document changed).at? positions = some (.document merged) ∧
          ∀ name, merged.get? name =
            (Entries.get? (body.stampInside archive.supply).1 name).or (element.get? name) := by
  obtain ⟨before, document, changed, following, hbefore, hafter, hothers, hnames, hset, hreply⟩ :=
    exists_setAll_of_handle hverb hparse hleads hlast hbody hflat h
  obtain rfl : document = root := by
    rw [hbefore, Documents.get?, List.find?_append, List.find?_eq_none.mpr (by simpa using hothers),
      Option.none_or, List.find?_cons_of_pos hnames] at hroot
    exact Option.some.inj hroot
  refine ⟨before, changed, following, hbefore, hafter, hreply,
    Value.exists_reaches_of_descend hwalk, fun positions element hreaches => ?_⟩
  have hstamped := hflat.stampInside archive.supply
  rw [← Address.retained_of_parse hparse] at hwell hlast hreaches
  refine ⟨_, Document.at?_setAll hwell hlast hstamped (hkeeps.stampInside _) hreaches hset,
    fun name => ?_⟩
  exact Entries.get?_foldl_insert hstamped.nodup element name

/-- The text of the identifier that the item below has. -/
def eightText : String := "000000000000000000000008"

/-- An item with a count. -/
def countedItem : Document := [(idField, .objectId (.ofNat 8)), ("n", .int32 1)]

/-- A document with the item. -/
def countedHolder : Document :=
  [("items", .array [.document countedItem]), (idField, .objectId (.ofNat 7))]

/-- An archive with that document. -/
def oneItem : Archive := ⟨⟨[("notes", [countedHolder])]⟩, ⟨.ofNat, 9⟩⟩

/-- A request to merge members into the item. -/
def patchItem (members : List (String × Json)) : Request :=
  ⟨.patch, sevenText ++ "/items/" ++ eightText, [], .object members⟩

/-- The address of the item. -/
def itemAddress : Address :=
  ⟨some sevenText, [.field "items", .identifier (.ofNat 8)], false⟩

/-- The request is one to that address. -/
theorem parse_patchItem (members : List (String × Json)) :
    Address.parse (patchItem members).path false = .ok itemAddress := by
  rw [← toOption_eq_some_iff]
  show (Address.parse (sevenText ++ "/items/" ++ eightText) false).toOption = _
  decide +kernel

/-- A member that gives an item another identifier. -/
def newId : String × Json := (idField, .string (ObjectId.toHex (.ofNat 9)))

/-- A member besides. -/
def newCount : String × Json := ("n", .integer 2)

/-- A merge of members that are stored as these values comes to putting them behind the item. -/
theorem plan_patchItem {members : List (String × Json)} {values : Document}
    (hbody : Body.document (.object members) = .ok values) :
    (patchItem members).plan = .ok ⟨.merge (.object members) none false, itemAddress,
      .set (.ofNat 7) "" (.document (Entries.ofPairs (Document.under "$[items]" values)))
        [⟨"items", "items", .ofNat 8⟩]⟩ := by
  rw [Request.plan_eq_ok_iff]
  refine ⟨rfl, parse_patchItem members, ?_⟩
  have hread : Action.documentOf (.object members) = .ok values := by
    rw [Action.documentOf, hbody]
    rfl
  simp only [Action.accessAt, itemAddress, ofHex?_sevenText]
  show (Action.documentOf (.object members)).bind _ = _
  rw [hread]
  rfl

/-- The new identifier is stored as one, in either place. -/
theorem document_newId : Body.document (.object [newCount, newId]) =
      .ok [("n", .int32 2), (idField, .objectId (.ofNat 9))] ∧
    Body.document (.object [newId, newCount]) =
      .ok [(idField, .objectId (.ofNat 9)), ("n", .int32 2)] := by
  have hid : Body.castId idField (.string (ObjectId.toHex (.ofNat 9))) =
      .ok (.objectId (.ofNat 9)) := by
    simp [Body.castId]
  have hne : "n" ≠ idField := by decide
  constructor
  all_goals
    simp only [Body.document, newCount, newId, Body.membersAt, Body.memberPath, if_true, if_neg hne,
      hid]
    rfl

/-- Behind all other members, a new identifier is merged with them. -/
theorem merged_of_handle_newIdLast : ∃ reply,
    (oneItem.handle .none "notes" (patchItem [newCount, newId])).1 = .ok reply ∧
    ∃ before changed following,
      oneItem.store.documents "notes" = before ++ countedHolder :: following ∧
      (oneItem.handle .none "notes" (patchItem [newCount, newId])).2.store.documents "notes" =
        before ++ changed :: following ∧
      reply = .data 200 changed.toJson ∧
      (∃ positions,
        (Value.document countedHolder).Reaches itemAddress.segments positions (.document countedItem)) ∧
      ∀ positions (element : Document),
        (Value.document countedHolder).Reaches itemAddress.segments positions (.document element) →
        ∃ merged : Document, (Value.document changed).at? positions = some (.document merged) ∧
          ∀ name, merged.get? name =
            (Entries.get? [("n", .int32 2), (idField, .objectId (.ofNat 9))] name).or
              (element.get? name) := by
  have hok : ∃ reply, (oneItem.handle .none "notes" (patchItem [newCount, newId])).1 = .ok reply := by
    rw [handle_of_plan_ok (plan_patchItem document_newId.1)]
    exact ⟨_, rfl⟩
  obtain ⟨reply, hreply⟩ := hok
  have hflat : Document.FlatKeys [("n", .int32 2), (idField, .objectId (.ofNat 9))] :=
    ⟨by decide, by decide, by decide⟩
  have hkeeps : Document.KeepsName [("n", .int32 2), (idField, .objectId (.ofNat 9))] (.ofNat 8) :=
    fun _ _ => Or.inr rfl
  exact ⟨reply, hreply, merged_of_handle rfl (parse_patchItem _) ⟨sevenText, rfl, ofHex?_sevenText⟩
    (by decide) rfl document_newId.1 hflat hkeeps rfl rfl hreply⟩

/-- In front of another member, a new identifier hides the item from it: the request is answered, and the
count is dropped. -/
theorem at_renamedElement :
    Body.document (.object [newId, newCount]) =
        .ok [(idField, .objectId (.ofNat 9)), ("n", .int32 2)] ∧
      (∃ reply, (oneItem.handle .none "notes" (patchItem [newId, newCount])).1 = .ok reply) ∧
      oneItem.store.documents "notes" = [countedHolder] ∧
      (Value.document countedHolder).Reaches itemAddress.segments [.member "items", .item 0]
        (.document countedItem) ∧
      ∃ changed : Document,
        (oneItem.handle .none "notes" (patchItem [newId, newCount])).2.store.documents "notes" =
          [changed] ∧
        (Value.document changed).at? [.member "items", .item 0] =
          some (.document [(idField, .objectId (.ofNat 9)), ("n", .int32 1)]) := by
  rw [handle_of_plan_ok (plan_patchItem document_newId.2)]
  exact ⟨document_newId.2, ⟨_, rfl⟩, rfl, .member rfl (.item rfl (by decide) (.here _)), _, rfl, rfl⟩

end Archive

end RestArchive
