import RestArchive.Proofs.Elements
import RestArchive.Proofs.ScopedText

/-! # Updates at addresses

What is put, added or removed at an address of a document, as one update (`Terminal.updateAt`), and
the place that it changes (`Terminal.place`). The update reads a dotted text; on well-formed
segments it acts along steps that trace them (`exists_traces_of_wellFormed`). -/

namespace RestArchive

namespace Segment

/-- Two places diverge when their segments differ at a position that both have. -/
def Diverge (first second : List Segment) : Prop :=
  ∃ (position : Nat) (a b : Segment), first[position]? = some a ∧ second[position]? = some b ∧ a ≠ b

/-- Nothing diverges from the whole. -/
@[simp] theorem not_diverge_nil_left (segments : List Segment) : ¬ Diverge [] segments := by
  rintro ⟨position, a, b, ha, -⟩
  simp at ha

/-- The whole diverges from nothing. -/
@[simp] theorem not_diverge_nil_right (segments : List Segment) : ¬ Diverge segments [] := by
  rintro ⟨position, a, b, -, hb, -⟩
  simp at hb

/-- Diverging goes both ways. -/
theorem Diverge.symm {first second : List Segment} (h : Diverge first second) :
    Diverge second first := by
  obtain ⟨position, a, b, ha, hb, hne⟩ := h
  exact ⟨position, b, a, hb, ha, hne.symm⟩

/-- A place that another one diverges from is not the whole. -/
theorem Diverge.ne_nil_right {first second : List Segment} (h : Diverge first second) :
    second ≠ [] := by
  rintro rfl
  exact not_diverge_nil_right first h

/-- Two places diverge at their first segments or behind them. -/
@[simp] theorem diverge_cons_iff (a b : Segment) (as bs : List Segment) :
    Diverge (a :: as) (b :: bs) ↔ a ≠ b ∨ Diverge as bs := by
  constructor
  · rintro ⟨position, c, d, hc, hd, hne⟩
    cases position with
    | zero =>
      rw [List.getElem?_cons_zero, Option.some.injEq] at hc hd
      subst hc hd
      exact Or.inl hne
    | succ position => exact Or.inr ⟨position, c, d, hc, hd, hne⟩
  · rintro (hne | ⟨position, c, d, hc, hd, hne⟩)
    · exact ⟨0, a, b, rfl, rfl, hne⟩
    · exact ⟨position + 1, c, d, hc, hd, hne⟩

end Segment

/-- Segments that are traced by a first step start with its field. -/
theorem Step.Traces.exists_cons {step : Step} {rest : List Step} {segments : List Segment}
    (h : Traces (step :: rest) segments) : ∃ below, segments = .field step.member :: below := by
  cases h <;> exact ⟨_, rfl⟩

namespace Terminal

/-- What a terminal does at an address, as an update: at its scoped path, with its scopes. -/
def updateAt (terminal : Terminal) (address : Address) : Update :=
  match terminal with
  | .set value => ⟨.set [(address.fieldPath, value)], address.scopes⟩
  | .push value => ⟨.push address.fieldPath value, address.scopes⟩
  | .pull id => ⟨.pull address.fieldPath id, address.scopes⟩

/-- What a terminal does at a path, as an update with the given scopes. -/
def asUpdate (terminal : Terminal) (scopes : List Scope) (path : String) : Update :=
  match terminal with
  | .set value => ⟨.set [(path, value)], scopes⟩
  | .push value => ⟨.push path value, scopes⟩
  | .pull id => ⟨.pull path id, scopes⟩

/-- An update at an address is one at its scoped path. -/
theorem updateAt_eq (terminal : Terminal) (address : Address) :
    terminal.updateAt address = terminal.asUpdate address.scopes address.fieldPath := by
  cases terminal <;> rfl

/-- The place that a terminal changes. A removal changes only the elements that it removes, so its
place includes their identifier. -/
def place (terminal : Terminal) (segments : List Segment) : List Segment :=
  match terminal with
  | .pull id => segments ++ [.identifier id]
  | _ => segments

@[simp] theorem place_cons (terminal : Terminal) (segment : Segment) (segments : List Segment) :
    terminal.place (segment :: segments) = segment :: terminal.place segments := by
  cases terminal <;> rfl

/-- Behind a traced path, a place goes on with an identifier only where elements are removed. -/
theorem eq_nil_of_place_eq_identifier {terminal : Terminal} {steps : List Step}
    {segments behind : List Segment} {id : ObjectId} (htraces : Step.Traces steps segments)
    (h : terminal.place segments = .identifier id :: behind) : behind = [] := by
  cases htraces with
  | nil => cases terminal <;> simp [place] at h; exact h.2
  | field name htraces => simp at h
  | «scoped» scope htraces => simp at h

/-- Whether a terminal leaves the identifiers of selected elements as they are: it puts nothing over
the identifier field of an element, and what it puts in the place of an element carries its
identifier. -/
structure KeepsIds (terminal : Terminal) (segments : List Segment) : Prop where
  /-- Nothing is put over the identifier field of an element. -/
  notId : ∀ value before id, terminal = .set value →
    segments ≠ before ++ [.identifier id, .field idField]
  /-- What is put in the place of an element carries its identifier. -/
  named : ∀ value before id, terminal = .set value → segments = before ++ [.identifier id] →
    id.namesElement value

/-- What adds a value to an array leaves identifiers as they are. -/
theorem keepsIds_push (value : Value) (segments : List Segment) :
    (Terminal.push value).KeepsIds segments where
  notId := by simp
  named := by simp

/-- What removes elements from an array leaves the identifiers of the others as they are. -/
theorem keepsIds_pull (id : ObjectId) (segments : List Segment) :
    (Terminal.pull id).KeepsIds segments where
  notId := by simp
  named := by simp

/-- What changes a field other than the identifier leaves identifiers as they are. -/
theorem keepsIds_of_getLast? {segments : List Segment} {name : String}
    (hlast : segments.getLast? = some (.field name)) (hname : name ≠ idField) (terminal : Terminal) :
    terminal.KeepsIds segments where
  notId value before id _ hsegments := by
    rw [hsegments] at hlast
    simp [hname.symm] at hlast
  named value before id _ hsegments := by
    rw [hsegments] at hlast
    simp at hlast

/-- What holds of segments holds of those behind the first one. -/
theorem KeepsIds.tail {terminal : Terminal} {segment : Segment} {segments : List Segment}
    (h : terminal.KeepsIds (segment :: segments)) : terminal.KeepsIds segments where
  notId value before id hset hsegments :=
    h.notId value (segment :: before) id hset (by rw [hsegments, List.cons_append])
  named value before id hset hsegments :=
    h.named value (segment :: before) id hset (by rw [hsegments, List.cons_append])

end Terminal

namespace Terminal

/-- An update at one path acts along the steps that the path is read as. -/
theorem atPath_of_apply_asUpdate {terminal : Terminal} {scopes : List Scope} {path : String}
    {document changed : Document} (h : (terminal.asUpdate scopes path).apply document = .ok changed) :
    terminal.atPath scopes document path = .ok changed := by
  cases terminal with
  | set value =>
    simp only [asUpdate, Update.apply, Document.setAll, bind_eq_ok_iff, Except.ok.injEq] at h
    obtain ⟨inner, hinner, rfl⟩ := h
    exact Document.atPath_of_setAt hinner
  | push value => exact h
  | pull id => exact h

/-- An update at an address acts along the steps that its path is read as. -/
theorem atPath_of_apply_updateAt {terminal : Terminal} {address : Address}
    {document changed : Document} (h : (terminal.updateAt address).apply document = .ok changed) :
    terminal.atPath address.scopes document address.fieldPath = .ok changed := by
  rw [updateAt_eq] at h
  exact atPath_of_apply_asUpdate h

/-- An update at an address of no segments is refused. -/
theorem retained_ne_nil_of_apply_updateAt {terminal : Terminal} {address : Address}
    {document changed : Document} (h : (terminal.updateAt address).apply document = .ok changed) :
    address.retained ≠ [] := by
  intro hnil
  have hpath := atPath_of_apply_updateAt h
  have hempty : address.fieldPath = "" := by
    rw [Address.fieldPath, Address.scopedPath, hnil]
    rfl
  simp [atPath, Step.parse, hempty, Except.bind] at hpath

/-- An update at an address whose segments are well-formed acts along steps that trace them. -/
theorem exists_traces_of_wellFormed (terminal : Terminal) (address : Address)
    (h : Segment.WellFormed address.retained) :
    ∃ steps, Step.Traces steps address.retained ∧ ∀ document changed,
      (terminal.updateAt address).apply document = .ok changed →
        terminal.along document steps = .ok changed := by
  by_cases hne : address.fieldPath = ""
  · -- An empty path is refused, so any tracing steps will do.
    obtain ⟨steps, -, htraces⟩ := Step.exists_ofTokens_eq_traces "" [] address.retained h [] (by simp)
    refine ⟨steps, htraces, ?_⟩
    intro document changed happly
    have hpath := atPath_of_apply_updateAt happly
    simp [atPath, Step.parse, hne, Except.bind] at hpath
  · obtain ⟨steps, hsteps, htraces⟩ := Step.exists_parse_eq_traces h hne
    refine ⟨steps, htraces, ?_⟩
    intro document changed happly
    have hpath := atPath_of_apply_updateAt happly
    have hparse : Step.parse address.scopes address.fieldPath = .ok steps := hsteps
    rw [atPath, hparse] at hpath
    exact hpath

/-! ## Selected elements -/

/-- A path that goes on behind a selected element goes on in the document that the element is. -/
theorem onElement_of_named {terminal : Terminal} {field : String} {rest : List Step}
    {id : ObjectId} {item result : Value} (hrest : rest ≠ []) (hitem : id.namesElement item)
    (h : terminal.onElement field rest item = .ok result) :
    ∃ members inner, item = .document members ∧ terminal.along members rest = .ok inner ∧
      result = .document inner := by
  obtain ⟨members, rfl⟩ := ObjectId.exists_document_of_namesElement hitem
  rw [onElement_document hrest, map_eq_ok_iff] at h
  obtain ⟨inner, hinner, rfl⟩ := h
  exact ⟨members, inner, rfl, hinner, rfl⟩

/-- Where a path ends at a selected element, a value is put in its place: there is no array to add
to or remove from. -/
theorem eq_set_of_onElement {terminal : Terminal} {field : String} {id : ObjectId}
    {item result : Value} (hitem : id.namesElement item)
    (h : terminal.onElement field [] item = .ok result) : terminal = .set result := by
  obtain ⟨members, rfl⟩ := ObjectId.exists_document_of_namesElement hitem
  cases terminal <;> simp [onElement, onValue] at h
  rw [h]

/-- From the place of a selected element nothing diverges that a path ending there could keep. -/
theorem ne_nil_of_diverge {terminal : Terminal} {field : String} {rest : List Step}
    {segments other : List Segment} {id : ObjectId} {item result : Value}
    (htraces : Step.Traces rest segments)
    (hdiverge : Segment.Diverge (terminal.place segments) other) (hitem : id.namesElement item)
    (h : terminal.onElement field rest item = .ok result) : rest ≠ [] := by
  rintro rfl
  cases htraces
  rw [eq_set_of_onElement hitem h] at hdiverge
  exact Segment.not_diverge_nil_left other hdiverge

/-- A selected element still carries its identifier after the change. -/
theorem namesElement_of_onElement {terminal : Terminal} {scope : Scope} {rest : List Step}
    {segments : List Segment} {item result : Value}
    (hkeeps : terminal.KeepsIds (.field scope.field :: .identifier scope.id :: segments))
    (htraces : Step.Traces rest segments) (hitem : scope.id.namesElement item)
    (h : terminal.onElement scope.field rest item = .ok result) :
    scope.id.namesElement result := by
  by_cases hrest : rest = []
  · subst hrest
    cases htraces
    exact hkeeps.named result [.field scope.field] scope.id (eq_set_of_onElement hitem h) rfl
  · obtain ⟨members, inner, rfl, hinner, rfl⟩ := onElement_of_named hrest hitem h
    obtain ⟨value, hvalue, hdenoted⟩ := ObjectId.namesElement_document_iff.mp hitem
    -- The identifier field holds neither a document nor an array, and nothing is put over it.
    have hplain := ObjectId.plain_of_denotedBy hdenoted
    have hset : ∀ new, terminal = .set new → rest ≠ [.field idField] := by
      rintro new hnew rfl
      cases htraces with
      | field name htail =>
        cases htail
        exact hkeeps.notId new [.field scope.field] scope.id hnew rfl
    have hid := get?_along_of_plain hinner hvalue hplain.1 hplain.2 hset
    exact ObjectId.namesElement_document_iff.mpr ⟨value, hid, hdenoted⟩

/-- The first element that a scope selects is, after the change, what became of it. -/
theorem find?_selected {terminal : Terminal} {scope : Scope} {rest : List Step}
    {segments : List Segment} {items changed : List Value}
    (hkeeps : terminal.KeepsIds (.field scope.field :: .identifier scope.id :: segments))
    (htraces : Step.Traces rest segments)
    (h : onElements scope.id (terminal.onElement scope.field rest) items = .ok changed) :
    (items.find? scope.id.namesElement = none ∧ changed.find? scope.id.namesElement = none) ∨
      ∃ item result, items.find? scope.id.namesElement = some item ∧
        terminal.onElement scope.field rest item = .ok result ∧
        changed.find? scope.id.namesElement = some result :=
  find?_onElements_self
    (fun _ _ hitem hresult => namesElement_of_onElement hkeeps htraces hitem hresult) h

/-- A first step that changes nothing of its member but the elements that carry an identifier, and
leaves their identifier on those that it keeps. -/
structure Selects (terminal : Terminal) (rest : List Step) (step : Step) (id : ObjectId)
    (change : Value → Except StoreFailure (Option Value)) : Prop where
  /-- Elements that are kept keep their identifier. -/
  keeps : KeepsName id change
  /-- The elements with the identifier are changed. -/
  changes : ∀ {member result : Option Value}, terminal.onMember rest step member = .ok result →
    ∃ items changed, listed member = some items ∧ overElements id change items = .ok changed ∧
      listed result = some changed

/-- A removal selects the elements that it removes. -/
theorem selects_pull (id : ObjectId) (name : String) :
    (Terminal.pull id).Selects [] (.field name) id fun _ => .ok none where
  keeps := by
    intro item changed hitem h
    cases h
  changes h := by
    obtain ⟨items, hitems, hresult⟩ := onMember_pull h
    exact ⟨items, _, hitems, overElements_drop id items, hresult⟩

/-- A step by scope selects the elements that carry the identifier of the scope. -/
theorem selects_scoped {terminal : Terminal} {scope : Scope} {rest : List Step}
    {segments : List Segment}
    (hkeeps : terminal.KeepsIds (.field scope.field :: .identifier scope.id :: segments))
    (htraces : Step.Traces rest segments) :
    terminal.Selects rest (.scoped scope) scope.id fun item =>
      (terminal.onElement scope.field rest item).map some where
  keeps := by
    intro item changed hitem h
    obtain ⟨result, hresult, hchanged⟩ := map_eq_ok_iff.mp h
    cases hchanged
    exact namesElement_of_onElement hkeeps htraces hitem hresult
  changes h := by
    obtain ⟨items, changed, hitems, hchanged, hresult⟩ := onMember_scoped h
    rw [onElements_eq_overElements] at hchanged
    exact ⟨items, changed, hitems, hchanged, hresult⟩

end Terminal

/-! ## An example: rows in rows -/

/-- The tags of a row in the rows of a row. Both labels of its scoped path come from one name. -/
def rowTags : Address where
  root := some "a"
  segments := [.field "rows", .identifier (.ofNat 10), .field "rows", .identifier (.ofNat 11),
    .field "tags"]
  omitsLast := false

/-- A note in a row. -/
def rowNote : Address where
  root := some "a"
  segments := [.field "rows", .identifier (.ofNat 10), .field "note"]
  omitsLast := false

/-- Rows in rows, every identifier carried by two of them, once as a text; the tags of the rows
inside are given. -/
def doubledRows (first second : List Value) : Document :=
  let row (id : Value) (members : Document) : Value := .document ((idField, id) :: members)
  let inner : Document := [("rows", .array [
    row (.string (ObjectId.toHex (.ofNat 11))) [("tags", .array first)],
    row (.objectId (.ofNat 11)) [("tags", .array second)]])]
  [("rows", .array [row (.objectId (.ofNat 10)) inner,
    row (.string (ObjectId.toHex (.ofNat 10))) inner])]

end RestArchive
