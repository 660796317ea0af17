import RestArchive.Path.Descent
import RestArchive.Proofs.WellPlaced

/-! # Reading after writing

Reading and writing follow an address in their own ways. Reading takes the first element that
carries an identifier; writing cuts a dotted text and changes every such element. They agree on the
place:

* what is read at the address afterwards is what was written there;
* what is read at a place that diverges from the one written to is what was read there before. -/

namespace RestArchive

namespace Value

/-- The value that segments lead to, if they lead to one. -/
def look? (value : Value) (segments : List Segment) : Option Value :=
  (value.descend segments).toOption

@[simp] theorem look?_nil (value : Value) : value.look? [] = some value := by
  rw [look?, descend_nil]
  rfl

/-- Looking follows one segment after the other. -/
theorem look?_cons (value : Value) (segment : Segment) (rest : List Segment) :
    value.look? (segment :: rest) =
      (value.child segment).toOption.bind fun below => below.look? rest := by
  rw [look?, descend_cons]
  cases value.child segment <;> rfl

@[simp] theorem look?_document_field (members : Document) (name : String) (rest : List Segment) :
    (Value.document members).look? (.field name :: rest) =
      (members.get? name).bind fun below => below.look? rest := by
  rw [look?_cons, child]
  cases members.get? name <;> rfl

@[simp] theorem look?_document_identifier (members : Document) (id : ObjectId)
    (rest : List Segment) : (Value.document members).look? (.identifier id :: rest) = none := by
  rw [look?_cons]
  rfl

@[simp] theorem look?_array_field (items : List Value) (name : String) (rest : List Segment) :
    (Value.array items).look? (.field name :: rest) = none := by
  rw [look?_cons]
  rfl

@[simp] theorem look?_array_identifier (items : List Value) (id : ObjectId) (rest : List Segment) :
    (Value.array items).look? (.identifier id :: rest) =
      (items.find? id.namesElement).bind fun below => below.look? rest := by
  rw [look?_cons, child]
  cases items.find? id.namesElement <;> rfl

/-- Nothing is read below a member that is missing, just as in an empty document. -/
theorem look?_of_entered {member : Option Value} {members : Document} {segments : List Segment}
    (h : Terminal.entered member = some members) (hne : segments ≠ []) :
    (member.bind fun below => below.look? segments) = (Value.document members).look? segments := by
  cases member with
  | none =>
    cases h
    cases segments with
    | nil => exact absurd rfl hne
    | cons segment rest => cases segment <;> simp
  | some value =>
    rw [Terminal.eq_document_of_entered h]
    rfl

/-- Nothing is read below a member that is missing, just as in an empty array. -/
theorem look?_of_listed {member : Option Value} {items : List Value} {segments : List Segment}
    (h : Terminal.listed member = some items) (hne : segments ≠ []) :
    (member.bind fun below => below.look? segments) = (Value.array items).look? segments := by
  cases member with
  | none =>
    cases h
    cases segments with
    | nil => exact absurd rfl hne
    | cons segment rest => cases segment <;> simp
  | some value =>
    rw [Terminal.eq_array_of_listed h]
    rfl

end Value

namespace Terminal

/-! ## At the place written to -/

/-- Where a path ends at a value that is there, the value is replaced. -/
theorem onLast_some (terminal : Terminal) (name : String) (value : Value) :
    terminal.onLast name (some value) = (terminal.onValue name value).map some := by
  cases terminal <;> rfl

/-- The value read at a place is, after the update there, what the update makes of it. -/
theorem look?_along_self {terminal : Terminal} {steps : List Step} {segments : List Segment}
    (htraces : Step.Traces steps segments) (hne : steps ≠ [])
    (hkeeps : terminal.KeepsIds segments) {document changed : Document} {value : Value}
    (h : terminal.along document steps = .ok changed)
    (hvalue : (Value.document document).look? segments = some value) :
    ∃ field result, terminal.onValue field value = .ok result ∧
      (Value.document changed).look? segments = some result := by
  induction htraces generalizing document changed with
  | nil => exact absurd rfl hne
  | @field steps segments name htraces ih =>
    obtain ⟨result, hresult, -, hget⟩ := along_cons_ok h
    rw [Step.member] at hresult hget
    rw [Value.look?_document_field] at hvalue ⊢
    rw [hget]
    obtain ⟨member, hmember, hvalue⟩ := Option.bind_eq_some_iff.mp hvalue
    rw [hmember] at hresult
    by_cases hsteps : steps = []
    · -- The path ends at the member, so it takes what the update makes of it.
      subst hsteps
      cases htraces
      rw [Value.look?_nil, Option.some.injEq] at hvalue
      subst hvalue
      rw [onMember, onLast_some, map_eq_ok_iff] at hresult
      obtain ⟨new, hnew, rfl⟩ := hresult
      exact ⟨name, new, hnew, Value.look?_nil new⟩
    · have hsegments : segments ≠ [] := fun hnil => hsteps (htraces.nil_iff.mpr hnil)
      obtain ⟨members, inner, hmembers, hinner, hentered⟩ := onMember_field hsteps hresult
      have hbelow := Value.look?_of_entered hmembers hsegments
      rw [Option.bind_some, hvalue] at hbelow
      rw [Value.look?_of_entered hentered hsegments]
      exact ih hsteps hkeeps.tail hinner hbelow.symm
  | @«scoped» rest segments scope htraces ih =>
    obtain ⟨result, hresult, -, hget⟩ := along_cons_ok h
    rw [Step.member] at hresult hget
    obtain ⟨items, others, hitems, hothers, hlisted⟩ := onMember_scoped hresult
    rw [Value.look?_document_field, Value.look?_of_listed hitems (by simp),
      Value.look?_array_identifier] at hvalue
    rw [Value.look?_document_field, hget, Value.look?_of_listed hlisted (by simp),
      Value.look?_array_identifier]
    obtain ⟨item, hitem, hvalue⟩ := Option.bind_eq_some_iff.mp hvalue
    -- Every element with the identifier is changed; reading takes the first one before and after.
    rcases find?_selected hkeeps htraces hothers with ⟨hnone, -⟩ | ⟨item', new, hitem', hnew, hfind⟩
    · rw [hitem] at hnone
      cases hnone
    · rw [hitem] at hitem'
      cases hitem'
      rw [hfind, Option.bind_some]
      by_cases hrest : rest = []
      · subst hrest
        cases htraces
        rw [Value.look?_nil, Option.some.injEq] at hvalue
        subst hvalue
        exact ⟨scope.field, new, hnew, Value.look?_nil new⟩
      · have hnamed := List.find?_some hitem
        obtain ⟨members, inner, rfl, hinner, rfl⟩ := onElement_of_named hrest hnamed hnew
        exact ih hrest hkeeps.tail.tail hinner hvalue

/-! ## At a place that diverges -/

/-- A change of elements with one identifier is not seen through another segment. -/
theorem Selects.look?_eq {terminal : Terminal} {rest : List Step} {step : Step} {id : ObjectId}
    {change : Value → Except StoreFailure (Option Value)}
    (hselects : terminal.Selects rest step id change) {member result : Option Value}
    (h : terminal.onMember rest step member = .ok result) {segment : Segment}
    (hne : segment ≠ .identifier id) (others : List Segment) :
    (result.bind fun below => below.look? (segment :: others)) =
      member.bind fun below => below.look? (segment :: others) := by
  obtain ⟨items, changed, hitems, hchanged, hlisted⟩ := hselects.changes h
  rw [Value.look?_of_listed hitems (by simp), Value.look?_of_listed hlisted (by simp)]
  cases segment with
  | field name => rw [Value.look?_array_field, Value.look?_array_field]
  | identifier other =>
    have hother : other ≠ id := fun heq => hne (by rw [heq])
    rw [Value.look?_array_identifier, Value.look?_array_identifier,
      find?_overElements_of_ne hselects.keeps hother hchanged]

/-- Two documents that differ in one member at most are read alike, if they are below that
member. -/
theorem look?_document_congr {document changed : Document} {name : String}
    (hother : ∀ key, key ≠ name → changed.get? key = document.get? key) {segments : List Segment}
    (hne : segments ≠ [])
    (hmember : ∀ rest, segments = .field name :: rest →
      ((changed.get? name).bind fun below => below.look? rest) =
        (document.get? name).bind fun below => below.look? rest) :
    (Value.document changed).look? segments = (Value.document document).look? segments := by
  cases segments with
  | nil => exact absurd rfl hne
  | cons segment rest =>
    cases segment with
    | identifier id => rw [Value.look?_document_identifier, Value.look?_document_identifier]
    | field key =>
      rw [Value.look?_document_field, Value.look?_document_field]
      by_cases hkey : key = name
      · subst hkey
        exact hmember rest rfl
      · rw [hother key hkey]

/-- An update changes nothing that is read at a place that diverges from its own. -/
theorem look?_along_of_diverge {terminal : Terminal} {steps : List Step} {segments : List Segment}
    (htraces : Step.Traces steps segments) (hkeeps : terminal.KeepsIds segments)
    {document changed : Document} {other : List Segment}
    (h : terminal.along document steps = .ok changed)
    (hdiverge : Segment.Diverge (terminal.place segments) other) :
    (Value.document changed).look? other = (Value.document document).look? other := by
  induction htraces generalizing document changed other with
  | nil =>
    cases h
    rfl
  | @field steps segments name htraces ih =>
    obtain ⟨result, hresult, rfl, hget⟩ := along_cons_ok h
    refine look?_document_congr (fun key hkey => Entries.get?_insert?_of_ne _ hkey _)
      hdiverge.ne_nil_right ?_
    rintro below rfl
    rw [hget]
    rw [Step.member] at hresult hdiverge ⊢
    have hbelow : Segment.Diverge (terminal.place segments) below := by simpa using hdiverge
    by_cases hsteps : steps = []
    · subst hsteps
      cases htraces
      cases terminal with
      | set value => exact absurd hbelow (Segment.not_diverge_nil_left _)
      | push value => exact absurd hbelow (Segment.not_diverge_nil_left _)
      | pull id =>
        -- Elements are removed here, and what is read has another identifier, or none.
        cases below with
        | nil => exact absurd rfl hbelow.ne_nil_right
        | cons segment others =>
          have hne : segment ≠ .identifier id := by
            simpa [place, eq_comm] using hbelow
          exact (selects_pull id name).look?_eq hresult hne others
    · obtain ⟨members, inner, hmembers, hinner, hentered⟩ := onMember_field hsteps hresult
      rw [Value.look?_of_entered hmembers hbelow.ne_nil_right,
        Value.look?_of_entered hentered hbelow.ne_nil_right]
      exact ih hkeeps.tail hinner hbelow
  | @«scoped» rest segments scope htraces ih =>
    obtain ⟨result, hresult, rfl, hget⟩ := along_cons_ok h
    refine look?_document_congr (fun key hkey => Entries.get?_insert?_of_ne _ hkey _)
      hdiverge.ne_nil_right ?_
    rintro below rfl
    rw [hget]
    rw [Step.member] at hresult hdiverge ⊢
    have hbelow : Segment.Diverge (.identifier scope.id :: terminal.place segments) below := by
      simpa using hdiverge
    cases below with
    | nil => exact absurd rfl hbelow.ne_nil_right
    | cons segment others =>
      by_cases hsegment : segment = .identifier scope.id
      · -- Both go into elements with the identifier and part behind them.
        subst hsegment
        obtain ⟨items, changed, hitems, hchanged, hlisted⟩ := onMember_scoped hresult
        rw [Value.look?_of_listed hitems (by simp), Value.look?_of_listed hlisted (by simp),
          Value.look?_array_identifier, Value.look?_array_identifier]
        have hothers : Segment.Diverge (terminal.place segments) others := by simpa using hbelow
        have hfirst := find?_selected hkeeps htraces hchanged
        rcases hfirst with ⟨hnone, hnone'⟩ | ⟨item, new, hitem, hnew, hfind⟩
        · rw [hnone, hnone']
        · rw [hitem, hfind, Option.bind_some, Option.bind_some]
          have hnamed := List.find?_some hitem
          have hrest : rest ≠ [] := ne_nil_of_diverge htraces hothers hnamed hnew
          obtain ⟨members, inner, rfl, hinner, rfl⟩ := onElement_of_named hrest hnamed hnew
          exact ih hkeeps.tail.tail hinner hothers
      · exact (selects_scoped hkeeps htraces).look?_eq hresult hsegment others

end Terminal

/-! ## Reading after an update at an address -/

namespace Value

/-- What descent gives is what looking finds. -/
theorem look?_eq_some_iff {value below : Value} {segments : List Segment} :
    value.look? segments = some below ↔ value.descend segments = .ok below :=
  toOption_eq_some_iff

end Value

/-- What is read at an address after an update there is what the update makes of the value that was
read there before. -/
theorem exists_onValue_of_apply_updateAt {terminal : Terminal} {address : Address}
    (h : Segment.WellFormed address.retained) (hkeeps : terminal.KeepsIds address.retained)
    {document changed : Document} {value : Value}
    (hvalue : (Value.document document).descend address.retained = .ok value)
    (happly : (terminal.updateAt address).apply document = .ok changed) :
    ∃ field result, terminal.onValue field value = .ok result ∧
      (Value.document changed).descend address.retained = .ok result := by
  obtain ⟨steps, htraces, halong⟩ := Terminal.exists_traces_of_wellFormed terminal address h
  have hsteps : steps ≠ [] := fun hnil =>
    Terminal.retained_ne_nil_of_apply_updateAt happly (htraces.nil_iff.mp hnil)
  obtain ⟨field, result, hresult, hlook⟩ := Terminal.look?_along_self htraces hsteps hkeeps
    (halong _ _ happly) (Value.look?_eq_some_iff.mpr hvalue)
  exact ⟨field, result, hresult, Value.look?_eq_some_iff.mp hlook⟩

/-- What is read at an address after an update there: the value that was put; the array that was
there with a value added at its end; or the array without the elements that carry the removed
identifier, the others in their order. It does not matter how many elements on the way carry one
identifier, nor whether as an identifier or as a text. -/
theorem descend_apply_updateAt (address : Address) (h : Segment.WellFormed address.retained)
    (document : Document) (value : Value)
    (hvalue : (Value.document document).descend address.retained = .ok value) :
    (∀ new changed, (Terminal.set new).KeepsIds address.retained →
      ((Terminal.set new).updateAt address).apply document = .ok changed →
      (Value.document changed).descend address.retained = .ok new) ∧
    (∀ new changed, ((Terminal.push new).updateAt address).apply document = .ok changed →
      ∃ items, value = .array items ∧
        (Value.document changed).descend address.retained = .ok (.array (items ++ [new]))) ∧
    (∀ id changed, ((Terminal.pull id).updateAt address).apply document = .ok changed →
      ∃ items, value = .array items ∧
        (Value.document changed).descend address.retained =
          .ok (.array (items.filter fun item => !id.namesElement item))) := by
  refine ⟨fun new changed hkeeps happly => ?_, fun new changed happly => ?_,
    fun id changed happly => ?_⟩
  · obtain ⟨field, result, hresult, hread⟩ :=
      exists_onValue_of_apply_updateAt h hkeeps hvalue happly
    cases hresult
    exact hread
  · obtain ⟨field, result, hresult, hread⟩ :=
      exists_onValue_of_apply_updateAt h (Terminal.keepsIds_push new _) hvalue happly
    cases value with
    | array items =>
      cases hresult
      exact ⟨items, rfl, hread⟩
    | _ => cases hresult
  · obtain ⟨field, result, hresult, hread⟩ :=
      exists_onValue_of_apply_updateAt h (Terminal.keepsIds_pull id _) hvalue happly
    cases value with
    | array items =>
      cases hresult
      exact ⟨items, rfl, hread⟩
    | _ => cases hresult

/-- Tags put in, added to and removed from where every identifier is carried twice. -/
theorem descend_apply_updateAt_rowTags :
    (∃ changed, ((Terminal.set .null).updateAt rowTags).apply (doubledRows [] []) = .ok changed ∧
      (Value.document changed).descend rowTags.retained = .ok .null) ∧
    (∃ changed, ((Terminal.push .null).updateAt rowTags).apply (doubledRows [] [.null]) =
        .ok changed ∧
      ∃ items, Value.array [] = .array items ∧
        (Value.document changed).descend rowTags.retained = .ok (.array (items ++ [.null]))) ∧
    (∃ changed, ((Terminal.pull (.ofNat 7)).updateAt rowTags).apply
        (doubledRows [.document [(idField, .objectId (.ofNat 7))], .null] []) = .ok changed ∧
      ∃ items, Value.array [.document [(idField, .objectId (.ofNat 7))], .null] = .array items ∧
        (Value.document changed).descend rowTags.retained =
          .ok (.array (items.filter fun item => !(ObjectId.ofNat 7).namesElement item))) := by
  have hwell : Segment.WellFormed rowTags.retained := by decide
  have hkeeps : (Terminal.set .null).KeepsIds rowTags.retained :=
    Terminal.keepsIds_of_getLast? rfl (by decide : "tags" ≠ idField) _
  refine ⟨⟨_, rfl, ?_⟩, ⟨_, rfl, ?_⟩, ⟨_, rfl, ?_⟩⟩
  · exact (descend_apply_updateAt rowTags hwell (doubledRows [] []) _ rfl).1 _ _ hkeeps rfl
  · exact (descend_apply_updateAt rowTags hwell (doubledRows [] [.null]) _ rfl).2.1 _ _ rfl
  · exact (descend_apply_updateAt rowTags hwell
      (doubledRows [.document [(idField, .objectId (.ofNat 7))], .null] []) _ rfl).2.2 _ _ rfl

/-- An update at an address changes nothing that is read at a place that diverges from its own. -/
theorem descend_apply_updateAt_of_diverge (terminal : Terminal) (address : Address)
    (h : terminal.WellPlaced address.retained) (hkeeps : terminal.KeepsIds address.retained)
    (document changed : Document)
    (happly : (terminal.updateAt address).apply document = .ok changed) (other : List Segment)
    (hdiverge : Segment.Diverge (terminal.place address.retained) other) (value : Value) :
    (Value.document changed).descend other = .ok value ↔
      (Value.document document).descend other = .ok value := by
  rcases Terminal.wellFormed_or_idle h with hwell | hidle
  · obtain ⟨steps, htraces, halong⟩ := terminal.exists_traces_of_wellFormed address hwell
    have hlook := Terminal.look?_along_of_diverge htraces hkeeps (halong _ _ happly) hdiverge
    rw [← Value.look?_eq_some_iff, ← Value.look?_eq_some_iff, hlook]
  · rw [hidle document changed happly]

/-- The identifier of a row is still read after tags in a row inside it are put. -/
theorem descend_apply_updateAt_of_diverge_rowTags :
    ∃ changed, ((Terminal.set .null).updateAt rowTags).apply (doubledRows [] []) = .ok changed ∧
      (Value.document changed).descend
          [.field "rows", .identifier (.ofNat 10), .field idField] =
        .ok (.objectId (.ofNat 10)) := by
  have hkeeps : (Terminal.set .null).KeepsIds rowTags.retained :=
    Terminal.keepsIds_of_getLast? rfl (by decide : "tags" ≠ idField) _
  have hdiverge : Segment.Diverge ((Terminal.set .null).place rowTags.retained)
      [.field "rows", .identifier (.ofNat 10), .field idField] :=
    ⟨2, _, _, rfl, rfl, by decide⟩
  refine ⟨_, rfl, ?_⟩
  exact (descend_apply_updateAt_of_diverge (.set .null) rowTags (Or.inl (by decide)) hkeeps
    (doubledRows [] []) _ rfl _ hdiverge _).mpr rfl

end RestArchive
