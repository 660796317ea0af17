import RestArchive.Proofs.Reordered
import RestArchive.Proofs.WellPlaced

/-! # Updates at different places commute

Two clients may change one document at different places, and either of them may come first. When
both orders succeed, they end with the same document, but for the order of names: a member that both
make on their way stands where the first of them put it. Both orders are followed together, step by
step, and part at the position where the places diverge. -/

namespace RestArchive

/-! ## Two changes in either order -/

/-- What two changes give, one after the other, in both orders. -/
structure EitherOrder {α : Type} (first second : α → Except StoreFailure α)
    (start firstSecond secondFirst : α) : Prop where
  /-- What they give when the first one comes first. -/
  forth : (first start).bind second = .ok firstSecond
  /-- What they give when the second one comes first. -/
  back : (second start).bind first = .ok secondFirst

namespace EitherOrder

variable {α : Type} {first second : α → Except StoreFailure α}
  {start firstSecond secondFirst : α}

/-- The changes change roles. -/
theorem symm (h : EitherOrder first second start firstSecond secondFirst) :
    EitherOrder second first start secondFirst firstSecond :=
  ⟨h.back, h.forth⟩

/-- The four changes that make up both orders. -/
theorem steps (h : EitherOrder first second start firstSecond secondFirst) :
    ∃ a b, first start = .ok a ∧ second a = .ok firstSecond ∧
      second start = .ok b ∧ first b = .ok secondFirst := by
  obtain ⟨a, ha, hab⟩ := bind_eq_ok_iff.mp h.forth
  obtain ⟨b, hb, hba⟩ := bind_eq_ok_iff.mp h.back
  exact ⟨a, b, ha, hab, hb, hba⟩

end EitherOrder

namespace Terminal

variable {first second : Terminal} {step other : Step} {rest others : List Step}

/-- Two updates in a row that start at one member change this member in a row. -/
theorem bind_along_cons_ok {document changed : Document} (hmember : other.member = step.member)
    (h : (first.along document (step :: rest)).bind (second.along · (other :: others)) =
      .ok changed) :
    ∃ result, (first.onMember rest step (document.get? step.member)).bind
        (second.onMember others other) = .ok result ∧
      changed = document.insert? step.member result := by
  obtain ⟨inner, hinner, hchanged⟩ := bind_eq_ok_iff.mp h
  obtain ⟨one, hone, rfl, hget⟩ := along_cons_ok hinner
  obtain ⟨both, hboth, rfl, -⟩ := along_cons_ok hchanged
  -- The second update finds what the first one left.
  rw [hmember, hget] at hboth
  refine ⟨both, bind_eq_ok_iff.mpr ⟨one, hone, hboth⟩, ?_⟩
  rw [hmember]
  refine Entries.insert?_insert?_self document step.member fun hnone => ?_
  subst hnone
  exact eq_none_of_onMember hboth

/-- Both orders of updates that start at one member are both orders of what they do to it. -/
theorem eitherOrder_onMember {document ab ba : Document} (hmember : other.member = step.member)
    (h : EitherOrder (first.along · (step :: rest)) (second.along · (other :: others))
      document ab ba) :
    ∃ x y, EitherOrder (first.onMember rest step) (second.onMember others other)
        (document.get? step.member) x y ∧
      ab = document.insert? step.member x ∧ ba = document.insert? step.member y := by
  obtain ⟨x, hforth, hab⟩ := bind_along_cons_ok hmember h.forth
  obtain ⟨y, hback, hba⟩ := bind_along_cons_ok hmember.symm h.back
  rw [hmember] at hback hba
  exact ⟨x, y, ⟨hforth, hback⟩, hab, hba⟩

/-- Updates that start at different members may come in either order. -/
theorem reordered_of_member_ne {document ab ba : Document} (hne : step.member ≠ other.member)
    (h : EitherOrder (first.along · (step :: rest)) (second.along · (other :: others))
      document ab ba) :
    Value.Reordered (.document ab) (.document ba) := by
  obtain ⟨a, b, ha, hab, hb, hba⟩ := h.steps
  obtain ⟨one, hone, rfl, -⟩ := along_cons_ok ha
  obtain ⟨two, htwo, rfl, -⟩ := along_cons_ok hb
  obtain ⟨two', htwo', rfl, -⟩ := along_cons_ok hab
  obtain ⟨one', hone', rfl, -⟩ := along_cons_ok hba
  -- Neither update sees what the other one writes.
  rw [Entries.get?_insert?_of_ne _ hne.symm] at htwo'
  rw [Entries.get?_insert?_of_ne _ hne] at hone'
  cases hone.symm.trans hone'
  cases htwo.symm.trans htwo'
  exact Document.reordered_insert?_comm document hne one two

/-! ## At one member -/

section OneMember

variable {member x y : Option Value}

/-- A member that is missing after one order was never there, so it is missing after the other
one. -/
theorem eq_none_of_eitherOrder (h : EitherOrder (first.onMember rest step)
    (second.onMember others other) member none y) : y = none := by
  obtain ⟨a, b, ha, hab, hb, hba⟩ := h.steps
  -- No update loses a member, so there was none before, and neither update made one.
  cases eq_none_of_onMember hab
  cases eq_none_of_onMember ha
  cases hab.symm.trans hb
  cases hba.symm.trans ha
  rfl

/-- Members are reordered after both orders when their values are, if they are there. -/
theorem reorderedMembers_of_eitherOrder (h : EitherOrder (first.onMember rest step)
    (second.onMember others other) member x y)
    (hsame : ∀ a b, x = some a → y = some b → Value.Reordered a b) :
    Value.ReorderedMembers x y := by
  cases x with
  | none =>
    rw [eq_none_of_eitherOrder h]
    exact .none
  | some a =>
    cases y with
    | none => cases eq_none_of_eitherOrder h.symm
    | some b => exact .some (hsame a b rfl rfl)

/-- Members that hold reordered documents after both orders, or none, are reordered. -/
theorem reorderedMembers_of_entered (h : EitherOrder (first.onMember rest step)
    (second.onMember others other) member x y) {ab ba : Document} (hx : entered x = some ab)
    (hy : entered y = some ba) (hsame : Value.Reordered (.document ab) (.document ba)) :
    Value.ReorderedMembers x y := by
  refine reorderedMembers_of_eitherOrder h fun a b ha hb => ?_
  subst ha hb
  rw [eq_document_of_entered hx, eq_document_of_entered hy]
  exact hsame

/-- Members that hold reordered arrays after both orders, or none, are reordered. -/
theorem reorderedMembers_of_listed (h : EitherOrder (first.onMember rest step)
    (second.onMember others other) member x y) {ab ba : List Value} (hx : listed x = some ab)
    (hy : listed y = some ba) (hsame : List.Forall₂ Value.Reordered ab ba) :
    Value.ReorderedMembers x y := by
  refine reorderedMembers_of_eitherOrder h fun a b ha hb => ?_
  subst ha hb
  rw [eq_array_of_listed hx, eq_array_of_listed hy]
  exact .array hsame

/-- An update that goes into a document and one that changes elements of an array both succeed in
both orders only when the member is missing, and stays so. -/
theorem eq_none_of_enters_of_selects {name : String} (hrest : rest ≠ []) {id : ObjectId}
    {change : Value → Except StoreFailure (Option Value)}
    (hselects : second.Selects others other id change)
    (h : EitherOrder (first.onMember rest (.field name)) (second.onMember others other)
      member x y) : x = none ∧ y = none := by
  obtain ⟨a, b, ha, hab, hb, hba⟩ := h.steps
  obtain ⟨_, _, hmember, -, hinner⟩ := onMember_field hrest ha
  obtain ⟨_, _, hitems, -, hlisted⟩ := hselects.changes hab
  obtain ⟨_, _, hmember', -, -⟩ := hselects.changes hb
  obtain ⟨_, _, hentered, -, -⟩ := onMember_field hrest hba
  -- Both see the member, and each sees what the other one makes of it.
  cases eq_none_of_entered_of_listed hmember hmember'
  cases eq_none_of_entered_of_listed hinner hitems
  cases hab.symm.trans hb
  cases eq_none_of_entered_of_listed hentered hlisted
  exact ⟨rfl, eq_none_of_eitherOrder h⟩

/-- Both orders of updates that change elements of one array are both orders of what they do to its
elements. -/
theorem eitherOrder_of_selects {id otherId : ObjectId}
    {change otherChange : Value → Except StoreFailure (Option Value)}
    (hfirst : first.Selects rest step id change)
    (hsecond : second.Selects others other otherId otherChange)
    (h : EitherOrder (first.onMember rest step) (second.onMember others other) member x y) :
    ∃ items ab ba, EitherOrder (overElements id change) (overElements otherId otherChange)
      items ab ba ∧ listed x = some ab ∧ listed y = some ba := by
  obtain ⟨a, b, ha, hab, hb, hba⟩ := h.steps
  obtain ⟨items, one, hitems, hone, ha'⟩ := hfirst.changes ha
  obtain ⟨one', both, hone', hboth, hx⟩ := hsecond.changes hab
  obtain ⟨items', two, hitems', htwo, hb'⟩ := hsecond.changes hb
  obtain ⟨two', both', htwo', hboth', hy⟩ := hfirst.changes hba
  -- Each update is applied to the list that the other one left.
  cases hitems.symm.trans hitems'
  cases ha'.symm.trans hone'
  cases hb'.symm.trans htwo'
  exact ⟨items, both, both', ⟨bind_eq_ok_iff.mpr ⟨one, hone, hboth⟩,
    bind_eq_ok_iff.mpr ⟨two, htwo, hboth'⟩⟩, hx, hy⟩

/-- Changes of elements with different identifiers may come in either order. -/
theorem reorderedMembers_of_selects {id otherId : ObjectId} (hne : otherId ≠ id)
    {change otherChange : Value → Except StoreFailure (Option Value)}
    (hfirst : first.Selects rest step id change)
    (hsecond : second.Selects others other otherId otherChange)
    (h : EitherOrder (first.onMember rest step) (second.onMember others other) member x y) :
    Value.ReorderedMembers x y := by
  obtain ⟨items, ab, ba, hitems, hx, hy⟩ := eitherOrder_of_selects hfirst hsecond h
  obtain ⟨one, two, hone, hab, htwo, hba⟩ := hitems.steps
  have heq : ab = ba := overElements_comm hne hfirst.keeps hsecond.keeps hone hab htwo hba
  subst heq
  exact reorderedMembers_of_listed h hx hy (List.forall₂_same.mpr fun value _ => .refl value)

/-- Changes of elements with one identifier may come in either order when those of each element
may. -/
theorem reorderedMembers_of_scoped {scope otherScope : Scope} (hid : otherScope.id = scope.id)
    {segments otherSegments : List Segment} (hrest : Step.Traces rest segments)
    (hothers : Step.Traces others otherSegments)
    (hkeeps : first.KeepsIds (.field scope.field :: .identifier scope.id :: segments))
    (hotherKeeps : second.KeepsIds
      (.field otherScope.field :: .identifier otherScope.id :: otherSegments))
    (helement : ∀ item ab ba, scope.id.namesElement item →
      EitherOrder (first.onElement scope.field rest) (second.onElement otherScope.field others)
        item ab ba → Value.Reordered ab ba)
    (h : EitherOrder (first.onMember rest (.scoped scope))
      (second.onMember others (.scoped otherScope)) member x y) :
    Value.ReorderedMembers x y := by
  obtain ⟨items, ab, ba, hitems, hx, hy⟩ := eitherOrder_of_selects
    (selects_scoped hkeeps hrest) (selects_scoped hotherKeeps hothers) h
  obtain ⟨one, two, hone, hab, htwo, hba⟩ := hitems.steps
  rw [← onElements_eq_overElements] at hone hab htwo hba
  rw [hid] at hab htwo
  refine reorderedMembers_of_listed h hx hy ?_
  refine forall₂_onElements (fun value => .refl value) ?_ ?_ ?_ hone hab htwo hba
  · exact fun item changed hitem => namesElement_of_onElement hkeeps hrest hitem
  · intro item changed hitem hchanged
    rw [← hid] at hitem ⊢
    exact namesElement_of_onElement hotherKeeps hothers hitem hchanged
  · intro item a both b both' hitem ha hboth hb hboth'
    exact helement item both both' hitem ⟨bind_eq_ok_iff.mpr ⟨a, ha, hboth⟩,
      bind_eq_ok_iff.mpr ⟨b, hb, hboth'⟩⟩

/-- Both orders of updates that go into the document of a member are both orders in this
document. -/
theorem eitherOrder_of_enters {name otherName : String} (hrest : rest ≠ []) (hothers : others ≠ [])
    (h : EitherOrder (first.onMember rest (.field name))
      (second.onMember others (.field otherName)) member x y) :
    ∃ members ab ba, EitherOrder (first.along · rest) (second.along · others) members ab ba ∧
      entered x = some ab ∧ entered y = some ba := by
  obtain ⟨a, b, ha, hab, hb, hba⟩ := h.steps
  obtain ⟨members, one, hmember, hone, ha'⟩ := onMember_field hrest ha
  obtain ⟨one', both, hone', hboth, hx⟩ := onMember_field hothers hab
  obtain ⟨members', two, hmember', htwo, hb'⟩ := onMember_field hothers hb
  obtain ⟨two', both', htwo', hboth', hy⟩ := onMember_field hrest hba
  cases hmember.symm.trans hmember'
  cases ha'.symm.trans hone'
  cases hb'.symm.trans htwo'
  exact ⟨members, both, both', ⟨bind_eq_ok_iff.mpr ⟨one, hone, hboth⟩,
    bind_eq_ok_iff.mpr ⟨two, htwo, hboth'⟩⟩, hx, hy⟩

end OneMember

/-- Both orders of updates that go into a selected element are both orders in the document that it
is. -/
theorem eitherOrder_of_named {field otherField : String} (hrest : rest ≠ []) (hothers : others ≠ [])
    {id : ObjectId} {item ab ba : Value} (hitem : id.namesElement item)
    (h : EitherOrder (first.onElement field rest) (second.onElement otherField others) item ab ba) :
    ∃ members inner inner', EitherOrder (first.along · rest) (second.along · others)
      members inner inner' ∧ ab = .document inner ∧ ba = .document inner' := by
  obtain ⟨a, b, ha, hab, hb, hba⟩ := h.steps
  obtain ⟨members, rfl⟩ := ObjectId.exists_document_of_namesElement hitem
  rw [onElement_document hrest, map_eq_ok_iff] at ha
  rw [onElement_document hothers, map_eq_ok_iff] at hb
  obtain ⟨one, hone, rfl⟩ := ha
  obtain ⟨two, htwo, rfl⟩ := hb
  rw [onElement_document hothers, map_eq_ok_iff] at hab
  rw [onElement_document hrest, map_eq_ok_iff] at hba
  obtain ⟨both, hboth, rfl⟩ := hab
  obtain ⟨both', hboth', rfl⟩ := hba
  exact ⟨members, both, both', ⟨bind_eq_ok_iff.mpr ⟨one, hone, hboth⟩,
    bind_eq_ok_iff.mpr ⟨two, htwo, hboth'⟩⟩, rfl, rfl⟩

/-! ## Along two paths -/

/-- When something diverges from the place of an update behind the member of its first step, the
update goes on there: into the document of the member, or to elements of its array that carry an
identifier. -/
theorem enters_or_selects {terminal : Terminal} {segments below : List Segment}
    (htraces : Step.Traces (step :: rest) segments) (hkeeps : terminal.KeepsIds segments)
    (hdiverge : Segment.Diverge (terminal.place segments) (.field step.member :: below)) :
    (∃ name, step = .field name ∧ rest ≠ []) ∨
      ∃ id change behind, terminal.Selects rest step id change ∧
        terminal.place segments = .field step.member :: .identifier id :: behind := by
  cases htraces with
  | field name htraces =>
    by_cases hrest : rest = []
    · subst hrest
      cases htraces
      cases terminal with
      | set value => simp [Terminal.place, Step.member] at hdiverge
      | push value => simp [Terminal.place, Step.member] at hdiverge
      | pull id => exact Or.inr ⟨id, _, [], selects_pull id name, rfl⟩
    · exact Or.inl ⟨name, rfl, hrest⟩
  | @«scoped» _ segments scope htraces =>
    refine Or.inr ⟨scope.id, _, terminal.place segments, selects_scoped hkeeps htraces, ?_⟩
    rw [place_cons, place_cons]
    rfl

/-- A change of elements with one identifier and an update that diverges from it may come in either
order, unless the place of the other one diverges only behind that identifier. -/
theorem reorderedMembers_or_diverge {id : ObjectId}
    {change : Value → Except StoreFailure (Option Value)} {segments behind : List Segment}
    (hselects : first.Selects rest step id change) (hmember : other.member = step.member)
    (htraces : Step.Traces (other :: others) segments) (hkeeps : second.KeepsIds segments)
    (hdiverge : Segment.Diverge (.field step.member :: .identifier id :: behind)
      (second.place segments))
    {member x y : Option Value}
    (h : EitherOrder (first.onMember rest step) (second.onMember others other) member x y) :
    Value.ReorderedMembers x y ∨ ∃ below, Segment.Diverge behind below ∧
      second.place segments = .field step.member :: .identifier id :: below := by
  rw [← hmember] at hdiverge ⊢
  have hgoes := enters_or_selects htraces hkeeps hdiverge.symm
  rcases hgoes with ⟨name, rfl, hothers⟩ | ⟨otherId, otherChange, below, hother, hplace⟩
  · -- One wants an array where the other one wants a document.
    obtain ⟨rfl, rfl⟩ := eq_none_of_enters_of_selects hothers hselects h.symm
    exact Or.inl .none
  · by_cases hid : otherId = id
    · subst hid
      rw [hplace] at hdiverge ⊢
      exact Or.inr ⟨below, by simpa using hdiverge, rfl⟩
    · exact Or.inl (reorderedMembers_of_selects hid hselects hother h)

/-- An update along steps may come in either order with any other one at a place that diverges from
the segments that the steps trace. -/
def Commutes (first second : Terminal) (steps : List Step) (segments : List Segment) : Prop :=
  ∀ {otherSteps : List Step} {otherSegments : List Segment},
    Step.Traces otherSteps otherSegments → second.KeepsIds otherSegments →
    Segment.Diverge (first.place segments) (second.place otherSegments) →
    ∀ {document ab ba : Document},
      EitherOrder (first.along · steps) (second.along · otherSteps) document ab ba →
      Value.Reordered (.document ab) (.document ba)

/-- Along no steps nothing is changed. -/
theorem eq_of_nil {document ab ba : Document} {steps : List Step}
    (h : EitherOrder (first.along · []) (second.along · steps) document ab ba) : ab = ba := by
  obtain ⟨a, b, ha, hab, hb, hba⟩ := h.steps
  cases ha
  cases hba
  cases hab.symm.trans hb
  rfl

/-- Both updates may be taken to start at one member. -/
theorem reordered_of_cons {document ab ba : Document} {otherSteps : List Step}
    (h : EitherOrder (first.along · (step :: rest)) (second.along · otherSteps) document ab ba)
    (hmember : ∀ other others, otherSteps = other :: others → other.member = step.member →
      ∀ {member x y : Option Value}, EitherOrder (first.onMember rest step)
        (second.onMember others other) member x y → Value.ReorderedMembers x y) :
    Value.Reordered (.document ab) (.document ba) := by
  cases otherSteps with
  | nil =>
    rw [eq_of_nil h.symm]
    exact .refl _
  | cons other others =>
    by_cases hname : other.member = step.member
    · obtain ⟨x, y, hxy, rfl, rfl⟩ := eitherOrder_onMember hname h
      exact Document.reordered_insert? document _ (hmember other others rfl hname hxy)
    · exact reordered_of_member_ne (Ne.symm hname) h

/-- An update that ends at a member may come in either order with what diverges from its place: only
from removed elements something diverges. -/
theorem commutes_last (name : String) : Commutes first second [.field name] [.field name] := by
  intro otherSteps otherSegments htraces hkeeps hdiverge document ab ba h
  refine reordered_of_cons h fun other others hsteps hmember member x y hxy => ?_
  subst hsteps
  cases first with
  | pull id =>
    have hparts :=
      reorderedMembers_or_diverge (selects_pull id name) hmember htraces hkeeps hdiverge hxy
    rcases hparts with hsame | ⟨below, hbelow, -⟩
    · exact hsame
    · exact absurd hbelow (Segment.not_diverge_nil_left below)
  | _ =>
    obtain ⟨below, rfl⟩ := htraces.exists_cons
    rw [hmember, place_cons, place_cons, Segment.diverge_cons_iff] at hdiverge
    rcases hdiverge with hne | hbelow
    · exact absurd rfl hne
    · exact absurd hbelow (Segment.not_diverge_nil_left _)

/-- Updates that go into a document may come in either order when they may behind it. -/
theorem commutes_field {segments : List Segment} (name : String) (hrest : rest ≠ [])
    (ih : Commutes first second rest segments) :
    Commutes first second (.field name :: rest) (.field name :: segments) := by
  intro otherSteps otherSegments htraces hkeeps hdiverge document ab ba h
  refine reordered_of_cons h fun other others hsteps hmember member x y hxy => ?_
  subst hsteps
  obtain ⟨below, rfl⟩ := htraces.exists_cons
  have hsymm : Segment.Diverge (second.place (.field other.member :: below))
      (.field other.member :: first.place segments) := by
    rw [hmember] at hdiverge ⊢
    exact (place_cons first _ _ ▸ hdiverge).symm
  have hgoes := enters_or_selects htraces hkeeps hsymm
  rcases hgoes with ⟨otherName, rfl, hothers⟩ | ⟨id, change, behind, hselects, -⟩
  · cases htraces with
    | field _ hbelow =>
      obtain ⟨members, inner, inner', hinner, hx, hy⟩ := eitherOrder_of_enters hrest hothers hxy
      refine reorderedMembers_of_entered hxy hx hy (ih hbelow hkeeps.tail ?_ hinner)
      simpa using hsymm.symm
  · obtain ⟨rfl, rfl⟩ := eq_none_of_enters_of_selects hrest hselects hxy
    exact .none

/-- Updates that go into selected elements may come in either order when they may behind them. -/
theorem commutes_scoped {segments : List Segment} (scope : Scope)
    (hrest : Step.Traces rest segments)
    (hfirst : first.KeepsIds (.field scope.field :: .identifier scope.id :: segments))
    (ih : Commutes first second rest segments) :
    Commutes first second (.scoped scope :: rest)
      (.field scope.field :: .identifier scope.id :: segments) := by
  intro otherSteps otherSegments htraces hkeeps hdiverge document ab ba h
  refine reordered_of_cons h fun other others hsteps hmember member x y hxy => ?_
  subst hsteps
  rw [place_cons, place_cons] at hdiverge
  have hparts := reorderedMembers_or_diverge (selects_scoped hfirst hrest) hmember htraces hkeeps
    hdiverge hxy
  rcases hparts with hsame | ⟨below, hbelow, hplace⟩
  · exact hsame
  · cases htraces with
    | field name hothers =>
      -- The other update removes elements with the identifier, and nothing diverges behind them.
      simp only [place_cons, List.cons.injEq] at hplace
      cases eq_nil_of_place_eq_identifier hothers hplace.2
      exact absurd hbelow (Segment.not_diverge_nil_right _)
    | «scoped» otherScope hothers =>
      simp only [place_cons, List.cons.injEq, Segment.identifier.injEq] at hplace
      obtain ⟨-, hid, rfl⟩ := hplace
      refine reorderedMembers_of_scoped hid hrest hothers hfirst hkeeps ?_ hxy
      intro item both both' hitem hboth
      -- Something diverges behind the element, so neither update ends at it.
      obtain ⟨one, two, hone, -, htwo, -⟩ := hboth.steps
      have hrestNe := ne_nil_of_diverge hrest hbelow hitem hone
      have hothersNe := ne_nil_of_diverge hothers hbelow.symm hitem htwo
      obtain ⟨members, inner, inner', hinner, rfl, rfl⟩ :=
        eitherOrder_of_named hrestNe hothersNe hitem hboth
      exact ih hothers hkeeps.tail.tail hbelow hinner

/-- Updates at places that diverge may come in either order. -/
theorem commutes_of_traces {steps : List Step} {segments : List Segment}
    (htraces : Step.Traces steps segments) (hkeeps : first.KeepsIds segments) :
    Commutes first second steps segments := by
  induction htraces with
  | nil =>
    intro otherSteps otherSegments _ _ _ document ab ba h
    rw [eq_of_nil h]
    exact .refl _
  | @field rest segments name htraces ih =>
    by_cases hrest : rest = []
    · subst hrest
      cases htraces
      exact commutes_last name
    · exact commutes_field name hrest (ih hkeeps.tail)
  | «scoped» scope htraces ih => exact commutes_scoped scope htraces hkeeps (ih hkeeps.tail.tail)

end Terminal

/-! ## At two addresses -/

/-- Two updates at places that diverge, applied in both orders, give documents that are equal but
for the order of names. -/
theorem reordered_of_apply_updateAt (first second : Terminal) (here there : Address)
    (hhere : first.WellPlaced here.retained) (hthere : second.WellPlaced there.retained)
    (hfirst : first.KeepsIds here.retained) (hsecond : second.KeepsIds there.retained)
    (hdiverge : Segment.Diverge (first.place here.retained) (second.place there.retained))
    (document ab ba : Document)
    (h : EitherOrder (first.updateAt here).apply (second.updateAt there).apply document ab ba) :
    Value.Reordered (.document ab) (.document ba) := by
  obtain ⟨a, b, ha, hab, hb, hba⟩ := h.steps
  -- What changes nothing may come first or last.
  rcases Terminal.wellFormed_or_idle hhere with hhere | hidle
  case inr =>
    cases hidle document a ha
    cases hidle b ba hba
    cases hab.symm.trans hb
    exact .refl _
  rcases Terminal.wellFormed_or_idle hthere with hthere | hidle
  case inr =>
    cases hidle document b hb
    cases hidle a ab hab
    cases hba.symm.trans ha
    exact .refl _
  obtain ⟨steps, htraces, halong⟩ := first.exists_traces_of_wellFormed here hhere
  obtain ⟨others, hothers, hotherAlong⟩ := second.exists_traces_of_wellFormed there hthere
  have hsteps : EitherOrder (first.along · steps) (second.along · others) document ab ba :=
    ⟨bind_eq_ok_iff.mpr ⟨a, halong _ _ ha, hotherAlong _ _ hab⟩,
      bind_eq_ok_iff.mpr ⟨b, hotherAlong _ _ hb, halong _ _ hba⟩⟩
  exact Terminal.commutes_of_traces htraces hfirst hothers hsecond hdiverge hsteps

/-- Two clients make new members in the rows of one identifier, one of them beside the rows inside
and one in their tags. -/
theorem reordered_of_apply_updateAt_rowTags :
    ∃ ab ba, EitherOrder ((Terminal.push .null).updateAt rowTags).apply
        ((Terminal.set .null).updateAt rowNote).apply (doubledRows [] []) ab ba ∧
      Value.Reordered (.document ab) (.document ba) := by
  have hkeeps : (Terminal.set .null).KeepsIds rowNote.retained :=
    Terminal.keepsIds_of_getLast? rfl (by decide : "note" ≠ idField) _
  have hdiverge : Segment.Diverge ((Terminal.push .null).place rowTags.retained)
      ((Terminal.set .null).place rowNote.retained) :=
    ⟨2, _, _, rfl, rfl, by decide⟩
  refine ⟨_, _, ⟨rfl, rfl⟩, ?_⟩
  exact reordered_of_apply_updateAt (.push .null) (.set .null) rowTags rowNote (Or.inl (by decide))
    (Or.inl (by decide)) (Terminal.keepsIds_push _ _) hkeeps hdiverge (doubledRows [] []) _ _
    ⟨rfl, rfl⟩

end RestArchive
