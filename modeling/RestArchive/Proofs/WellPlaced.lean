import RestArchive.Proofs.Places

/-! # Well-placed updates

The place of a removal includes the identifier of the removed elements, which no segment of its path
stands for. So the last name of the path may count as one that an identifier follows, and be spelled
like a placeholder. It is then taken for one: the path ends at elements of an array, where there is
no array to remove from, and a removal that succeeds changes nothing (`wellFormed_or_idle`). -/

namespace RestArchive

/-- When an identifier may follow segments, they end in a field, and are well-formed unless this is
spelled like a placeholder. -/
theorem Segment.WellFormed.of_append_identifier {id : ObjectId} : (segments : List Segment) →
    WellFormed (segments ++ [.identifier id]) → ∃ before name, segments = before ++ [.field name] ∧
      (placeholderLabel? name = none → WellFormed segments)
  | [], h => absurd h not_identifier_cons
  | .identifier _ :: _, h => absurd h not_identifier_cons
  | [.field name], h => by
    refine ⟨[], name, rfl, fun hplain => ?_⟩
    exact (field_iff (by simp)).mpr ⟨(scoped_iff.mp h).1, hplain, nil⟩
  | .field first :: .identifier other :: rest, h => by
    obtain ⟨hfirst, hrest⟩ := scoped_iff.mp h
    obtain ⟨before, name, rfl, hwell⟩ := of_append_identifier rest hrest
    refine ⟨.field first :: .identifier other :: before, name, rfl, fun hplain => ?_⟩
    exact scoped_iff.mpr ⟨hfirst, hwell hplain⟩
  | .field first :: .field second :: rest, h => by
    obtain ⟨hfirst, hshape, hrest⟩ := (field_iff (by simp)).mp h
    obtain ⟨before, name, heq, hwell⟩ := of_append_identifier (.field second :: rest) hrest
    refine ⟨.field first :: before, name, by rw [heq, List.cons_append], fun hplain => ?_⟩
    exact (field_iff (by simp)).mpr ⟨hfirst, hshape, hwell hplain⟩

/-- A name at the end is the last token. -/
theorem ScopedPath.exists_tokens_append (issued : List String) (before : List Segment)
    (name : String) :
    ∃ tokens, (ofSegments issued (before ++ [.field name])).tokens = tokens ++ [name] := by
  induction issued, before using ofSegments.induct with
  | case1 issued => exact ⟨[], rfl⟩
  | case2 issued first id rest label ih =>
    obtain ⟨tokens, htokens⟩ := ih
    exact ⟨placeholder label :: tokens, by simp [ofSegments, htokens, label]⟩
  | case3 issued first rest hrest ih =>
    obtain ⟨tokens, htokens⟩ := ih
    have hafter : ∀ id others, rest ++ [.field name] ≠ .identifier id :: others := by
      intro id others heq
      cases rest with
      | nil => simp at heq
      | cons segment rest =>
        obtain ⟨rfl, -⟩ := by simpa using heq
        exact hrest id rest rfl
    refine ⟨first :: tokens, ?_⟩
    rw [List.cons_append, ofSegments, htokens]
    · rfl
    · exact hafter
  | case4 issued id rest ih => exact ih

namespace Step

/-- The last token is read as the last step. -/
theorem exists_of_ofTokens_append {scopes : List Scope} {path token : String}
    {tokens : List String} {steps : List Step}
    (h : ofTokens scopes path (tokens ++ [token]) = .ok steps) :
    ∃ before last, steps = before ++ [last] ∧ ofToken scopes path token = .ok last := by
  induction tokens generalizing steps with
  | nil =>
    simp only [List.nil_append, ofTokens, block_eq_ok_iff, pure_eq_ok_iff] at h
    obtain ⟨last, hlast, _, hnone, rfl⟩ := h
    cases hnone
    exact ⟨[], last, rfl, hlast⟩
  | cons first tokens ih =>
    simp only [List.cons_append, ofTokens, block_eq_ok_iff, pure_eq_ok_iff] at h
    obtain ⟨step, -, steps, hsteps, rfl⟩ := h
    obtain ⟨before, last, rfl, hlast⟩ := ih hsteps
    exact ⟨step :: before, last, rfl, hlast⟩

/-- A token that is spelled like a placeholder is read as a step by scope. -/
theorem exists_scope_of_ofToken {scopes : List Scope} {path token : String} {step : Step}
    (hshape : placeholderLabel? token ≠ none) (h : ofToken scopes path token = .ok step) :
    ∃ scope, step = .scoped scope := by
  rw [ofToken] at h
  split at h
  case h_1 hnone => exact absurd hnone hshape
  case h_2 =>
    split at h
    · cases h
      exact ⟨_, rfl⟩
    · cases h

end Step

namespace Terminal

/-- Whether an update along steps changes nothing when it succeeds. -/
def Idle (terminal : Terminal) (steps : List Step) : Prop :=
  ∀ document changed, terminal.along document steps = .ok changed → changed = document

/-- Where every selected element is left as it is, so is the list. -/
theorem onElements_idle {id : ObjectId} {edit : Value → Except StoreFailure Value}
    (hidle : ∀ item changed, id.namesElement item → edit item = .ok changed → changed = item)
    {items changed : List Value} (h : onElements id edit items = .ok changed) : changed = items := by
  induction items generalizing changed with
  | nil =>
    cases h
    rfl
  | cons item items ih =>
    by_cases hitem : id.namesElement item
    · obtain ⟨first, others, hfirst, hothers, rfl⟩ := (onElements_cons_of_named hitem).mp h
      rw [hidle item first hitem hfirst, ih hothers]
    · rw [Bool.not_eq_true] at hitem
      obtain ⟨others, hothers, rfl⟩ := (onElements_cons_of_not hitem).mp h
      rw [ih hothers]

/-- An update that leaves the member of its first step as it is changes nothing. -/
theorem idle_of_onMember {terminal : Terminal} {step : Step} {rest : List Step}
    (h : ∀ member result, terminal.onMember rest step member = .ok result → result = member) :
    terminal.Idle (step :: rest) := by
  intro document changed hchanged
  obtain ⟨result, hresult, rfl, -⟩ := along_cons_ok hchanged
  rw [h _ _ hresult, Entries.insert?_get?]

/-- A step by scope changes nothing when nothing behind it does. -/
theorem idle_scoped {terminal : Terminal} {scope : Scope} {rest : List Step}
    (hidle : ∀ item changed, scope.id.namesElement item →
      terminal.onElement scope.field rest item = .ok changed → changed = item) :
    terminal.Idle (.scoped scope :: rest) := by
  refine idle_of_onMember fun member result hresult => ?_
  cases member with
  | none =>
    cases hresult
    rfl
  | some value =>
    cases value with
    | array items =>
      obtain ⟨changed, hchanged, rfl⟩ := map_eq_ok_iff.mp hresult
      rw [onElements_idle hidle hchanged]
    | _ => cases hresult

/-- A removal along a path that ends in elements changes nothing: an element is no array to remove
from. -/
theorem idle_pull_append (id : ObjectId) (before : List Step) (scope : Scope) :
    (Terminal.pull id).Idle (before ++ [.scoped scope]) := by
  induction before with
  | nil =>
    refine idle_scoped fun item changed hitem hchanged => ?_
    cases eq_set_of_onElement hitem hchanged
  | cons step before ih =>
    have hrest : before ++ [.scoped scope] ≠ [] := by simp
    cases step with
    | field name =>
      refine idle_of_onMember fun member result hresult => ?_
      obtain ⟨members, inner, hmember, hinner, hentered⟩ := onMember_field hrest hresult
      cases ih members inner hinner
      cases member with
      | none =>
        rw [onMember_none_of_not_creates rfl] at hresult
        cases hresult
        rfl
      | some value =>
        cases result with
        | none => cases eq_none_of_onMember hresult
        | some value' =>
          rw [eq_document_of_entered hmember, eq_document_of_entered hentered]
    | «scoped» first =>
      refine idle_scoped fun item changed hitem hchanged => ?_
      obtain ⟨members, inner, rfl, hinner, rfl⟩ := onElement_of_named hrest hitem hchanged
      rw [ih members inner hinner]

/-- Whether segments, or the place of an update at them, are well-formed. Both are the same but for
removals. -/
def WellPlaced (terminal : Terminal) (segments : List Segment) : Prop :=
  Segment.WellFormed segments ∨ Segment.WellFormed (terminal.place segments)

/-- An update that is well-placed but whose segments are not well-formed changes nothing. -/
theorem wellFormed_or_idle {terminal : Terminal} {address : Address}
    (h : terminal.WellPlaced address.retained) :
    Segment.WellFormed address.retained ∨ ∀ document changed,
      (terminal.updateAt address).apply document = .ok changed → changed = document := by
  rcases h with hwell | hplace
  · exact Or.inl hwell
  · cases terminal with
    | set value => exact Or.inl hplace
    | push value => exact Or.inl hplace
    | pull id =>
      obtain ⟨before, name, hretained, hwell⟩ := Segment.WellFormed.of_append_identifier _ hplace
      by_cases hshape : placeholderLabel? name = none
      · exact Or.inl (hwell hshape)
      · -- The last token is taken for a placeholder.
        refine Or.inr fun document changed happly => ?_
        obtain ⟨steps, hsteps, halong⟩ := bind_eq_ok_iff.mp (atPath_of_apply_updateAt happly)
        obtain ⟨tokens, htokens⟩ := ScopedPath.exists_tokens_append [] before name
        have hdotless : ∀ other, Segment.field other ∈ address.retained → '.' ∉ other.toList :=
          fun other hother => hplace.dotless other (List.mem_append_left _ hother)
        have hpath : address.fieldPath ≠ "" := by
          intro hempty
          rw [Step.parse, if_pos hempty] at hsteps
          cases hsteps
        have hread : Step.ofTokens address.scopes address.fieldPath
            (ScopedPath.ofSegments [] address.retained).tokens = .ok steps :=
          (Step.parse_text hdotless hpath).symm.trans hsteps
        rw [hretained, htokens] at hread
        obtain ⟨before, last, rfl, hlast⟩ := Step.exists_of_ofTokens_append hread
        obtain ⟨scope, rfl⟩ := Step.exists_scope_of_ofToken hshape hlast
        exact idle_pull_append id before scope document changed halong

end Terminal

end RestArchive
