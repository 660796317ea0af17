import RestArchive.Path.Address
import RestArchive.Proofs.Labels
import RestArchive.Proofs.Success
import RestArchive.Update.Apply

/-! # Reading scoped paths

The dotted text of a scoped path is cut at its dots again by whoever applies an update, and its
labels are looked up among the scopes. For well-formed segments nothing is lost on that way: the
steps that are read trace the segments (`exists_parse_eq_traces`), each identifier being the one of
its own scope, however the names of fields and the numbered labels resemble each other. -/

namespace RestArchive

namespace Segment

/-- Segments that survive being written as a scoped path: each identifier directly follows a field,
no name of a field has a dot, and a field that no identifier follows is not spelled like a
placeholder. -/
structure WellFormed (segments : List Segment) : Prop where
  /-- Each identifier directly follows a field. -/
  follows : Address.strayIdentifier? false segments = none
  /-- No name of a field has a dot. -/
  dotless : ∀ name, .field name ∈ segments → '.' ∉ name.toList
  /-- A field that no identifier follows is not spelled like a placeholder. -/
  plain : ∀ before name after, segments = before ++ .field name :: after →
    (∀ id rest, after ≠ .identifier id :: rest) → placeholderLabel? name = none

namespace WellFormed

/-- No segments are well-formed. -/
theorem nil : WellFormed [] where
  follows := rfl
  dotless := by simp
  plain := by simp

/-- An indexed field in front counts only for its dots. -/
theorem scoped_iff {name : String} {id : ObjectId} {rest : List Segment} :
    WellFormed (.field name :: .identifier id :: rest) ↔ '.' ∉ name.toList ∧ WellFormed rest := by
  constructor
  · intro h
    refine ⟨h.dotless name (by simp), ?_, ?_, ?_⟩
    · simpa [Address.strayIdentifier?] using h.follows
    · exact fun other hother => h.dotless other (by simp [hother])
    · intro before other after hsplit
      exact h.plain (.field name :: .identifier id :: before) other after (by simp [hsplit])
  · rintro ⟨hname, hrest⟩
    refine ⟨?_, ?_, ?_⟩
    · simpa [Address.strayIdentifier?] using hrest.follows
    · intro other hother
      obtain rfl | hother := by simpa using hother
      · exact hname
      · exact hrest.dotless other hother
    · intro before other after hsplit hafter
      cases before with
      | nil =>
        obtain ⟨-, rfl⟩ := by simpa using hsplit
        exact absurd rfl (hafter id rest)
      | cons first before =>
        cases before with
        | nil => simp at hsplit
        | cons second before =>
          obtain ⟨-, -, rfl⟩ := by simpa using hsplit
          exact hrest.plain before other after rfl hafter

/-- A field without an index in front counts for its dots and its shape. -/
theorem field_iff {name : String} {rest : List Segment}
    (hafter : ∀ id others, rest ≠ .identifier id :: others) :
    WellFormed (.field name :: rest) ↔
      '.' ∉ name.toList ∧ placeholderLabel? name = none ∧ WellFormed rest := by
  have hfollows : Address.strayIdentifier? false (.field name :: rest) =
      Address.strayIdentifier? false rest :=
    Address.strayIdentifier?_of_not_identifier hafter true
  constructor
  · intro h
    refine ⟨h.dotless name (by simp), h.plain [] name rest rfl hafter, ?_, ?_, ?_⟩
    · rw [← hfollows]
      exact h.follows
    · exact fun other hother => h.dotless other (by simp [hother])
    · intro before other after hsplit
      exact h.plain (.field name :: before) other after (by simp [hsplit])
  · rintro ⟨hname, hplain, hrest⟩
    refine ⟨?_, ?_, ?_⟩
    · rw [hfollows]
      exact hrest.follows
    · intro other hother
      obtain rfl | hother := by simpa using hother
      · exact hname
      · exact hrest.dotless other hother
    · intro before other after hsplit hbehind
      cases before with
      | nil =>
        obtain ⟨rfl, -⟩ := by simpa using hsplit
        exact hplain
      | cons first before =>
        obtain ⟨-, rfl⟩ := by simpa using hsplit
        exact hrest.plain before other after rfl hbehind

/-- No identifier stands in front. -/
theorem not_identifier_cons {id : ObjectId} {rest : List Segment} :
    ¬ WellFormed (.identifier id :: rest) := by
  intro h
  have hfollows := h.follows
  simp [Address.strayIdentifier?] at hfollows

/-- Whether segments are well-formed is decided segment by segment. -/
instance decidable : (segments : List Segment) → Decidable (WellFormed segments)
  | [] => isTrue nil
  | .identifier _ :: _ => isFalse not_identifier_cons
  | .field _ :: .identifier _ :: rest =>
    have := decidable rest
    decidable_of_iff _ scoped_iff.symm
  | .field _ :: [] =>
    have := decidable []
    decidable_of_iff _ (field_iff (by simp)).symm
  | .field _ :: .field name :: rest =>
    have := decidable (.field name :: rest)
    decidable_of_iff _ (field_iff (by simp)).symm

end WellFormed

end Segment

/-! ## Tokens -/

/-- A placeholder gives its label back. -/
@[simp] theorem placeholderLabel?_placeholder (label : String) :
    placeholderLabel? (placeholder label) = some label := by
  simp [placeholderLabel?, placeholder]

/-- A token that stands for a label is its placeholder. -/
theorem eq_placeholder_of_placeholderLabel? {token label : String}
    (h : placeholderLabel? token = some label) : token = placeholder label := by
  rw [placeholderLabel?] at h
  split at h
  case h_1 rest htoken =>
    split at h
    case isTrue hlast =>
      cases h
      have hrest : rest.dropLast ++ [']'] = rest := List.dropLast_append_getLast? _ hlast
      apply String.toList_injective
      simp [placeholder, htoken, hrest]
    case isFalse => cases h
  case h_2 => cases h

/-- A placeholder has a dot only if its label has one. -/
theorem dot_not_mem_placeholder {label : String} (h : '.' ∉ label.toList) :
    '.' ∉ (placeholder label).toList := by
  simp [placeholder, h]

/-- The tokens of segments have no dots when no name of a field has one. -/
theorem dot_not_mem_tokens (issued : List String) (segments : List Segment)
    (h : ∀ name, Segment.field name ∈ segments → '.' ∉ name.toList) :
    ∀ token ∈ (ScopedPath.ofSegments issued segments).tokens, '.' ∉ token.toList := by
  induction issued, segments using ScopedPath.ofSegments.induct with
  | case1 issued => simp [ScopedPath.ofSegments]
  | case2 issued name id rest label ih =>
    have hname : '.' ∉ name.toList := h name (by simp)
    have hrest : ∀ other, Segment.field other ∈ rest → '.' ∉ other.toList := fun other hother =>
      h other (by simp [hother])
    intro token htoken
    simp only [ScopedPath.ofSegments, List.mem_cons] at htoken
    rcases htoken with rfl | htoken
    · -- A label is the name of its field, with digits behind it or not.
      exact dot_not_mem_placeholder (dot_not_mem_freeLabel issued hname)
    · exact ih hrest token htoken
  | case3 issued name rest hplain ih =>
    have hrest : ∀ other, Segment.field other ∈ rest → '.' ∉ other.toList := fun other hother =>
      h other (by simp [hother])
    intro token htoken
    simp only [ScopedPath.ofSegments, List.mem_cons] at htoken
    rcases htoken with rfl | htoken
    · exact h _ (by simp)
    · exact ih hrest token htoken
  | case4 issued id rest ih => exact ih fun other hother => h other (by simp [hother])

/-! ## Steps -/

namespace Step

/-- Steps that follow segments one by one: by name into a field that no identifier follows, and by
scope into an indexed field. -/
inductive Traces : List Step → List Segment → Prop
  /-- No steps for no segments. -/
  | nil : Traces [] []
  /-- By name into a field. -/
  | field {steps : List Step} {segments : List Segment} (name : String)
      (rest : Traces steps segments) : Traces (.field name :: steps) (.field name :: segments)
  /-- By scope into an indexed field. -/
  | scoped {steps : List Step} {segments : List Segment} (scope : Scope)
      (rest : Traces steps segments) :
      Traces (.scoped scope :: steps) (.field scope.field :: .identifier scope.id :: segments)

/-- There are steps only for segments. -/
theorem Traces.nil_iff {steps : List Step} {segments : List Segment}
    (h : Traces steps segments) : steps = [] ↔ segments = [] := by
  cases h <;> simp

/-- The first step and the others make the steps. -/
theorem ofTokens_cons {scopes : List Scope} {path token : String} {tokens : List String}
    {first : Step} {others : List Step} (hfirst : ofToken scopes path token = .ok first)
    (hothers : ofTokens scopes path tokens = .ok others) :
    ofTokens scopes path (token :: tokens) = .ok (first :: others) := by
  simp only [ofTokens, hfirst, hothers]
  rfl

/-- Tokens that are read as no steps are none. -/
theorem eq_nil_of_ofTokens_eq_nil {scopes : List Scope} {path : String} {tokens : List String}
    (h : ofTokens scopes path tokens = .ok []) : tokens = [] := by
  cases tokens with
  | nil => rfl
  | cons token tokens =>
    simp only [ofTokens, block_eq_ok_iff, pure_eq_ok_iff] at h
    obtain ⟨first, -, others, -, hcons⟩ := h
    cases hcons

/-- Of tokens that are read as steps, the first one is read as the first step. -/
theorem exists_of_ofTokens_eq_cons {scopes : List Scope} {path : String} {tokens : List String}
    {step : Step} {steps : List Step} (h : ofTokens scopes path tokens = .ok (step :: steps)) :
    ∃ token others, tokens = token :: others ∧ ofToken scopes path token = .ok step ∧
      ofTokens scopes path others = .ok steps := by
  cases tokens with
  | nil => cases h
  | cons token others =>
    simp only [ofTokens, block_eq_ok_iff, pure_eq_ok_iff, List.cons.injEq] at h
    obtain ⟨first, hfirst, rest, hrest, rfl, rfl⟩ := h
    exact ⟨token, others, rfl, hfirst, hrest⟩

/-- A token is read as a step by name exactly when it is that name, and not spelled like a
placeholder. -/
theorem ofToken_eq_field_iff {scopes : List Scope} {path token name : String} :
    ofToken scopes path token = .ok (.field name) ↔
      token = name ∧ placeholderLabel? name = none := by
  constructor
  · intro h
    rw [ofToken] at h
    split at h
    case h_1 hplain =>
      cases h
      exact ⟨rfl, hplain⟩
    case h_2 => split at h <;> cases h
  · rintro ⟨rfl, hplain⟩
    simp only [ofToken, hplain]

/-- A token is read as a step by scope exactly when it is the placeholder under whose label the scope
is found. -/
theorem ofToken_eq_scoped_iff {scopes : List Scope} {path token : String} {scope : Scope} :
    ofToken scopes path token = .ok (.scoped scope) ↔
      token = placeholder scope.label ∧ Scope.find? scopes scope.label = some scope := by
  constructor
  · intro h
    rw [ofToken] at h
    split at h
    case h_1 => cases h
    case h_2 label hlabel =>
      split at h
      case h_1 found hfound =>
        cases h
        have heq : scope.label = label := by simpa using List.find?_some hfound
        rw [heq]
        exact ⟨eq_placeholder_of_placeholderLabel? hlabel, hfound⟩
      case h_2 => cases h
  · rintro ⟨rfl, hfound⟩
    simp only [ofToken, placeholderLabel?_placeholder, hfound]

/-- A scope is found under its label behind scopes with other labels. -/
theorem find?_scope {before : List Scope} (scope : Scope) (after : List Scope)
    (h : ∀ other ∈ before, other.label ≠ scope.label) :
    Scope.find? (before ++ scope :: after) scope.label = some scope := by
  have hbefore : before.find? (fun other => other.label = scope.label) = none := by
    rw [List.find?_eq_none]
    simpa using h
  rw [Scope.find?, List.find?_append, hbefore, Option.none_or, List.find?_cons_of_pos (by simp)]

/-- The tokens of well-formed segments are read as steps that trace the segments, also behind scopes
whose labels are issued already. -/
theorem exists_ofTokens_eq_traces (path : String) (issued : List String) (segments : List Segment)
    (h : Segment.WellFormed segments) (before : List Scope)
    (hbefore : ∀ scope ∈ before, scope.label ∈ issued) :
    ∃ steps, ofTokens (before ++ (ScopedPath.ofSegments issued segments).scopes) path
      (ScopedPath.ofSegments issued segments).tokens = .ok steps ∧ Traces steps segments := by
  induction issued, segments using ScopedPath.ofSegments.induct generalizing before with
  | case1 issued => exact ⟨[], rfl, .nil⟩
  | case2 issued name id rest label ih =>
    have hfresh : ∀ scope ∈ before, scope.label ≠ label := by
      intro scope hscope heq
      have hmem : label ∈ issued := heq ▸ hbefore scope hscope
      exact freeLabel_not_mem issued name hmem
    -- The new scope joins the ones in front, and its label the issued ones.
    have hissued : ∀ scope ∈ before ++ [⟨label, name, id⟩], scope.label ∈ label :: issued := by
      intro scope hscope
      obtain hscope | rfl := by simpa using hscope
      · exact List.mem_cons_of_mem _ (hbefore scope hscope)
      · exact List.mem_cons_self
    obtain ⟨steps, hsteps, htraces⟩ := ih (Segment.WellFormed.scoped_iff.mp h).2 _ hissued
    rw [List.append_assoc, List.singleton_append] at hsteps
    refine ⟨.scoped ⟨label, name, id⟩ :: steps, ofTokens_cons ?_ hsteps, .scoped _ htraces⟩
    have hfind := find?_scope ⟨label, name, id⟩
      (ScopedPath.ofSegments (label :: issued) rest).scopes hfresh
    simp only [ofToken, placeholderLabel?_placeholder, ScopedPath.ofSegments]
    rw [hfind]
  | case3 issued name rest hrest ih =>
    obtain ⟨-, hplain, hwell⟩ := (Segment.WellFormed.field_iff hrest).mp h
    obtain ⟨steps, hsteps, htraces⟩ := ih hwell before hbefore
    refine ⟨.field name :: steps, ?_, .field name htraces⟩
    simp only [ScopedPath.ofSegments]
    exact ofTokens_cons (by simp [ofToken, hplain]) hsteps
  | case4 issued id rest => exact absurd h Segment.WellFormed.not_identifier_cons

/-- The text of a scoped path, if there is any, is cut into its tokens again when no name of a field
has a dot. -/
theorem parse_text {segments : List Segment}
    (h : ∀ name, Segment.field name ∈ segments → '.' ∉ name.toList)
    (hne : (ScopedPath.ofSegments [] segments).text ≠ "") :
    parse (ScopedPath.ofSegments [] segments).scopes (ScopedPath.ofSegments [] segments).text =
      ofTokens (ScopedPath.ofSegments [] segments).scopes (ScopedPath.ofSegments [] segments).text
        (ScopedPath.ofSegments [] segments).tokens := by
  have htokens : (ScopedPath.ofSegments [] segments).tokens ≠ [] := by
    intro hnil
    exact hne (by simp [ScopedPath.text, hnil, Text.join, Text.joined])
  have hsplit := Text.split_join htokens (dot_not_mem_tokens [] segments h)
  rw [parse, if_neg hne]
  show ofTokens _ _ (Text.split '.' (Text.join '.' _)) = _
  rw [hsplit]

/-- The text of a scoped path of well-formed segments, if there is any, is read as steps that trace
the segments. -/
theorem exists_parse_eq_traces {segments : List Segment} (h : Segment.WellFormed segments)
    (hne : (ScopedPath.ofSegments [] segments).text ≠ "") :
    ∃ steps, parse (ScopedPath.ofSegments [] segments).scopes
      (ScopedPath.ofSegments [] segments).text = .ok steps ∧ Traces steps segments := by
  rw [parse_text h.dotless hne]
  exact exists_ofTokens_eq_traces (ScopedPath.ofSegments [] segments).text [] segments h [] (by simp)

end Step

end RestArchive
