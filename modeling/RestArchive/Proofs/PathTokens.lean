import RestArchive.Proofs.Resolution

/-! # What the tokens of a scoped path stand for

The scoped path of an address is one dotted text, which is cut at its dots again. Its tokens stand for
the segments one by one exactly when no name has a dot, and none is spelled like a placeholder unless
an identifier follows (`spells_iff_of_parse`). A path with a dot in a name is accepted all the same, and
its tokens are others (`not_spells_dottedAddress`). -/

namespace RestArchive

/-- Tokens that stand for segments one by one: a placeholder, under whose label there is a scope of that
field and that identifier, for a field that an identifier follows; and its name, which is not spelled
like a placeholder, for any other field. -/
inductive Spells (scopes : List Scope) : List String → List Segment → Prop
  /-- No tokens for no segments. -/
  | nil : Spells scopes [] []
  /-- The name of a field that no identifier follows. -/
  | field {name : String} {tokens : List String} {segments : List Segment}
      (plain : placeholderLabel? name = none) (rest : Spells scopes tokens segments) :
      Spells scopes (name :: tokens) (.field name :: segments)
  /-- The placeholder of a field and the identifier behind it. -/
  | scoped {scope : Scope} {tokens : List String} {segments : List Segment}
      (found : Scope.find? scopes scope.label = some scope) (rest : Spells scopes tokens segments) :
      Spells scopes (placeholder scope.label :: tokens)
        (.field scope.field :: .identifier scope.id :: segments)

namespace Spells

variable {scopes : List Scope} {tokens : List String} {segments : List Segment}

/-- Tokens stand for the segments that their steps trace. -/
theorem of_traces {path : String} {steps : List Step} (htraces : Step.Traces steps segments)
    (h : Step.ofTokens scopes path tokens = .ok steps) : Spells scopes tokens segments := by
  induction htraces generalizing tokens with
  | nil =>
    cases Step.eq_nil_of_ofTokens_eq_nil h
    exact .nil
  | field name htraces ih =>
    obtain ⟨token, tokens, rfl, hfirst, hothers⟩ := Step.exists_of_ofTokens_eq_cons h
    obtain ⟨rfl, hplain⟩ := Step.ofToken_eq_field_iff.mp hfirst
    exact .field hplain (ih hothers)
  | «scoped» scope htraces ih =>
    obtain ⟨token, tokens, rfl, hfirst, hothers⟩ := Step.exists_of_ofTokens_eq_cons h
    obtain ⟨rfl, hfound⟩ := Step.ofToken_eq_scoped_iff.mp hfirst
    exact .scoped hfound (ih hothers)

/-- Segments that tokens stand for do not start with an identifier. -/
theorem not_identifier_cons {id : ObjectId} {rest : List Segment}
    (h : Spells scopes tokens segments) : segments ≠ .identifier id :: rest := by
  rintro rfl
  cases h

/-- Segments are well-formed when tokens without dots stand for them, under labels that have the dots
of their fields. -/
theorem wellFormed (h : Spells scopes tokens segments)
    (htokens : ∀ token ∈ tokens, '.' ∉ token.toList)
    (hscopes : ∀ scope ∈ scopes, '.' ∈ scope.field.toList → '.' ∈ scope.label.toList) :
    Segment.WellFormed segments := by
  induction h with
  | nil => exact .nil
  | field hplain hrest ih =>
    obtain ⟨hname, hothers⟩ := List.forall_mem_cons.mp htokens
    exact (Segment.WellFormed.field_iff fun _ _ => hrest.not_identifier_cons).mpr
      ⟨hname, hplain, ih hothers⟩
  | @«scoped» scope tokens segments hfound hrest ih =>
    obtain ⟨hlabel, hothers⟩ := List.forall_mem_cons.mp htokens
    -- The label is inside a token, and a dot of the field would be in it.
    have hfield : '.' ∉ scope.field.toList := fun hdot =>
      hlabel (by simp [placeholder, hscopes scope (List.mem_of_find?_eq_some hfound) hdot])
    exact Segment.WellFormed.scoped_iff.mpr ⟨hfield, ih hothers⟩

/-- There are as many placeholders among the tokens as identifiers among the segments. -/
theorem countP_placeholder (h : Spells scopes tokens segments) :
    tokens.countP (fun token => (placeholderLabel? token).isSome) =
      segments.countP Segment.isIdentifier := by
  induction h with
  | nil => rfl
  | field hplain hrest ih => simp [hplain, Segment.isIdentifier, ih]
  | «scoped» hfound hrest ih => simp [Segment.isIdentifier, List.countP_cons, ih]

end Spells

/-- There are as many identifiers behind segments as identifiers. -/
theorem Segment.length_identifiersBehind (before : Option Segment) (segments : List Segment) :
    (identifiersBehind before segments).length = segments.countP isIdentifier := by
  induction segments generalizing before with
  | nil => rfl
  | cons segment rest ih =>
    cases segment <;> simp [identifiersBehind, isIdentifier, List.countP_cons, ih]

namespace ScopedPath

/-- A label has a dot when its field has one. -/
theorem dot_mem_label (issued : List String) (segments : List Segment) :
    ∀ scope ∈ (ofSegments issued segments).scopes,
      '.' ∈ scope.field.toList → '.' ∈ scope.label.toList := by
  induction issued, segments using ofSegments.induct with
  | case1 issued => simp [ofSegments]
  | case2 issued name id rest label ih =>
    rw [ofSegments]
    refine List.forall_mem_cons.mpr ⟨fun hdot => ?_, ih⟩
    -- A label is the name of its field, or that name with a number behind it.
    rcases freeLabel_eq_or issued name with hlabel | ⟨number, hlabel⟩
    · rwa [hlabel]
    · simp [hlabel, numberedLabel, hdot]
  | case3 issued name rest hrest ih =>
    rw [ofSegments]
    · exact ih
    · exact hrest
  | case4 issued id rest ih => exact ih

/-- Segments that do not start with an identifier have a token, if there are any. -/
theorem tokens_ne_nil {issued : List String} {segments : List Segment}
    (h : Address.strayIdentifier? false segments = none) (hne : segments ≠ []) :
    (ofSegments issued segments).tokens ≠ [] := by
  match segments with
  | [] => exact absurd rfl hne
  | .identifier id :: rest => cases h
  | .field name :: .identifier id :: rest => simp [ofSegments]
  | .field name :: [] => simp [ofSegments]
  | .field name :: .field other :: rest => simp [ofSegments]

/-- The tokens that the text of a scoped path is cut into stand for its segments exactly when these are
well-formed. -/
theorem spells_split_text_iff {segments : List Segment}
    (h : Address.strayIdentifier? false segments = none) (hne : segments ≠ []) :
    Spells (ofSegments [] segments).scopes (Text.split '.' (ofSegments [] segments).text) segments ↔
      Segment.WellFormed segments := by
  constructor
  · -- Whatever the names are, no token of a text that was cut at its dots has one.
    intro hspells
    exact hspells.wellFormed (fun token htoken => Text.not_mem_of_mem_split htoken)
      (dot_mem_label [] segments)
  · -- Without dots in them the tokens are those that were joined, and their steps trace the segments.
    intro hwell
    obtain ⟨steps, hsteps, htraces⟩ := Step.exists_ofTokens_eq_traces
      (ofSegments [] segments).text [] segments hwell [] (by simp)
    rw [text, Text.split_join (tokens_ne_nil h hne) (dot_not_mem_tokens [] segments hwell.dotless)]
    exact .of_traces htraces hsteps

end ScopedPath

namespace Address

/-- There is one scope for each identifier that counts. -/
theorem length_scopes {path : String} {omitsLast : Bool} {address : Address}
    (h : parse path omitsLast = .ok address) :
    address.scopes.length = address.retained.countP Segment.isIdentifier := by
  have hscopes := congrArg List.length (resolves_of_parse h).scopes
  rwa [List.length_map, Segment.length_identifiersBehind] at hscopes

/-- Where some segment of a path counts, the tokens of the dotted text stand for the segments that count
exactly when no name of a field has a dot, and a field that no identifier follows is not spelled like a
placeholder. There are then as many placeholders as scopes and as identifiers. Where none counts, the
text is empty. -/
theorem spells_iff_of_parse {path : String} {omitsLast : Bool} {address : Address}
    (h : parse path omitsLast = .ok address) :
    (address.retained = [] → address.fieldPath = "") ∧
      (address.retained ≠ [] →
        (Spells address.scopes (Text.split '.' address.fieldPath) address.retained ↔
          Segment.WellFormed address.retained)) ∧
      (Segment.WellFormed address.retained →
        (Text.split '.' address.fieldPath).countP (fun token => (placeholderLabel? token).isSome) =
          address.scopes.length) ∧
      address.scopes.length = address.retained.countP Segment.isIdentifier := by
  have hfollows := strayIdentifier?_retained h
  have hempty : address.retained = [] → address.fieldPath = "" := by
    intro hnone
    rw [fieldPath, scopedPath, hnone]
    rfl
  have hspells (hne : address.retained ≠ []) :
      Spells address.scopes (Text.split '.' address.fieldPath) address.retained ↔
        Segment.WellFormed address.retained :=
    ScopedPath.spells_split_text_iff hfollows hne
  refine ⟨hempty, hspells, fun hwell => ?_, length_scopes h⟩
  rw [length_scopes h]
  by_cases hnone : address.retained = []
  · rw [hempty hnone, hnone]
    rfl
  · exact ((hspells hnone).mpr hwell).countP_placeholder

/-- In a path whose names have no dots, the tokens stand for the segments. -/
theorem spells_iff_of_parse_numberedPath :
    parse numberedPath false = .ok numberedAddress ∧
      Spells numberedAddress.scopes ["$[t]", "$[t2]", "$[t22]"]
        numberedAddress.retained := by
  have hsplit : Text.split '.' numberedAddress.fieldPath = ["$[t]", "$[t2]", "$[t22]"] := by
    decide +kernel
  have h := (spells_iff_of_parse parse_numberedPath).2.1 (by decide)
  rw [hsplit] at h
  exact ⟨parse_numberedPath, h.mpr (by decide +kernel)⟩

/-- A path with a dot in the name of an array. -/
def dottedPath : String := "/64f1f1f1f1f1f1f1f1f1f1f1/a.b/64f2f2f2f2f2f2f2f2f2f2f2/n"

/-- The address of that path. -/
def dottedAddress : Address where
  root := some "64f1f1f1f1f1f1f1f1f1f1f1"
  segments := [.field "a.b", .identifier (.ofNat 0x64f2f2f2f2f2f2f2f2f2f2f2), .field "n"]
  omitsLast := false

/-- The path is accepted, but its dotted text has three tokens for two fields, and none of them is a
placeholder, although there is a scope. -/
theorem not_spells_dottedAddress :
    parse dottedPath false = .ok dottedAddress ∧
      Text.split '.' dottedAddress.fieldPath = ["$[a", "b]", "n"] ∧
      dottedAddress.scopes = [⟨"a.b", "a.b", .ofNat 0x64f2f2f2f2f2f2f2f2f2f2f2⟩] ∧
      (Text.split '.' dottedAddress.fieldPath).countP
        (fun token => (placeholderLabel? token).isSome) = 0 ∧
      ¬ Spells dottedAddress.scopes (Text.split '.' dottedAddress.fieldPath)
        dottedAddress.retained := by
  have hparse : parse dottedPath false = .ok dottedAddress := by
    rw [← toOption_eq_some_iff]
    decide +kernel
  refine ⟨hparse, by decide +kernel, by decide +kernel, by decide +kernel, fun hspells => ?_⟩
  have hcount := hspells.countP_placeholder
  revert hcount
  decide +kernel

end Address

end RestArchive
