import RestArchive.Proofs.DatabasePaths
import RestArchive.Proofs.Labels
import Mathlib.Data.List.Induction

/-! # Different paths in the database

A placeholder is written for the database as the name of its field, which may have dots and may look like
placeholders itself, and behind it the placeholder of its scope's position. So the pieces of a written
path do not show from the front which tokens they come from. From the end they do: the last piece of a
token is the token itself, or names the position of its scope, and then also the pieces in front of it
are known. Different paths are therefore written differently (`path_injective`), and no value that an
update sets overwrites another one (`update_set`). -/

namespace RestArchive.Mongo

/-! ## Pieces of tokens -/

/-- The pieces between dots that a token of an update path is written as; none if its scope is
not there. -/
def tokenPieces (scopes : List Scope) (text : String) : List String :=
  match placeholderLabel? text with
  | none => [text]
  | some label =>
    match positionOf? label 0 scopes with
    | some (position, scope) => Text.split '.' scope.field ++ [placeholder (scopeAlias position)]
    | none => []

/-- A position is written without a dot. -/
theorem dot_not_mem_scopeAlias (position : Nat) : '.' ∉ (scopeAlias position).toList :=
  dot_not_mem_numberedLabel (by decide) position

/-- What a token has been written as is cut at its dots into the pieces of the token. -/
theorem split_eq_tokenPieces {scopes : List Scope} {path text rendered : String}
    (hdotless : '.' ∉ text.toList) (h : token scopes path text = .ok rendered) :
    Text.split '.' rendered = tokenPieces scopes text := by
  rw [token] at h
  rw [tokenPieces]
  cases hlabel : placeholderLabel? text with
  | none =>
    rw [hlabel] at h
    cases h
    exact Text.split_of_not_mem hdotless
  | some label =>
    simp only [hlabel] at h ⊢
    cases hposition : positionOf? label 0 scopes with
    | none => simp [hposition] at h
    | some found =>
      simp only [hposition, Except.ok.injEq] at h ⊢
      rw [← h, Text.split_append_dot,
        Text.split_of_not_mem (dot_not_mem_placeholder (dot_not_mem_scopeAlias found.1))]

/-- What tokens have been written as is cut into the pieces of one token after the other, and each of them
has some. -/
theorem flatMap_split_of_tokens {scopes : List Scope} {path : String} {texts renderings : List String}
    (hdotless : ∀ text ∈ texts, '.' ∉ text.toList) (h : tokens scopes path texts = .ok renderings) :
    renderings.flatMap (Text.split '.') = texts.flatMap (tokenPieces scopes) ∧
      ∀ text ∈ texts, tokenPieces scopes text ≠ [] := by
  induction texts generalizing renderings with
  | nil =>
    cases h
    exact ⟨rfl, by simp⟩
  | cons text texts ih =>
    obtain ⟨htext, htexts⟩ := List.forall_mem_cons.mp hdotless
    simp only [tokens, block_eq_ok_iff, pure_eq_ok_iff] at h
    obtain ⟨first, hfirst, others, hothers, rfl⟩ := h
    obtain ⟨hpieces, hsome⟩ := ih htexts hothers
    have hfirstPieces := split_eq_tokenPieces htext hfirst
    refine ⟨?_, List.forall_mem_cons.mpr ⟨?_, hsome⟩⟩
    · rw [List.flatMap_cons, List.flatMap_cons, hfirstPieces, hpieces]
    · rw [← hfirstPieces]
      exact Text.split_ne_nil '.' first

/-! ## Reading pieces from the end -/

/-- A scope has one position only at which it can be found. -/
theorem eq_of_positionOf? {scopes : List Scope} {first second : String} {position : Nat}
    {scope other : Scope} (hfirst : positionOf? first 0 scopes = some (position, scope))
    (hsecond : positionOf? second 0 scopes = some (position, other)) : first = second := by
  obtain ⟨rfl, found, hfound, ⟨hat, -⟩⟩ := standsAt_of_positionOf? hfirst
  obtain ⟨rfl, found', hfound', ⟨hat', -⟩⟩ := standsAt_of_positionOf? hsecond
  obtain rfl : found = found' := by omega
  rw [hat, Option.some.injEq] at hat'
  rw [hat']

/-- Tokens whose last pieces are the same are the same. -/
theorem eq_of_getLast?_tokenPieces {scopes : List Scope} {first second last : String}
    (hfirst : (tokenPieces scopes first).getLast? = some last)
    (hsecond : (tokenPieces scopes second).getLast? = some last) : first = second := by
  -- The last piece is the token, or else the placeholder of a position; it tells by its shape which.
  have hread {text : String} (h : (tokenPieces scopes text).getLast? = some last) :
      (text = last ∧ placeholderLabel? last = none) ∨
        ∃ label position scope, text = placeholder label ∧
          positionOf? label 0 scopes = some (position, scope) ∧
          last = placeholder (scopeAlias position) := by
    rw [tokenPieces] at h
    split at h
    case h_1 hplain =>
      obtain rfl : text = last := by simpa using h
      exact Or.inl ⟨rfl, hplain⟩
    case h_2 label hlabel =>
      split at h
      case h_1 position scope hposition =>
        obtain rfl : placeholder (scopeAlias position) = last := by simpa using h
        exact Or.inr ⟨label, position, scope, eq_placeholder_of_placeholderLabel? hlabel, hposition,
          rfl⟩
      case h_2 => cases h
  rcases hread hfirst with ⟨rfl, hplain⟩ | ⟨label, position, scope, rfl, hposition, rfl⟩
  · rcases hread hsecond with ⟨rfl, -⟩ | ⟨label, position, scope, rfl, -, rfl⟩
    · rfl
    · simp at hplain
  · rcases hread hsecond with ⟨rfl, hplain⟩ | ⟨label', position', scope', rfl, hposition', hlast⟩
    · simp at hplain
    · have halias : scopeAlias position = scopeAlias position' := by
        simpa using congrArg placeholderLabel? hlast
      obtain rfl : position = position' := numberedLabel_injective "scope" halias
      rw [eq_of_positionOf? hposition hposition']

/-- Lists are the same when they are written the same, each part as one piece or more, and the last piece
of a part tells which part it is. -/
theorem eq_of_flatMap_eq {α β : Type} {pieces : α → List β}
    (hlast : ∀ first second last, (pieces first).getLast? = some last →
      (pieces second).getLast? = some last → first = second) {parts others : List α}
    (hparts : ∀ part ∈ parts, pieces part ≠ []) (hothers : ∀ part ∈ others, pieces part ≠ [])
    (h : parts.flatMap pieces = others.flatMap pieces) : parts = others := by
  have hnil {rest : List α} (hrest : ∀ part ∈ rest, pieces part ≠ [])
      (h : rest.flatMap pieces = []) : rest = [] :=
    List.eq_nil_iff_forall_not_mem.mpr fun part hpart =>
      hrest part hpart (List.flatMap_eq_nil_iff.mp h part hpart)
  induction parts using List.reverseRecOn generalizing others with
  | nil => exact (hnil hothers h.symm).symm
  | append_singleton parts part ih =>
    rcases List.eq_nil_or_concat' others with rfl | ⟨others, other, rfl⟩
    · exact hnil hparts h
    · rw [List.flatMap_append, List.flatMap_append, List.flatMap_singleton,
        List.flatMap_singleton] at h
      have hpart := hparts part (by simp)
      have hother := hothers other (by simp)
      have hsame := congrArg List.getLast? h
      rw [List.getLast?_append_of_ne_nil _ hpart, List.getLast?_append_of_ne_nil _ hother] at hsame
      have hpiece := List.getLast?_eq_some_getLast hpart
      obtain rfl := hlast part other _ hpiece (hsame ▸ hpiece)
      rw [ih (fun rest hrest => hparts rest (by simp [hrest]))
        (fun rest hrest => hothers rest (by simp [hrest])) (List.append_cancel_right h)]

/-- Different paths are written differently, whatever the labels and fields of the scopes look like. -/
theorem path_injective {scopes : List Scope} {first second rendered : String}
    (hfirst : path scopes first = .ok rendered) (hsecond : path scopes second = .ok rendered) :
    first = second := by
  have hpieces {text : String} (h : path scopes text = .ok rendered) :
      Text.split '.' rendered = (Text.split '.' text).flatMap (tokenPieces scopes) ∧
        ∀ token ∈ Text.split '.' text, tokenPieces scopes token ≠ [] := by
    obtain ⟨renderings, hrenderings, rfl⟩ := map_eq_ok_iff.mp h
    obtain ⟨hflat, hsome⟩ :=
      flatMap_split_of_tokens (fun _ htoken => Text.not_mem_of_mem_split htoken) hrenderings
    have hne : renderings ≠ [] := by
      rintro rfl
      obtain ⟨token, rest, hsplit⟩ := List.exists_cons_of_ne_nil (Text.split_ne_nil '.' text)
      exact hsome token (by simp [hsplit]) (List.flatMap_eq_nil_iff.mp hflat.symm token (by simp [hsplit]))
    exact ⟨by rw [Text.split_join_eq_flatMap hne, hflat], hsome⟩
  obtain ⟨hfirstPieces, hfirstSome⟩ := hpieces hfirst
  obtain ⟨hsecondPieces, hsecondSome⟩ := hpieces hsecond
  have hsplit : Text.split '.' first = Text.split '.' second :=
    eq_of_flatMap_eq (fun _ _ _ => eq_of_getLast?_tokenPieces) hfirstSome hsecondSome
      (hfirstPieces.symm.trans hsecondPieces)
  rw [← Text.join_split '.' first, hsplit, Text.join_split]

/-! ## Values at their paths -/

/-- Where the paths can be written, each value is put at its own, one after the other. -/
theorem settings_eq_foldl {scopes : List Scope} {rendered : String → String} {values : Document}
    (h : ∀ text ∈ values.names, path scopes text = .ok (rendered text)) (written : Document) :
    settings scopes written values =
      .ok ((values.map fun (text, value) => (rendered text, value)).foldl
        (fun entries entry => Entries.insert entries entry.1 entry.2) written) := by
  induction values generalizing written with
  | nil => rfl
  | cons setting values ih =>
    obtain ⟨text, value⟩ := setting
    obtain ⟨htext, htexts⟩ := List.forall_mem_cons.mp h
    simp only [settings, htext, List.map_cons, List.foldl_cons]
    exact ih htexts (written.insert (rendered text) value)

/-- No two paths are written the same. So the modification for values at different paths, at least one
and all of which can be written, has one entry for each of them: in the same order, at its path and with
its value. -/
theorem update_set (scopes : List Scope) :
    (∀ first second rendered, path scopes first = .ok rendered → path scopes second = .ok rendered →
      first = second) ∧
    ∀ values : Document, values ≠ [] → values.names.Nodup →
      (∀ text ∈ values.names, ∃ rendered, path scopes text = .ok rendered) →
      ∃ written : Document,
        update ⟨.set values, scopes⟩ =
          .ok (some ([("$set", .document written)], conditions 0 scopes)) ∧
        written.names.Nodup ∧
        List.Forall₂ (fun setting entry => path scopes setting.1 = .ok entry.1 ∧ entry.2 = setting.2)
          values written := by
  refine ⟨fun _ _ _ => path_injective, fun values hne hnodup h => ?_⟩
  choose! rendered hrendered using h
  have hnames : Entries.names (values.map fun (text, value) => (rendered text, value)) =
      values.names.map rendered := by
    simp [Entries.names, List.map_map, Function.comp_def]
  have hdistinct : (values.names.map rendered).Nodup :=
    hnodup.map_on fun first hfirst second hsecond heq =>
      path_injective (hrendered first hfirst) (heq ▸ hrendered second hsecond)
  rw [← hnames] at hdistinct
  refine ⟨values.map fun (text, value) => (rendered text, value), ?_, hdistinct, ?_⟩
  · have hsettings : settings scopes [] values =
        .ok (Entries.ofPairs (values.map fun (text, value) => (rendered text, value))) :=
      settings_eq_foldl hrendered []
    rw [Entries.ofPairs_of_nodup hdistinct] at hsettings
    have hidle : isIdle (.set values) = false := by simpa [isIdle] using hne
    simp [update, hidle, modification, hsettings, Except.map]
  · refine List.forall₂_map_right_iff.mpr (List.forall₂_same.mpr fun setting hsetting => ?_)
    exact ⟨hrendered setting.1 (List.mem_map_of_mem hsetting), rfl⟩

/-- Scopes whose fields look like the placeholders of each other. -/
def disguisedFields : List Scope :=
  [⟨"a", "$[scope1]", .ofNat 1⟩, ⟨"b", "$[scope0].$[scope1]", .ofNat 2⟩]

/-- Values at two paths that differ in the order of their placeholders. -/
def crossedSettings : Document := [("$[a].$[b]", .int32 1), ("$[b].$[a]", .int32 2)]

/-- Each of the two values has an entry. -/
theorem update_set_crossedSettings :
    path disguisedFields "$[a].$[b]" =
        .ok "$[scope1].$[scope0].$[scope0].$[scope1].$[scope1]" ∧
      path disguisedFields "$[b].$[a]" =
        .ok "$[scope0].$[scope1].$[scope1].$[scope1].$[scope0]" ∧
      ∃ written : Document,
        update ⟨.set crossedSettings, disguisedFields⟩ =
          .ok (some ([("$set", .document written)], conditions 0 disguisedFields)) ∧
        written.names.Nodup ∧
        List.Forall₂ (fun setting entry =>
          path disguisedFields setting.1 = .ok entry.1 ∧ entry.2 = setting.2)
            crossedSettings written := by
  have hfirst : path disguisedFields "$[a].$[b]" =
      .ok "$[scope1].$[scope0].$[scope0].$[scope1].$[scope1]" := by
    rw [← toOption_eq_some_iff]
    decide +kernel
  have hsecond : path disguisedFields "$[b].$[a]" =
      .ok "$[scope0].$[scope1].$[scope1].$[scope1].$[scope0]" := by
    rw [← toOption_eq_some_iff]
    decide +kernel
  refine ⟨hfirst, hsecond, (update_set disguisedFields).2 crossedSettings (by decide) (by decide) ?_⟩
  exact List.forall_mem_cons.mpr ⟨⟨_, hfirst⟩, List.forall_mem_singleton.mpr ⟨_, hsecond⟩⟩

end RestArchive.Mongo
