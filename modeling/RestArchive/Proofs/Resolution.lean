import RestArchive.Proofs.ScopedText
import RestArchive.Proofs.Success

/-! # What an address resolves to

A path is refused exactly when a piece of it writes an identifier directly behind the first piece or
behind another identifier. Otherwise each identifier that counts has a scope, in order, with the field
in front of it; and since no label is issued twice, each scope is the one that is found under its
label (`parse_resolves`). -/

namespace RestArchive

/-! ## Stray identifiers -/

namespace Segment

/-- Whether an identifier stands at a position of segments, with none or another identifier in front
of it. At the start, `afterField` says whether a field stands in front. -/
def StrayAt (afterField : Bool) (segments : List Segment) (position : Nat) : Prop :=
  (∃ id, segments[position]? = some (.identifier id)) ∧
    match position with
    | 0 => afterField = false
    | before + 1 => ∃ other, segments[before]? = some (.identifier other)

variable {afterField : Bool} {name : String} {id : ObjectId} {rest : List Segment}

/-- Behind a field, an identifier is stray where it is stray behind that field. -/
theorem exists_strayAt_field_cons :
    (∃ position, StrayAt afterField (.field name :: rest) position) ↔
      ∃ position, StrayAt true rest position := by
  -- Positions move on by one: the field is no identifier, and the one behind it has a field in front.
  constructor
  · rintro ⟨position, ⟨id, hid⟩, hbefore⟩
    match position with
    | 0 => simp at hid
    | 1 => simp at hbefore
    | before + 2 =>
      refine ⟨before + 1, ⟨id, by simpa using hid⟩, ?_⟩
      simpa using hbefore
  · rintro ⟨position, ⟨id, hid⟩, hbefore⟩
    match position with
    | 0 => cases hbefore
    | before + 1 => exact ⟨before + 2, ⟨id, by simpa using hid⟩, by simpa using hbefore⟩

/-- An identifier behind a field is not stray, and one behind it is. -/
theorem exists_strayAt_identifier_cons :
    (∃ position, StrayAt true (.identifier id :: rest) position) ↔
      ∃ position, StrayAt false rest position := by
  -- The identifier has the field in front, and is what stands in front of the next segment.
  constructor
  · rintro ⟨position, ⟨other, hother⟩, hbefore⟩
    match position with
    | 0 => cases hbefore
    | 1 => exact ⟨0, ⟨other, by simpa using hother⟩, rfl⟩
    | before + 2 => exact ⟨before + 1, ⟨other, by simpa using hother⟩, by simpa using hbefore⟩
  · rintro ⟨position, ⟨other, hother⟩, hbefore⟩
    match position with
    | 0 => exact ⟨1, ⟨other, by simpa using hother⟩, id, rfl⟩
    | before + 1 => exact ⟨before + 2, ⟨other, by simpa using hother⟩, by simpa using hbefore⟩

end Segment

namespace Address

/-- The search finds an identifier exactly when one is stray. -/
theorem strayIdentifier?_ne_none_iff (afterField : Bool) (segments : List Segment) :
    strayIdentifier? afterField segments ≠ none ↔
      ∃ position, Segment.StrayAt afterField segments position := by
  induction segments generalizing afterField with
  | nil => simp [strayIdentifier?, Segment.StrayAt]
  | cons segment rest ih =>
    cases segment with
    | field name =>
      rw [strayIdentifier?, ih, Segment.exists_strayAt_field_cons]
    | identifier id =>
      cases afterField with
      | true => rw [strayIdentifier?, if_pos rfl, ih, Segment.exists_strayAt_identifier_cons]
      | false =>
        rw [strayIdentifier?, if_neg Bool.false_ne_true]
        exact iff_of_true (by simp) ⟨0, ⟨id, rfl⟩, rfl⟩

/-- The pieces of a path between its slashes, after one slash in front and one at the end are taken
away. -/
def pathPieces (path : String) : List String :=
  Text.split '/' (Text.dropTrailing '/' (Text.dropLeading '/' path))

/-- Whether some piece of a path behind the first one writes an identifier directly behind the first
piece, or behind another piece that writes one. -/
def HasStray (pieces : List String) : Prop :=
  ∃ (position : Nat) (text : String), pieces[position + 1]? = some text ∧ ObjectId.isIdText text ∧
    (position = 0 ∨ ∃ before, pieces[position]? = some before ∧ ObjectId.isIdText before)

end Address

/-- A text is read as an identifier exactly when it writes one. -/
theorem Segment.exists_ofText_eq_identifier_iff (text : String) :
    (∃ id, ofText text = .identifier id) ↔ ObjectId.isIdText text := by
  rw [← ObjectId.isSome_ofHex?, ofText]
  cases ObjectId.ofHex? text <;> simp

namespace Address

/-- Pieces behind the first one are stray as segments exactly when they are stray as texts. -/
theorem exists_strayAt_iff_hasStray (root : String) (rest : List String) :
    (∃ position, Segment.StrayAt false (rest.map Segment.ofText) position) ↔
      HasStray (root :: rest) := by
  -- A position holds an identifier when the text there writes one.
  have hread : ∀ position : Nat,
      (∃ id, (rest.map Segment.ofText)[position]? = some (Segment.identifier id)) ↔
        ∃ text, rest[position]? = some text ∧ ObjectId.isIdText text := by
    intro position
    rw [List.getElem?_map]
    cases rest[position]? with
    | none => simp
    | some text => simpa using Segment.exists_ofText_eq_identifier_iff text
  constructor
  · rintro ⟨position, hid, hbefore⟩
    obtain ⟨text, htext, hwrites⟩ := (hread position).mp hid
    refine ⟨position, text, htext, hwrites, ?_⟩
    cases position with
    | zero => exact Or.inl rfl
    | succ before => exact Or.inr ((hread before).mp hbefore)
  · rintro ⟨position, text, htext, hwrites, hbefore⟩
    refine ⟨position, (hread position).mpr ⟨text, htext, hwrites⟩, ?_⟩
    cases position with
    | zero => rfl
    | succ before => exact (hread before).mpr (hbefore.resolve_left (Nat.succ_ne_zero before))

/-- The root that the pieces of a path name: the first of them, unless the path is empty. -/
def rootOf? (pieces : List String) : Option String :=
  if pieces = [""] then none else pieces.head?

/-- A path is refused for the first stray identifier behind its first piece. Without one, its address has
the first piece as its root and those behind it as its segments. -/
theorem parse_eq (path : String) (omitsLast : Bool) : parse path omitsLast =
    match strayIdentifier? false ((pathPieces path).tail.map Segment.ofText) with
    | some id => .error (.strayIdentifier id)
    | none => .ok ⟨rootOf? (pathPieces path), (pathPieces path).tail.map Segment.ofText, omitsLast⟩ := by
  rw [parse, pathPieces]
  generalize Text.dropTrailing '/' (Text.dropLeading '/' path) = trimmed
  split
  case isTrue hempty =>
    subst hempty
    rfl
  case isFalse hempty =>
    obtain ⟨root, rest, hpieces⟩ := List.exists_cons_of_ne_nil (Text.split_ne_nil '/' trimmed)
    have hroot : root :: rest ≠ [""] := by
      intro hnone
      rw [← Text.join_split '/' trimmed, hpieces, hnone] at hempty
      exact hempty rfl
    rw [hpieces, rootOf?, if_neg hroot]
    rfl

/-- A path is refused for the first stray identifier behind its first piece. Without one, the pieces
behind the first are the segments of its address. -/
theorem exists_parse_eq (path : String) (omitsLast : Bool) :
    ∃ root, parse path omitsLast =
      match strayIdentifier? false ((pathPieces path).tail.map Segment.ofText) with
      | some id => .error (.strayIdentifier id)
      | none => .ok ⟨root, (pathPieces path).tail.map Segment.ofText, omitsLast⟩ :=
  ⟨rootOf? (pathPieces path), parse_eq path omitsLast⟩

end Address

/-! ## Scopes -/

namespace Segment

/-- The identifiers among segments, each with the segment right in front of it; `before` is the
segment in front of the first one. -/
def identifiersBehind (before : Option Segment) : List Segment → List (Option Segment × ObjectId)
  | [] => []
  | .field name :: rest => identifiersBehind (some (.field name)) rest
  | .identifier id :: rest => (before, id) :: identifiersBehind (some (.identifier id)) rest

end Segment

namespace ScopedPath

/-- Each identifier has a scope, in order, with the field in front of it. -/
theorem scopes_eq_identifiersBehind (issued : List String) (segments : List Segment)
    (h : Address.strayIdentifier? false segments = none) (before : Option Segment) :
    (ofSegments issued segments).scopes.map (fun scope => (some (.field scope.field), scope.id)) =
      Segment.identifiersBehind before segments := by
  -- What stands in front changes with every segment. It is the field of the scope where one is made,
  -- and is read nowhere else, as no identifier is stray.
  induction issued, segments using ofSegments.induct generalizing before with
  | case1 issued => rfl
  | case2 issued name id rest label ih =>
    rw [ofSegments, List.map_cons, ih h, Segment.identifiersBehind, Segment.identifiersBehind]
  | case3 issued name rest hrest ih =>
    rw [Address.strayIdentifier?, Address.strayIdentifier?_of_not_identifier hrest] at h
    rw [ofSegments, ih h, Segment.identifiersBehind]
    exact hrest
  | case4 issued id rest ih => cases h

/-- No label is issued twice, and none that is taken. -/
theorem nodup_labels (issued : List String) (segments : List Segment) :
    ((ofSegments issued segments).scopes.map Scope.label).Nodup ∧
      ∀ label ∈ (ofSegments issued segments).scopes.map Scope.label, label ∉ issued := by
  -- Labels differ since each one is taken when the next are chosen, so both parts go together.
  induction issued, segments using ofSegments.induct with
  | case1 issued => simp [ofSegments]
  | case2 issued name id rest label ih =>
    obtain ⟨hnodup, hfresh⟩ := ih
    rw [ofSegments, List.map_cons]
    refine ⟨List.nodup_cons.mpr ⟨fun hmem => ?_, hnodup⟩, List.forall_mem_cons.mpr ⟨?_, ?_⟩⟩
    · exact hfresh _ hmem List.mem_cons_self
    · exact freeLabel_not_mem issued name
    · exact fun other hother hissued => hfresh other hother (List.mem_cons_of_mem _ hissued)
  | case3 issued name rest hrest ih =>
    rw [ofSegments]
    · exact ih
    · exact hrest
  | case4 issued id rest ih => exact ih

end ScopedPath

/-- Where no label occurs twice, each scope is found under its label. -/
theorem Scope.find?_of_mem {scopes : List Scope} (hnodup : (scopes.map Scope.label).Nodup)
    {scope : Scope} (hmem : scope ∈ scopes) : find? scopes scope.label = some scope := by
  obtain ⟨before, after, rfl⟩ := List.append_of_mem hmem
  refine Step.find?_scope scope after fun other hother hlabel => ?_
  rw [List.map_append, List.map_cons] at hnodup
  exact (List.nodup_append.mp hnodup).2.2 _ (List.mem_map_of_mem hother) _ List.mem_cons_self hlabel

/-! ## The whole of an address -/

namespace Address

/-- What an address of a path is, given the pieces of the path. -/
structure Resolves (pieces : List String) (omitsLast : Bool) (address : Address) : Prop where
  /-- The segments are the pieces behind the first one. -/
  segments : address.segments = pieces.tail.map Segment.ofText
  /-- All segments count, or all but the last. -/
  retained : address.retained = if omitsLast then address.segments.dropLast else address.segments
  /-- Each identifier that counts has a scope, in order, with the field right in front of it. -/
  scopes : address.scopes.map (fun scope => (some (.field scope.field), scope.id)) =
    Segment.identifiersBehind none address.retained
  /-- No two scopes have the same label. -/
  labels : (address.scopes.map Scope.label).Nodup
  /-- The scope at a position is the one that an update finds under its label. -/
  scopeOf : ∀ (position : Nat) (scope : Scope), address.scopes[position]? = some scope →
    ∀ change, (Update.mk change address.scopes).scopeOf? scope.label = some scope
  /-- The scoped path ends at an element exactly when the last segment that counts is an
  identifier. -/
  endsAtElement : address.endsAtElement ↔ ∃ id, address.retained.getLast? = some (.identifier id)

/-- The segments that count stand in front. -/
theorem retained_prefix (address : Address) : address.retained <+: address.segments := by
  rw [retained]
  split
  · exact List.dropLast_prefix _
  · exact List.prefix_rfl

/-- The segments of an address are the pieces of its path behind the first one, and no identifier
among them is stray. -/
theorem segments_of_parse {path : String} {omitsLast : Bool} {address : Address}
    (h : parse path omitsLast = .ok address) :
    address.segments = (pathPieces path).tail.map Segment.ofText ∧
      address.omitsLast = omitsLast ∧ strayIdentifier? false address.segments = none := by
  obtain ⟨root, hparse⟩ := exists_parse_eq path omitsLast
  rw [hparse] at h
  cases hstray : strayIdentifier? false ((pathPieces path).tail.map Segment.ofText) with
  | some id =>
    rw [hstray] at h
    cases h
  | none =>
    rw [hstray, Except.ok.injEq] at h
    have hsegments : address.segments = (pathPieces path).tail.map Segment.ofText := by rw [← h]
    refine ⟨hsegments, by rw [← h], ?_⟩
    rw [hsegments]
    exact hstray

/-- In the address of a path, no identifier that counts is stray. -/
theorem strayIdentifier?_retained {path : String} {omitsLast : Bool} {address : Address}
    (h : parse path omitsLast = .ok address) : strayIdentifier? false address.retained = none := by
  obtain ⟨behind, hbehind⟩ := address.retained_prefix
  have hwhole : strayIdentifier? false (address.retained ++ behind) = none := by
    rw [hbehind]
    exact (segments_of_parse h).2.2
  exact strayIdentifier?_of_append hwhole

/-- The scoped path ends at an element exactly when the last segment that counts is an identifier. -/
theorem endsAtElement_iff (address : Address) :
    address.endsAtElement ↔ ∃ id, address.retained.getLast? = some (.identifier id) := by
  rw [endsAtElement]
  cases address.retained.getLast? with
  | none => simp
  | some segment => cases segment <;> simp [Segment.isIdentifier]

/-- The address of a path resolves it. -/
theorem resolves_of_parse {path : String} {omitsLast : Bool} {address : Address}
    (h : parse path omitsLast = .ok address) : address.Resolves (pathPieces path) omitsLast := by
  have hlabels := (ScopedPath.nodup_labels [] address.retained).1
  obtain ⟨hsegments, homits, -⟩ := segments_of_parse h
  exact {
    segments := hsegments
    retained := by rw [retained, homits]
    scopes := ScopedPath.scopes_eq_identifiersBehind [] _ (strayIdentifier?_retained h) none
    labels := hlabels
    scopeOf := fun position scope hscope _ =>
      Scope.find?_of_mem hlabels (List.mem_of_getElem? hscope)
    endsAtElement := address.endsAtElement_iff }

/-- A path is refused, and that as a bad request, exactly when some piece behind the first one writes
an identifier directly behind the first piece or behind another identifier, whether or not the last
segment counts. Else it is resolved. -/
theorem parse_resolves (path : String) (omitsLast : Bool) :
    ((∃ error, parse path omitsLast = .error error) ↔ HasStray (pathPieces path)) ∧
      (∀ error, parse path omitsLast = .error error → error.kind = .badRequest) ∧
      ∀ address, parse path omitsLast = .ok address →
        address.Resolves (pathPieces path) omitsLast := by
  obtain ⟨root, hparse⟩ := exists_parse_eq path omitsLast
  obtain ⟨first, rest, hpieces⟩ : ∃ first rest, pathPieces path = first :: rest :=
    List.exists_cons_of_ne_nil (Text.split_ne_nil _ _)
  have hstray : HasStray (pathPieces path) ↔
      strayIdentifier? false ((pathPieces path).tail.map Segment.ofText) ≠ none := by
    rw [strayIdentifier?_ne_none_iff, hpieces, ← exists_strayAt_iff_hasStray, List.tail_cons]
  refine ⟨?_, ?_, fun address h => resolves_of_parse h⟩
  · rw [hstray, hparse]
    cases strayIdentifier? false ((pathPieces path).tail.map Segment.ofText) <;> simp
  · intro error herror
    rw [hparse] at herror
    split at herror <;> cases herror
    rfl

/-- A path in which `t2` is a label before it is the name of a field. -/
def numberedPath : String :=
  "/a/t/640000000000000000000001/t/640000000000000000000002/t2/64000000000000000000000A/"

/-- The address of that path. -/
def numberedAddress : Address where
  root := some "a"
  segments :=
    [.field "t", .identifier (.ofNat 0x640000000000000000000001),
      .field "t", .identifier (.ofNat 0x640000000000000000000002),
      .field "t2", .identifier (.ofNat 0x64000000000000000000000a)]
  omitsLast := false

theorem parse_numberedPath : parse numberedPath false = .ok numberedAddress := by
  rw [← toOption_eq_some_iff]
  decide +kernel

/-- The third field gets a label of its own, and every identifier is found under its label. -/
theorem parse_resolves_numberedPath :
    parse numberedPath false = .ok numberedAddress ∧
      numberedAddress.scopes.map Scope.label = ["t", "t2", "t22"] ∧
      numberedAddress.Resolves (pathPieces numberedPath) false :=
  ⟨parse_numberedPath, by decide +kernel,
    (parse_resolves numberedPath false).2.2 _ parse_numberedPath⟩

end Address

end RestArchive
