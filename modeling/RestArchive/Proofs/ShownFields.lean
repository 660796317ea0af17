import Mathlib.Data.List.Induction
import RestArchive.Projection
import RestArchive.Proofs.FieldPaths

/-! # What projections show

A projection shows or hides the values at the paths that it lists, one after the other. A path may be
listed twice, or lead through another one. However the paths are ordered, what is shown at a place can be
read off those that lead to it, through it or from it (`Projection.apply_shows`).

Copying a value to its place changes nothing if it is there already (`putAt_eq_self`). So a path that leads
through another one does no harm, whichever of the two comes first. -/

namespace RestArchive

/-- Behind a list that starts another one there is something, unless the two are one. -/
theorem exists_append_of_starts_of_ne {α : Type} {first second : List α} (h : first <+: second)
    (hne : first ≠ second) : ∃ rest, rest ≠ [] ∧ first ++ rest = second := by
  obtain ⟨rest, happend⟩ := h
  refine ⟨rest, ?_, happend⟩
  rintro rfl
  exact hne ((List.append_nil first).symm.trans happend)

namespace Value

/-- Names behind others lead on from where those lead. -/
theorem within?_append (value : Value) (names rest : List String) :
    value.within? (names ++ rest) = (value.within? names).bind fun below => below.within? rest := by
  induction names generalizing value with
  | nil => rw [List.nil_append, within?_nil, Option.bind_some]
  | cons name names ih =>
    cases value with
    | document members =>
      rw [List.cons_append, within?_document_cons, within?_document_cons, Option.bind_assoc]
      simp only [ih]
    | _ =>
      rw [List.cons_append, within?_cons_of_ne_document (by rintro _ ⟨⟩),
        within?_cons_of_ne_document (by rintro _ ⟨⟩), Option.bind_none]

/-- Where names lead on from, there is a document. -/
theorem exists_eq_document_of_within? {value below : Value} {names : List String} (hne : names ≠ [])
    (h : value.within? names = some below) : ∃ members, value = .document members := by
  obtain ⟨name, others, rfl⟩ := List.exists_cons_of_ne_nil hne
  cases value with
  | document members => exact ⟨members, rfl⟩
  | _ =>
    rw [within?_cons_of_ne_document (by rintro _ ⟨⟩)] at h
    cases h

/-- What names lead through is a document. -/
theorem exists_document_of_within? {value below : Value} {names rest : List String}
    (hrest : rest ≠ []) (h : value.within? (names ++ rest) = some below) :
    ∃ members, value.within? names = some (.document members) := by
  rw [within?_append, Option.bind_eq_some_iff] at h
  obtain ⟨inner, hinner, hbelow⟩ := h
  obtain ⟨members, rfl⟩ := exists_eq_document_of_within? hrest hbelow
  exact ⟨members, hinner⟩

end Value

namespace Document

variable {document : Document} {value : Value} {path names rest : List String}

/-! ## Putting a value at a path -/

/-- The document under a name; an empty one when there is no document. -/
def inner (document : Document) (name : String) : Document :=
  match document.get? name with
  | some (.document members) => members
  | _ => []

/-- A value that is put behind a name is put into the document under the name. -/
theorem putAt_cons (document : Document) (value : Value) (name : String) (hrest : rest ≠ []) :
    document.putAt value (name :: rest) =
      document.insert name (.document ((document.inner name).putAt value rest)) := by
  obtain ⟨next, others, rfl⟩ := List.exists_cons_of_ne_nil hrest
  rfl

/-- Names lead on from a name as they lead into the document under it. -/
theorem within?_inner (document : Document) (name : String) (hne : names ≠ []) :
    (Value.document (document.inner name)).within? names =
      (document.get? name).bind fun below => below.within? names := by
  obtain ⟨first, others, rfl⟩ := List.exists_cons_of_ne_nil hne
  cases hmember : document.get? name with
  | none => simp [inner, hmember]
  | some member =>
    cases member with
    | document members => simp [inner, hmember]
    | _ =>
      have hnone : document.inner name = [] := by simp [inner, hmember]
      rw [hnone, Value.within?_document_cons, Entries.get?_nil, Option.bind_none, Option.bind_some,
        Value.within?_cons_of_ne_document (by rintro _ ⟨⟩)]

/-- Other members are left as they are. -/
theorem get?_putAt_of_ne {name other : String} (h : other ≠ name) :
    (document.putAt value (name :: rest)).get? other = document.get? other := by
  by_cases hrest : rest = []
  · subst hrest
    exact Entries.get?_insert_of_ne document h value
  · rw [putAt_cons document value name hrest, Entries.get?_insert_of_ne _ h]

/-- The first name of the path has a member then. -/
theorem isSome_get?_putAt_self (document : Document) (value : Value) (name : String)
    (rest : List String) : ((document.putAt value (name :: rest)).get? name).isSome := by
  by_cases hrest : rest = []
  · subst hrest
    simp [putAt]
  · rw [putAt_cons document value name hrest, Entries.get?_insert_self]
    rfl

/-- What is at the path then is the value, and what is below is what is in the value. -/
theorem within?_putAt_append (hne : path ≠ []) (rest : List String) :
    (Value.document (document.putAt value path)).within? (path ++ rest) = value.within? rest := by
  induction path generalizing document with
  | nil => exact absurd rfl hne
  | cons name names ih =>
    by_cases hnames : names = []
    · subst hnames
      simp [putAt]
    · rw [putAt_cons document value name hnames, List.cons_append, Value.within?_document_cons,
        Entries.get?_insert_self, Option.bind_some, ih hnames]

/-- What the path leads through is a document then. -/
theorem exists_within?_putAt (hrest : rest ≠ []) : ∃ members,
    (Value.document (document.putAt value (names ++ rest))).within? names =
      some (.document members) := by
  induction names generalizing document with
  | nil => exact ⟨_, Value.within?_nil _⟩
  | cons name names ih =>
    rw [List.cons_append, putAt_cons document value name (by simp [hrest]),
      Value.within?_document_cons, Entries.get?_insert_self, Option.bind_some]
    exact ih

/-- What is at a place that the path does not lead to, through or from is left as it is. -/
theorem within?_putAt_of_diverge (hbelow : ¬ path <+: names) (habove : ¬ names <+: path) :
    (Value.document (document.putAt value path)).within? names =
      (Value.document document).within? names := by
  induction path generalizing document names with
  | nil => exact absurd List.nil_prefix hbelow
  | cons name path ih =>
    cases names with
    | nil => exact absurd List.nil_prefix habove
    | cons other names =>
      rw [Value.within?_document_cons, Value.within?_document_cons]
      by_cases hother : other = name
      · -- The two start alike, so they part further on, and neither ends here.
        subst hother
        rw [List.cons_prefix_cons, not_and] at hbelow habove
        have hpath : path ≠ [] := by
          rintro rfl
          exact hbelow rfl List.nil_prefix
        have hnames : names ≠ [] := by
          rintro rfl
          exact habove rfl List.nil_prefix
        rw [putAt_cons document value other hpath, Entries.get?_insert_self, Option.bind_some,
          ih (hbelow rfl) (habove rfl), within?_inner document other hnames]
      · rw [get?_putAt_of_ne hother]

/-- A value that is put where it is already changes nothing. -/
theorem putAt_eq_self (hne : path ≠ [])
    (h : (Value.document document).within? path = some value) :
    document.putAt value path = document := by
  induction path generalizing document with
  | nil => exact absurd rfl hne
  | cons name rest ih =>
    rw [Value.within?_document_cons, Option.bind_eq_some_iff] at h
    obtain ⟨member, hmember, hvalue⟩ := h
    by_cases hrest : rest = []
    · subst hrest
      rw [Value.within?_nil, Option.some_inj] at hvalue
      subst hvalue
      exact Entries.insert_of_get? hmember
    · -- The value was found further on, so there is a document to put it into.
      obtain ⟨members, rfl⟩ := Value.exists_eq_document_of_within? hrest hvalue
      have hinner : document.inner name = members := by simp [inner, hmember]
      rw [putAt_cons document value name hrest, hinner, ih hrest hvalue]
      exact Entries.insert_of_get? hmember

/-! ## Removing the value at a path -/

end Document

namespace Value

/-- A value without what is at a path inside it. -/
def without (path : List String) : Value → Value
  | .document members => .document (Document.removeAt members path)
  | other => other

end Value

namespace Document

/-- What is removed behind a name is removed from the value under the name, and other members are left as
they are. -/
theorem get?_removeAt_cons (document : Document) (name other : String) (hrest : rest ≠ []) :
    (document.removeAt (name :: rest)).get? other =
      if other = name then (document.get? name).map (Value.without rest)
      else document.get? other := by
  obtain ⟨next, others, rfl⟩ := List.exists_cons_of_ne_nil hrest
  by_cases hother : other = name
  · subst hother
    cases hmember : document.get? other with
    | none => simp [removeAt, hmember]
    | some member => cases member <;> simp [removeAt, hmember, Value.without]
  · cases hmember : document.get? name with
    | none => simp [removeAt, hmember, hother]
    | some member =>
      cases member <;> simp [removeAt, hmember, hother, Entries.get?_insert_of_ne]

end Document

namespace Value

variable {value : Value} {path names rest : List String}

/-- Nothing is at the path then, and nothing below. -/
theorem within?_without_append (hne : path ≠ []) (rest : List String) :
    (value.without path).within? (path ++ rest) = none := by
  induction path generalizing value with
  | nil => exact absurd rfl hne
  | cons name path ih =>
    cases value with
    | document members =>
      rw [without, List.cons_append, within?_document_cons]
      by_cases hpath : path = []
      · subst hpath
        rw [Document.removeAt, Entries.get?_erase_self, Option.bind_none]
      · rw [Document.get?_removeAt_cons members name name hpath, if_pos rfl]
        cases Entries.get? members name with
        | none => rfl
        | some member => exact ih hpath
    | _ => exact within?_cons_of_ne_document (by rintro _ ⟨⟩) _ _

/-- What the path leads through is there then if it was there before. -/
theorem isSome_within?_without (hrest : rest ≠ []) :
    ((value.without (names ++ rest)).within? names).isSome = (value.within? names).isSome := by
  induction names generalizing value with
  | nil => simp
  | cons name names ih =>
    cases value with
    | document members =>
      rw [without, List.cons_append, within?_document_cons, within?_document_cons,
        Document.get?_removeAt_cons members name name (by simp [hrest]), if_pos rfl]
      cases Entries.get? members name with
      | none => rfl
      | some member => exact ih
    | _ => rfl

/-- What is at a place that the path does not lead to, through or from is left as it is. -/
theorem within?_without_of_diverge (hbelow : ¬ path <+: names) (habove : ¬ names <+: path) :
    (value.without path).within? names = value.within? names := by
  induction path generalizing value names with
  | nil => exact absurd List.nil_prefix hbelow
  | cons name path ih =>
    cases names with
    | nil => exact absurd List.nil_prefix habove
    | cons other names =>
      cases value with
      | document members =>
        rw [without, within?_document_cons, within?_document_cons]
        rw [List.cons_prefix_cons, not_and] at hbelow habove
        by_cases hpath : path = []
        · subst hpath
          have hother : other ≠ name := fun hsame => hbelow hsame.symm List.nil_prefix
          rw [Document.removeAt, Entries.get?_erase_of_ne members hother]
        · rw [Document.get?_removeAt_cons members name other hpath]
          split
          case isTrue hsame =>
            subst hsame
            cases Entries.get? members other with
            | none => rfl
            | some member => exact ih (hbelow rfl) (habove rfl)
          case isFalse => rfl
      | _ => rfl

end Value

/-! ## What is shown and hidden -/

namespace Document

/-- A dotted path leads where its tokens lead. -/
theorem lookup?_eq_within? (document : Document) (path : String) :
    document.lookup? path = (Value.document document).within? (Text.split '.' path) :=
  valueAt?_eq_within? document (Text.split_ne_nil '.' path)

/-- The places in a document that paths lead to; a path that leads nowhere has none. -/
def places (document : Document) (paths : List String) : List (List String) :=
  (paths.filter fun path => (document.lookup? path).isSome).map (Text.split '.')

/-- One more path that leads somewhere leads to one more place. -/
theorem places_append_of_ne_none {document : Document} {path : String}
    (h : document.lookup? path ≠ none) (paths : List String) :
    document.places (paths ++ [path]) = document.places paths ++ [Text.split '.' path] := by
  simp [places, Option.isSome_iff_ne_none.mpr h]

/-- One more path that leads nowhere leads to no other place. -/
theorem places_append_of_eq_none {document : Document} {path : String}
    (h : document.lookup? path = none) (paths : List String) :
    document.places (paths ++ [path]) = document.places paths := by
  simp [places, h]

/-- What leads on to a place is a document. -/
theorem exists_document_of_mem_places {document : Document} {paths : List String}
    {place : List String} {path : String} (hplace : place ∈ document.places paths)
    (hstarts : Text.split '.' path <+: place) (hne : Text.split '.' path ≠ place) :
    ∃ members, document.lookup? path = some (.document members) := by
  obtain ⟨other, hother, rfl⟩ := List.mem_map.mp hplace
  obtain ⟨value, hvalue⟩ := Option.isSome_iff_exists.mp (List.mem_filter.mp hother).2
  obtain ⟨rest, hrest, happend⟩ := exists_append_of_starts_of_ne hstarts hne
  rw [lookup?_eq_within?, ← happend] at hvalue
  rw [lookup?_eq_within?]
  exact Value.exists_document_of_within? hrest hvalue

end Document

namespace Projection

variable {source shown : Document} {new path : String}

/-! ### One path more -/

/-- Copying what is there already changes nothing. -/
theorem reveal_eq_self (h : shown.lookup? new = source.lookup? new) :
    reveal source shown new = shown := by
  rw [reveal]
  split
  case h_1 value hvalue =>
    rw [hvalue, Document.lookup?_eq_within?] at h
    exact Document.putAt_eq_self (Text.split_ne_nil '.' new) h
  case h_2 => rfl

/-- Where the path that is copied leads, and below, there is what there is in the source. -/
theorem lookup?_reveal_below (hnew : source.lookup? new ≠ none)
    (h : Text.split '.' new <+: Text.split '.' path) :
    (reveal source shown new).lookup? path = source.lookup? path := by
  obtain ⟨value, hvalue⟩ := Option.ne_none_iff_exists'.mp hnew
  obtain ⟨rest, hrest⟩ := h
  rw [reveal, hvalue]
  rw [Document.lookup?_eq_within?] at hvalue
  rw [Document.lookup?_eq_within?, Document.lookup?_eq_within?, ← hrest,
    Document.within?_putAt_append (Text.split_ne_nil '.' new), Value.within?_append, hvalue,
    Option.bind_some]

/-- What leads on to the path that is copied is a document. -/
theorem exists_lookup?_reveal (hnew : source.lookup? new ≠ none)
    (h : Text.split '.' path <+: Text.split '.' new) (hne : Text.split '.' path ≠ Text.split '.' new) :
    ∃ members, (reveal source shown new).lookup? path = some (.document members) := by
  obtain ⟨value, hvalue⟩ := Option.ne_none_iff_exists'.mp hnew
  obtain ⟨rest, hrest, happend⟩ := exists_append_of_starts_of_ne h hne
  rw [reveal, hvalue, Document.lookup?_eq_within?, ← happend]
  exact Document.exists_within?_putAt hrest

/-- Elsewhere, copying changes nothing. -/
theorem lookup?_reveal_of_diverge (hbelow : ¬ Text.split '.' new <+: Text.split '.' path)
    (habove : ¬ Text.split '.' path <+: Text.split '.' new) :
    (reveal source shown new).lookup? path = shown.lookup? path := by
  rw [reveal]
  split
  case h_1 value _ =>
    rw [Document.lookup?_eq_within?, Document.lookup?_eq_within?,
      Document.within?_putAt_of_diverge hbelow habove]
  case h_2 => rfl

/-- Dropping a path leaves a document without what is there. -/
theorem document_hide (shown : Document) (new : String) :
    Value.document (hide shown new) = (Value.document shown).without (Text.split '.' new) := rfl

/-- Where the path that is dropped leads, and below, there is nothing. -/
theorem lookup?_hide_below (h : Text.split '.' new <+: Text.split '.' path) :
    (hide shown new).lookup? path = none := by
  obtain ⟨rest, hrest⟩ := h
  rw [Document.lookup?_eq_within?, document_hide, ← hrest]
  exact Value.within?_without_append (Text.split_ne_nil '.' new) rest

/-- What leads on to the path that is dropped stays, with less in it. -/
theorem isSome_lookup?_hide (h : Text.split '.' path <+: Text.split '.' new)
    (hne : Text.split '.' path ≠ Text.split '.' new) :
    ((hide shown new).lookup? path).isSome = (shown.lookup? path).isSome := by
  obtain ⟨rest, hrest, happend⟩ := exists_append_of_starts_of_ne h hne
  rw [Document.lookup?_eq_within?, Document.lookup?_eq_within?, document_hide, ← happend]
  exact Value.isSome_within?_without hrest

/-- Elsewhere, dropping changes nothing. -/
theorem lookup?_hide_of_diverge (hbelow : ¬ Text.split '.' new <+: Text.split '.' path)
    (habove : ¬ Text.split '.' path <+: Text.split '.' new) :
    (hide shown new).lookup? path = shown.lookup? path := by
  rw [Document.lookup?_eq_within?, Document.lookup?_eq_within?, document_hide]
  exact Value.within?_without_of_diverge hbelow habove

/-! ### All paths -/

/-- What is shown at a path when the values at some places of a source are shown. -/
structure Shows (source shown : Document) (places : List (List String)) (path : String) : Prop where
  /-- At a place, and below it, there is what there is in the source. -/
  below : ∀ place ∈ places, place <+: Text.split '.' path →
    shown.lookup? path = source.lookup? path
  /-- Where a path goes on to a place, there is a document. -/
  above : ∀ place ∈ places, Text.split '.' path <+: place → Text.split '.' path ≠ place →
    ∃ members, shown.lookup? path = some (.document members)
  /-- Elsewhere there is nothing. -/
  apart : (∀ place ∈ places, ¬ place <+: Text.split '.' path ∧ ¬ Text.split '.' path <+: place) →
    shown.lookup? path = none

/-- What is shown at a path when the values at some places of a source are hidden. -/
structure Hides (source shown : Document) (places : List (List String)) (path : String) : Prop where
  /-- At a place, and below it, there is nothing. -/
  below : ∀ place ∈ places, place <+: Text.split '.' path → shown.lookup? path = none
  /-- Elsewhere there is something where there is something in the source. -/
  above : (∀ place ∈ places, ¬ place <+: Text.split '.' path) →
    ((shown.lookup? path).isSome ↔ (source.lookup? path).isSome)
  /-- It is the same, unless the path goes on to a place. -/
  apart : (∀ place ∈ places, ¬ place <+: Text.split '.' path ∧ ¬ Text.split '.' path <+: place) →
    shown.lookup? path = source.lookup? path

/-- Whether a path leads to the identifier or into it. -/
def LeadsToId (path : String) : Prop := (Text.split '.' path).head? = some idField

/-- A path that goes on to one that leads to the identifier leads there too. -/
theorem LeadsToId.of_leadsOn (hnew : LeadsToId new) (h : Text.split '.' path <+: Text.split '.' new) :
    LeadsToId path := by
  obtain ⟨rest, hrest⟩ := h
  rw [LeadsToId, ← hrest, List.head?_append_of_ne_nil _ (Text.split_ne_nil '.' path)] at hnew
  exact hnew

/-- What is shown when a path that leads somewhere is copied after others. -/
theorem Shows.reveal {paths : List String}
    (h : ∀ path, ¬ LeadsToId path → Shows source shown (source.places paths) path)
    (hnew : source.lookup? new ≠ none) (hpath : ¬ LeadsToId path) :
    Shows source (reveal source shown new) (source.places (paths ++ [new])) path := by
  have hlast : Text.split '.' new ∈ source.places (paths ++ [new]) := by
    simp [Document.places_append_of_ne_none hnew]
  by_cases hbelow : Text.split '.' new <+: Text.split '.' path
  · have hlook : (Projection.reveal source shown new).lookup? path = source.lookup? path :=
      lookup?_reveal_below hnew hbelow
    refine ⟨fun _ _ _ => hlook, fun place hplace hstarts hne => ?_, fun hapart => ?_⟩
    · rw [hlook]
      exact Document.exists_document_of_mem_places hplace hstarts hne
    · exact absurd hbelow (hapart _ hlast).1
  by_cases habove : Text.split '.' path <+: Text.split '.' new
  · have hne : Text.split '.' path ≠ Text.split '.' new := fun heq => hbelow (heq ▸ List.prefix_rfl)
    refine ⟨?_, fun _ _ _ _ => exists_lookup?_reveal hnew habove hne,
      fun hapart => absurd habove (hapart _ hlast).2⟩
    rw [Document.places_append_of_ne_none hnew]
    refine List.forall_mem_append.mpr ⟨fun place hplace hstarts => ?_,
      List.forall_mem_singleton.mpr fun hstarts => absurd hstarts hbelow⟩
    -- The value was copied with a path that leads through here, and is copied again.
    have hid : ¬ LeadsToId new := fun hid => hpath (hid.of_leadsOn habove)
    rw [reveal_eq_self ((h new hid).below place hplace (hstarts.trans habove))]
    exact (h path hpath).below place hplace hstarts
  · have hlook : (Projection.reveal source shown new).lookup? path = shown.lookup? path :=
      lookup?_reveal_of_diverge hbelow habove
    have hshown := h path hpath
    rw [Document.places_append_of_ne_none hnew]
    refine ⟨List.forall_mem_append.mpr ⟨fun place hplace hstarts => ?_,
        List.forall_mem_singleton.mpr fun hstarts => absurd hstarts hbelow⟩,
      List.forall_mem_append.mpr ⟨fun place hplace hstarts hne => ?_,
        List.forall_mem_singleton.mpr fun hstarts => absurd hstarts habove⟩, fun hapart => ?_⟩
    · rw [hlook, hshown.below place hplace hstarts]
    · rw [hlook]
      exact hshown.above place hplace hstarts hne
    · rw [hlook]
      exact hshown.apart (List.forall_mem_append.mp hapart).1

/-- What is shown when paths are copied one after the other to a start that shows the identifier at
most. -/
theorem shows_foldl_reveal {start : Document} (paths : List String)
    (hstart : ∀ path, ¬ LeadsToId path → start.lookup? path = none) (path : String)
    (hpath : ¬ LeadsToId path) :
    Shows source (paths.foldl (reveal source) start) (source.places paths) path := by
  -- From the last path: it is copied to what the ones before it have left.
  induction paths using List.reverseRecOn generalizing path with
  | nil => exact ⟨nofun, nofun, fun _ => hstart path hpath⟩
  | append_singleton paths new ih =>
    rw [List.foldl_append, List.foldl_cons, List.foldl_nil]
    cases hnew : source.lookup? new with
    | none =>
      have hsame : reveal source (paths.foldl (reveal source) start) new =
          paths.foldl (reveal source) start := by rw [reveal, hnew]
      rw [hsame, Document.places_append_of_eq_none hnew]
      exact ih path hpath
    | some value => exact Shows.reveal ih (by simp [hnew]) hpath

/-- What is shown when one more path is dropped. -/
theorem Hides.hide {places : List (List String)} (h : Hides source shown places path)
    (new : String) : Hides source (hide shown new) (places ++ [Text.split '.' new]) path := by
  have hlast : Text.split '.' new ∈ places ++ [Text.split '.' new] := by simp
  by_cases hbelow : Text.split '.' new <+: Text.split '.' path
  · exact ⟨fun _ _ _ => lookup?_hide_below hbelow, fun hnone => absurd hbelow (hnone _ hlast),
      fun hapart => absurd hbelow (hapart _ hlast).1⟩
  by_cases habove : Text.split '.' path <+: Text.split '.' new
  · have hne : Text.split '.' path ≠ Text.split '.' new := fun heq => hbelow (heq ▸ List.prefix_rfl)
    have hsome : ((Projection.hide shown new).lookup? path).isSome = (shown.lookup? path).isSome :=
      isSome_lookup?_hide habove hne
    refine ⟨List.forall_mem_append.mpr ⟨fun place hplace hstarts => ?_,
      List.forall_mem_singleton.mpr fun hstarts => absurd hstarts hbelow⟩, fun hnone => ?_,
      fun hapart => absurd habove (hapart _ hlast).2⟩
    · rw [h.below place hplace hstarts] at hsome
      exact Option.isNone_iff_eq_none.mp (by simpa using hsome)
    · rw [hsome]
      exact h.above (List.forall_mem_append.mp hnone).1
  · have hlook : (Projection.hide shown new).lookup? path = shown.lookup? path :=
      lookup?_hide_of_diverge hbelow habove
    refine ⟨List.forall_mem_append.mpr ⟨fun place hplace hstarts => ?_,
      List.forall_mem_singleton.mpr fun hstarts => absurd hstarts hbelow⟩, fun hnone => ?_,
      fun hapart => ?_⟩
    · rw [hlook, h.below place hplace hstarts]
    · rw [hlook]
      exact h.above (List.forall_mem_append.mp hnone).1
    · rw [hlook]
      exact h.apart (List.forall_mem_append.mp hapart).1

/-- What is shown when paths are dropped one after the other. -/
theorem hides_foldl_hide (paths : List String) (path : String) :
    Hides source (paths.foldl hide source) (paths.map (Text.split '.')) path := by
  induction paths using List.reverseRecOn with
  | nil => exact ⟨nofun, fun _ => Iff.rfl, fun _ => rfl⟩
  | append_singleton paths new ih =>
    rw [List.foldl_append, List.foldl_cons, List.foldl_nil, List.map_append, List.map_singleton]
    exact ih.hide new

/-! ### Projections -/

/-- The document that a projection copies fields to: the identifier, if there is one and it is not
excluded. -/
def start (projection : Projection) (document : Document) : Document :=
  match projection.keepsId, document.get? idField with
  | true, some id => [(idField, id)]
  | _, _ => []

/-- A projection that includes fields copies them one after the other. -/
theorem apply_eq_foldl_reveal {projection : Projection} (h : projection.isInclusive)
    (document : Document) : projection.apply document =
      projection.inclusions.foldl (reveal document) (projection.start document) := by
  have hfields : projection.isEmpty = false := by
    rw [isInclusive] at h
    rw [isEmpty]
    cases hnone : projection.fields with
    | nil => simp [hnone] at h
    | cons entry entries => rfl
  rw [apply, hfields, h]
  rfl

/-- A projection that includes fields copies them to a document with the identifier at most. -/
theorem apply_of_isInclusive {projection : Projection} (h : projection.isInclusive)
    (document : Document) : ∃ start : Document, (∀ name ≠ idField, start.get? name = none) ∧
      projection.apply document = projection.inclusions.foldl (reveal document) start := by
  refine ⟨projection.start document, ?_, apply_eq_foldl_reveal h document⟩
  intro name hname
  rw [start]
  split
  case h_1 id _ _ => simp [Ne.symm hname]
  case h_2 => rfl

/-- A projection that includes no fields drops those that it excludes. -/
theorem apply_of_isInclusive_eq_false {projection : Projection} (h : projection.isInclusive = false)
    (document : Document) :
    projection.apply document = projection.exclusions.foldl hide document := by
  rw [apply, h]
  split
  case isTrue hempty =>
    have hnone : projection.fields = [] := List.isEmpty_iff.mp hempty
    simp [exclusions, hnone]
  case isFalse => rfl

/-- What a projection shows of a document at a path, however the listed paths are ordered, repeated and
led through each other. If it includes fields, and the path does not lead to the identifier: what is in the
document there, at the places of the included paths and below; documents on the way to them; and nothing
else. If it includes none: nothing at the places of the excluded paths and below; something on the way to
them where the document has something; and what is in the document elsewhere. -/
theorem apply_shows (projection : Projection) (document : Document) (path : String) :
    (projection.isInclusive → ¬ LeadsToId path →
      Shows document (projection.apply document) (document.places projection.inclusions) path) ∧
    (projection.isInclusive = false →
      Hides document (projection.apply document) (projection.exclusions.map (Text.split '.')) path) := by
  constructor
  · intro hinclusive hpath
    obtain ⟨start, hstart, happly⟩ := apply_of_isInclusive hinclusive document
    rw [happly]
    refine shows_foldl_reveal _ (fun path hpath => ?_) path hpath
    obtain ⟨name, others, hsplit⟩ := List.exists_cons_of_ne_nil (Text.split_ne_nil '.' path)
    have hname : name ≠ idField := by
      rintro rfl
      exact hpath (by rw [LeadsToId, hsplit, List.head?_cons])
    rw [Document.lookup?_eq_within?, hsplit, Value.within?_document_cons, hstart name hname,
      Option.bind_none]
  · intro hnone
    rw [apply_of_isInclusive_eq_false hnone]
    exact hides_foldl_hide _ path

/-- A document with a document in it. -/
def parts : Document :=
  [(idField, .int32 7), ("a", .document [("b", .int32 1), ("c", .int32 2)]), ("e", .int32 5)]

/-- A projection of one field in the inner document, listed twice, and of one that is not there. -/
def oneField (included : Bool) : Projection :=
  ⟨[("a.b", included), ("x.y", included), ("a.b", included)]⟩

/-- The field is shown and nothing beside it, or it is hidden and nothing else. -/
theorem apply_shows_parts :
    ((oneField true).apply parts).lookup? "a.b" = some (.int32 1) ∧
      ((oneField true).apply parts).lookup? "a.c" = none ∧
      ((oneField false).apply parts).lookup? "a.b" = none ∧
      ((oneField false).apply parts).lookup? "a.c" = some (.int32 2) := by
  have hinclusive : (oneField true).isInclusive := by decide
  have hnone : (oneField false).isInclusive = false := by decide
  have hb : ¬ LeadsToId "a.b" := by rw [LeadsToId]; decide
  have hc : ¬ LeadsToId "a.c" := by rw [LeadsToId]; decide
  have hplaces : parts.places (oneField true).inclusions = [["a", "b"], ["a", "b"]] := rfl
  have hshown := (apply_shows (oneField true) parts "a.b").1 hinclusive hb
  have habsent := (apply_shows (oneField true) parts "a.c").1 hinclusive hc
  have hhidden := (apply_shows (oneField false) parts "a.b").2 hnone
  have hkept := (apply_shows (oneField false) parts "a.c").2 hnone
  rw [hplaces] at hshown habsent
  refine ⟨(hshown.below ["a", "b"] List.mem_cons_self (by decide)).trans rfl, ?_,
    hhidden.below ["a", "b"] List.mem_cons_self (by decide), ?_⟩
  · exact habsent.apart (by decide)
  · exact (hkept.apart (by decide)).trans rfl

end Projection

end RestArchive
