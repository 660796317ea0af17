import RestArchive.RequestError
import Mathlib.Data.List.Forall2

/-! # The leaves of a failed validation

A failed validation is a tree: an array of documents fails field by field of its elements, to any depth,
and fields may come again, be empty or have the marks of a path in them. A place in the tree says which
entry to go into at each level, so it tells apart whatever the names do not, and places are ordered as
they are reported, depth first. A refused request has one detail for each leaf, at its place in
that order, and none for anything else (`exists_places_of_details`). -/

namespace RestArchive

namespace Validation

/-- Whether a leaf is at a place of a failed validation: `names` are the fields that lead to it, from the
top down, and `message` is its own wording. -/
inductive LeafAt : Validation → List Nat → List String → String → Prop
  /-- A field that is wrong itself. -/
  | field {failure : Validation} {index : Nat} {name message : String}
      (entry : failure[index]? = some (name, .leaf message)) :
      LeafAt failure [index] [name] message
  /-- An array in which no field of an element is wrong. -/
  | empty {failure : Validation} {index : Nat} {name message : String}
      (entry : failure[index]? = some (name, .group message [])) :
      LeafAt failure [index] [name] message
  /-- A leaf below the fields of the elements of an array. -/
  | inside {failure : Validation} {index : Nat} {name own : String} {fields : Validation}
      {place : List Nat} {names : List String} {message : String}
      (entry : failure[index]? = some (name, .group own fields))
      (leaf : LeafAt fields place names message) :
      LeafAt failure (index :: place) (name :: names) message

/-- Whether a leaf is at a place below one field: right there, or below the fields of elements. -/
def LeafBelow (error : FieldError) (place : List Nat) (names : List String) (message : String) :
    Prop :=
  match error with
  | .leaf own => place = [] ∧ names = [] ∧ message = own
  | .group own [] => place = [] ∧ names = [] ∧ message = own
  | .group _ (field :: fields) => LeafAt (field :: fields) place names message

variable {failure fields : Validation} {error : FieldError} {place : List Nat} {names : List String}
  {name message : String}

/-- There is no leaf where nothing is wrong. -/
theorem not_leafAt_nil : ¬ LeafAt [] place names message := by
  intro h
  cases h with
  | field entry | empty entry | inside entry _ => simp at entry

/-- A leaf is at an entry or below one, so its place goes into some entry. -/
theorem LeafAt.exists_cons (h : failure.LeafAt place names message) :
    ∃ index below, place = index :: below := by
  cases h <;> exact ⟨_, _, rfl⟩

/-- A leaf is below an entry exactly when the entry leads to it. -/
theorem leafAt_iff : failure.LeafAt place names message ↔
    ∃ index name error below namesBelow, failure[index]? = some (name, error) ∧
      place = index :: below ∧ names = name :: namesBelow ∧
      LeafBelow error below namesBelow message := by
  constructor
  · intro h
    cases h with
    | field entry => exact ⟨_, _, _, [], [], entry, rfl, rfl, rfl, rfl, rfl⟩
    | empty entry => exact ⟨_, _, _, [], [], entry, rfl, rfl, rfl, rfl, rfl⟩
    | @inside _ _ _ own fields _ _ _ entry leaf =>
      cases fields with
      | nil => exact absurd leaf not_leafAt_nil
      | cons field fields => exact ⟨_, _, _, _, _, entry, rfl, rfl, leaf⟩
  · rintro ⟨index, name, error, below, namesBelow, entry, rfl, rfl, leaf⟩
    match error, entry, leaf with
    | .leaf own, entry, ⟨hplace, hnames, hmessage⟩ =>
      subst hplace hnames hmessage
      exact .field entry
    | .group own [], entry, ⟨hplace, hnames, hmessage⟩ =>
      subst hplace hnames hmessage
      exact .empty entry
    | .group own (field :: fields), entry, leaf => exact .inside entry leaf

/-- A leaf is below the first entry, or it is a leaf of the others, with its place moved on by one. -/
theorem leafAt_cons_iff : LeafAt ((name, error) :: fields) place names message ↔
    (∃ below namesBelow, place = 0 :: below ∧ names = name :: namesBelow ∧
      LeafBelow error below namesBelow message) ∨
    ∃ before, place = before.modifyHead (· + 1) ∧ fields.LeafAt before names message := by
  constructor
  · intro h
    obtain ⟨index, other, found, below, namesBelow, entry, rfl, rfl, leaf⟩ := leafAt_iff.mp h
    cases index with
    | zero =>
      cases entry
      exact Or.inl ⟨below, namesBelow, rfl, rfl, leaf⟩
    | succ index =>
      exact Or.inr ⟨index :: below, rfl,
        leafAt_iff.mpr ⟨index, other, found, below, namesBelow, by simpa using entry, rfl, rfl, leaf⟩⟩
  · rintro (⟨below, namesBelow, rfl, rfl, leaf⟩ | ⟨before, rfl, leaf⟩)
    · exact leafAt_iff.mpr ⟨0, name, error, below, namesBelow, rfl, rfl, rfl, leaf⟩
    · obtain ⟨index, other, found, below, namesBelow, entry, rfl, rfl, hbelow⟩ := leafAt_iff.mp leaf
      exact leafAt_iff.mpr ⟨index + 1, other, found, below, namesBelow, by simpa using entry, rfl, rfl,
        hbelow⟩

/-! ## Lists of leaves -/

/-- Whether a list holds exactly the given leaves, each once and in the order of their places, with the
path that its names make. -/
def Lists (Leaf : List Nat → List String → String → Prop) (path : List String → String)
    (leaves : List (String × String)) : Prop :=
  ∃ places : List (List Nat), places.Pairwise (· < ·) ∧
    (∀ place, place ∈ places ↔ ∃ names message, Leaf place names message) ∧
    List.Forall₂ (fun place leaf => ∃ names message, Leaf place names message ∧
      leaf = (path names, message)) places leaves

/-- One leaf right there is a list of itself. -/
theorem lists_singleton (path : List String → String) (own : String) :
    Lists (fun place names message => place = [] ∧ names = [] ∧ message = own) path
      [(path [], own)] := by
  refine ⟨[[]], List.pairwise_singleton _ _, fun place => ?_, .cons ?_ .nil⟩
  · simp
  · exact ⟨[], own, ⟨rfl, rfl, rfl⟩, rfl⟩

/-- Where nothing is wrong, there is nothing to list. -/
theorem lists_nil (path : List String → String) : Lists (LeafAt []) path [] := by
  refine ⟨[], .nil, fun place => ?_, .nil⟩
  simp [not_leafAt_nil]

/-- Moving places on by one keeps their order. -/
theorem modifyHead_lt {first second : List Nat} (h : first < second) :
    first.modifyHead (· + 1) < second.modifyHead (· + 1) := by
  cases first with
  | nil =>
    cases second with
    | nil => exact absurd h (List.lt_irrefl _)
    | cons index below => exact List.nil_lt_cons _ _
  | cons index below =>
    cases second with
    | nil => exact absurd h (List.not_lt_nil _)
    | cons other below' =>
      rw [List.modifyHead_cons, List.modifyHead_cons, List.cons_lt_cons_iff]
      rcases List.cons_lt_cons_iff.mp h with hlt | ⟨rfl, hbelow⟩
      · exact Or.inl (Nat.succ_lt_succ hlt)
      · exact Or.inr ⟨rfl, hbelow⟩

/-- The leaves below an entry, and then those of the entries behind it, are those of all the entries. -/
theorem lists_cons {path : List String → String} {first others : List (String × String)}
    (hfirst : Lists (LeafBelow error) (fun names => path (name :: names)) first)
    (hothers : Lists fields.LeafAt path others) :
    Lists (LeafAt ((name, error) :: fields)) path (first ++ others) := by
  obtain ⟨placesFirst, horderFirst, hallFirst, heachFirst⟩ := hfirst
  obtain ⟨placesOthers, horderOthers, hallOthers, heachOthers⟩ := hothers
  -- The entry is entry number zero, and those behind it are counted on.
  refine ⟨placesFirst.map (0 :: ·) ++ placesOthers.map (List.modifyHead (· + 1)), ?_, ?_, ?_⟩
  · refine List.pairwise_append.mpr ⟨?_, ?_, ?_⟩
    · refine List.pairwise_map.mpr (horderFirst.imp fun h => ?_)
      exact List.cons_lt_cons_iff.mpr (Or.inr ⟨rfl, h⟩)
    · exact List.pairwise_map.mpr (horderOthers.imp modifyHead_lt)
    · intro early hearly late hlate
      obtain ⟨below, -, rfl⟩ := List.mem_map.mp hearly
      obtain ⟨before, hbefore, rfl⟩ := List.mem_map.mp hlate
      obtain ⟨names, message, hleaf⟩ := (hallOthers before).mp hbefore
      obtain ⟨index, below', rfl⟩ := hleaf.exists_cons
      exact List.cons_lt_cons_iff.mpr (Or.inl (Nat.succ_pos index))
  · intro place
    simp only [List.mem_append, List.mem_map, hallFirst, hallOthers, leafAt_cons_iff]
    constructor
    · rintro (⟨below, ⟨names, message, hleaf⟩, rfl⟩ | ⟨before, ⟨names, message, hleaf⟩, rfl⟩)
      · exact ⟨name :: names, message, Or.inl ⟨below, names, rfl, rfl, hleaf⟩⟩
      · exact ⟨names, message, Or.inr ⟨before, rfl, hleaf⟩⟩
    · rintro ⟨names, message, ⟨below, namesBelow, rfl, rfl, hleaf⟩ | ⟨before, rfl, hleaf⟩⟩
      · exact Or.inl ⟨below, ⟨namesBelow, message, hleaf⟩, rfl⟩
      · exact Or.inr ⟨before, ⟨names, message, hleaf⟩, rfl⟩
  · refine List.rel_append ?_ ?_
    · refine List.forall₂_map_left_iff.mpr (heachFirst.imp ?_)
      rintro below leaf ⟨names, message, hleaf, rfl⟩
      exact ⟨name :: names, message, leafAt_cons_iff.mpr (Or.inl ⟨below, names, rfl, rfl, hleaf⟩), rfl⟩
    · refine List.forall₂_map_left_iff.mpr (heachOthers.imp ?_)
      rintro before leaf ⟨names, message, hleaf, rfl⟩
      exact ⟨names, message, leafAt_cons_iff.mpr (Or.inr ⟨before, rfl, hleaf⟩), rfl⟩

/-! ## Flattening -/

/-- The path that names make below a path. -/
def pathBelow (path : String) (names : List String) : String :=
  names.foldl (fun above name => above ++ ".*." ++ name) path

/-- Below the first name, the others make the path that all of them make joined. -/
theorem pathBelow_eq_intercalate (name : String) (names : List String) :
    pathBelow name names = ".*.".intercalate (name :: names) := by
  rw [pathBelow, String.intercalate]
  induction names generalizing name with
  | nil => rfl
  | cons next names ih => exact ih (name ++ ".*." ++ next)

mutual

/-- Below one field, its leaves are listed. -/
theorem lists_fieldLeaves (path : String) : ∀ error : FieldError,
    Lists (LeafBelow error) (pathBelow path) (fieldLeaves path error)
  | .leaf message => lists_singleton _ message
  | .group message [] => lists_singleton _ message
  | .group _ (field :: fields) => lists_leavesBelow path (field :: fields)

/-- Below the elements of an array, the leaves of their fields are listed. -/
theorem lists_leavesBelow (path : String) : ∀ fields : List (String × FieldError),
    Lists (LeafAt fields) (pathBelow path) (leavesBelow path fields)
  | [] => lists_nil _
  | (field, error) :: fields =>
    lists_cons (lists_fieldLeaves (path ++ ".*." ++ field) error) (lists_leavesBelow path fields)

end

/-- Flattening a failed validation lists its leaves. -/
theorem lists_flatten (failure : Validation) :
    Lists failure.LeafAt ".*.".intercalate failure.flatten := by
  induction failure with
  | nil => exact lists_nil _
  | cons entry failure ih =>
    obtain ⟨name, error⟩ := entry
    refine lists_cons ?_ ih
    simp only [← pathBelow_eq_intercalate]
    exact lists_fieldLeaves name error

mutual

/-- Below one field there is a leaf. -/
theorem fieldLeaves_ne_nil (path : String) : ∀ error : FieldError, fieldLeaves path error ≠ []
  | .leaf _ => List.cons_ne_nil _ _
  | .group _ [] => List.cons_ne_nil _ _
  | .group _ (field :: fields) => leavesBelow_ne_nil path (field :: fields) (List.cons_ne_nil _ _)

/-- Below the elements of an array there is a leaf, if one of their fields is wrong. -/
theorem leavesBelow_ne_nil (path : String) : ∀ fields : List (String × FieldError), fields ≠ [] →
    leavesBelow path fields ≠ []
  | [] => absurd rfl
  | (field, error) :: _ => fun _ hnil =>
    fieldLeaves_ne_nil (path ++ ".*." ++ field) error (List.append_eq_nil_iff.mp hnil).1

end

/-- A failed validation has a leaf, if something is wrong at all. -/
theorem flatten_eq_nil_iff (failure : Validation) : failure.flatten = [] ↔ failure = [] := by
  cases failure with
  | nil => exact iff_of_true rfl rfl
  | cons entry failure =>
    obtain ⟨name, error⟩ := entry
    refine iff_of_false (fun hnil => ?_) (List.cons_ne_nil _ _)
    exact fieldLeaves_ne_nil name error (List.append_eq_nil_iff.mp hnil).1

/-- The details of a request whose document fails validation are the leaves of the failure, each once and
in the order in which they are reported, depth first: a leaf has a detail of its own for the body, with
its wording and with the names that lead to it, joined by a star between dots. There is no other detail,
and there is none at all exactly when nothing is wrong. -/
theorem exists_places_of_details (failure : Validation) :
    (∃ places : List (List Nat), places.Pairwise (· < ·) ∧
      (∀ place, place ∈ places ↔ ∃ names message, failure.LeafAt place names message) ∧
      List.Forall₂ (fun place detail => ∃ names message, failure.LeafAt place names message ∧
          detail = ErrorDetail.mk message (some (".*.".intercalate names)) (some "body"))
        places (RequestError.store (.validation failure)).details) ∧
      ((RequestError.store (.validation failure)).details = [] ↔ failure = []) := by
  have hdetails : (RequestError.store (.validation failure)).details =
      failure.flatten.map fun leaf => .ofBody leaf.2 leaf.1 := rfl
  rw [hdetails, List.map_eq_nil_iff]
  refine ⟨?_, flatten_eq_nil_iff failure⟩
  obtain ⟨places, horder, hall, heach⟩ := lists_flatten failure
  refine ⟨places, horder, hall, List.forall₂_map_right_iff.mpr (heach.imp ?_)⟩
  rintro place leaf ⟨names, message, hleaf, rfl⟩
  exact ⟨names, message, hleaf, rfl⟩

end Validation

end RestArchive
