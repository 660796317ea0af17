import RestArchive.Proofs.ShownFields

/-! # Whether a projection shows the identifier

A list of fields excludes the identifier when it holds the text `-_id` (`Projection.keepsId_iff`). Then a
projection that includes no other fields does not show it, and neither does one that includes some, unless
the list also includes a path that leads to the identifier, or into it: the included paths are copied
whether or not the identifier is excluded (`Projection.contains_idField_apply`,
`Projection.apply_excludedAndIncluded`). -/

namespace RestArchive

namespace Projection

variable {source shown : Document} {path : String}

/-! ## The texts of a list -/

/-- The entries of a list are those that its texts write. -/
theorem mem_entriesOfItems_iff {items : List Json} {entry : String × Bool} :
    entry ∈ entriesOfItems items ↔ ∃ text, Json.string text ∈ items ∧ entryOfText text = entry := by
  induction items with
  | nil => simp [entriesOfItems]
  | cons item items ih => cases item <;> simp [entriesOfItems, ih, eq_comm]

/-- A text excludes a field when it is the name of the field behind a hyphen. -/
theorem entryOfText_eq_excluded_iff {text field : String} :
    entryOfText text = (field, false) ↔ text = "-" ++ field := by
  constructor
  · intro h
    rw [entryOfText] at h
    split at h
    case h_1 rest hrest =>
      cases h
      rw [← String.toList_inj, hrest]
      simp
    case h_2 => cases h
  · rintro rfl
    simp [entryOfText]

/-- A path that leads to the identifier is no exclusion. -/
theorem entryOfText_of_leadsToId (h : LeadsToId path) : entryOfText path = (path, true) := by
  rw [entryOfText]
  split
  case h_1 rest hrest =>
    -- The first token would start with the hyphen.
    rw [LeadsToId, Text.split, hrest, Text.pieces_cons_of_ne (by decide)] at h
    cases hpieces : Text.pieces '.' rest with
    | nil => exact absurd hpieces (Text.pieces_ne_nil '.' rest)
    | cons piece others =>
      rw [hpieces, List.modifyHead_cons, List.map_cons, List.head?_cons, Option.some_inj,
        ← String.toList_inj] at h
      simp [idField] at h
  case h_2 => rfl

/-- What is included is the text. -/
theorem eq_of_entryOfText_eq_included {text : String} (h : entryOfText text = (path, true)) :
    text = path := by
  rw [entryOfText] at h
  split at h <;> cases h
  rfl

/-- The projection that a list writes has the entries of the list. -/
theorem fields_of_ofJson {items : List Json} {projection : Projection}
    (h : ofJson (.array items) = .ok projection) : projection.fields = entriesOfItems items := by
  simp only [ofJson] at h
  split at h
  · cases h
  · cases h
    rfl

/-- A projection keeps the identifier when it does not exclude it. -/
theorem keepsId_iff {projection : Projection} :
    projection.keepsId ↔ (idField, false) ∉ projection.fields := by
  rw [keepsId, Bool.not_eq_true', List.any_eq_false]
  constructor
  · exact fun h hmem => h _ hmem (by simp)
  · rintro h ⟨field, included⟩ hmem hexcluded
    rw [Bool.and_eq_true, Bool.not_eq_true', decide_eq_true_eq] at hexcluded
    obtain ⟨rfl, rfl⟩ := hexcluded
    exact h hmem

/-- A path is included when an entry says so. -/
theorem mem_inclusions_iff {projection : Projection} :
    path ∈ projection.inclusions ↔ (path, true) ∈ projection.fields := by
  simp [inclusions]

/-- A path is excluded when an entry says so. -/
theorem mem_exclusions_iff {projection : Projection} :
    path ∈ projection.exclusions ↔ (path, false) ∈ projection.fields := by
  simp [exclusions]

/-! ## Copying and dropping paths -/

/-- After a path that leads to the identifier is copied, the identifier is there; after any other, it is
there if it was before. -/
theorem contains_reveal_iff : (reveal source shown path).contains idField ↔
    shown.contains idField ∨ LeadsToId path ∧ (source.lookup? path).isSome := by
  obtain ⟨name, rest, hsplit⟩ := List.exists_cons_of_ne_nil (Text.split_ne_nil '.' path)
  rw [reveal, LeadsToId, hsplit, List.head?_cons, Option.some_inj]
  cases source.lookup? path with
  | none => simp
  | some value =>
    simp only [Entries.contains]
    by_cases hname : name = idField
    · subst hname
      simp [Document.isSome_get?_putAt_self]
    · simp [hname, Document.get?_putAt_of_ne (Ne.symm hname)]

/-- After paths are copied, the identifier is there if it was before, or one of them led to it. -/
theorem contains_foldl_reveal_iff (paths : List String) :
    (paths.foldl (reveal source) shown).contains idField ↔ shown.contains idField ∨
      ∃ path ∈ paths, LeadsToId path ∧ (source.lookup? path).isSome := by
  induction paths generalizing shown with
  | nil => simp
  | cons path paths ih =>
    rw [List.foldl_cons, ih, contains_reveal_iff, or_assoc]
    simp only [List.mem_cons, exists_eq_or_imp]

/-- Only the path of the identifier itself drops it; one that leads into it does not. -/
theorem contains_hide_iff :
    (hide shown path).contains idField ↔ shown.contains idField ∧ path ≠ idField := by
  obtain ⟨name, rest, hsplit⟩ := List.exists_cons_of_ne_nil (Text.split_ne_nil '.' path)
  rw [hide, hsplit, Entries.contains, Entries.contains]
  by_cases hrest : rest = []
  · -- The path is one name, and the member of that name is dropped.
    subst hrest
    have hname : path = name := by
      have hjoin := Text.join_split '.' path
      rw [hsplit] at hjoin
      exact hjoin.symm.trans (by simp [Text.join])
    subst hname
    rw [Document.removeAt]
    by_cases hid : path = idField
    · subst hid
      simp
    · simp [hid, Entries.get?_erase_of_ne shown (Ne.symm hid)]
  · have hid : path ≠ idField := by
      rintro rfl
      have hone : Text.split '.' idField = [idField] := by decide
      rw [hone, List.cons.injEq] at hsplit
      exact hrest hsplit.2.symm
    rw [Document.get?_removeAt_cons shown name idField hrest, and_iff_left hid]
    split
    case isTrue hname => rw [hname, Option.isSome_map]
    case isFalse => rfl

/-- After paths are dropped, the identifier is there if it was before, and is none of them. -/
theorem contains_foldl_hide_iff (paths : List String) :
    (paths.foldl hide shown).contains idField ↔ shown.contains idField ∧ idField ∉ paths := by
  induction paths generalizing shown with
  | nil => simp
  | cons path paths ih =>
    rw [List.foldl_cons, ih, contains_hide_iff, and_assoc, List.mem_cons, not_or]
    simp only [ne_comm]

/-! ## Projections -/

/-- Where a path of the document leads to the identifier, there is one. -/
theorem contains_of_leadsToId {document : Document} (hid : LeadsToId path)
    (h : (document.lookup? path).isSome) : document.contains idField := by
  obtain ⟨name, rest, hsplit⟩ := List.exists_cons_of_ne_nil (Text.split_ne_nil '.' path)
  rw [LeadsToId, hsplit, List.head?_cons, Option.some_inj] at hid
  rw [Document.lookup?_eq_within?, hsplit, hid, Value.within?_document_cons] at h
  rw [Entries.contains]
  exact Option.isSome_of_isSome_bind h

/-- Fields are copied to a document that has the identifier if it is there and not excluded. -/
theorem contains_start_iff (projection : Projection) (document : Document) :
    (projection.start document).contains idField ↔
      document.contains idField ∧ projection.keepsId := by
  rw [start, Entries.contains, Entries.contains]
  cases projection.keepsId <;> cases document.get? idField <;> simp

/-- A projection shows the identifier of a document that has one if it does not exclude it, or if it
includes fields and some path among them leads to the identifier. -/
theorem contains_apply_iff (projection : Projection) (document : Document) :
    (projection.apply document).contains idField ↔ document.contains idField ∧
      (projection.keepsId ∨ projection.isInclusive ∧
        ∃ path ∈ projection.inclusions, LeadsToId path ∧ (document.lookup? path).isSome) := by
  cases hinclusive : projection.isInclusive with
  | false =>
    rw [apply_of_isInclusive_eq_false hinclusive, contains_foldl_hide_iff, mem_exclusions_iff,
      keepsId_iff]
    simp
  | true =>
    rw [apply_eq_foldl_reveal hinclusive, contains_foldl_reveal_iff, contains_start_iff]
    constructor
    · rintro (⟨hid, hkeeps⟩ | ⟨path, hmem, hleads, hfound⟩)
      · exact ⟨hid, Or.inl hkeeps⟩
      · exact ⟨contains_of_leadsToId hleads hfound, Or.inr ⟨rfl, path, hmem, hleads, hfound⟩⟩
    · rintro ⟨hid, hkeeps | ⟨-, hpath⟩⟩
      · exact Or.inl ⟨hid, hkeeps⟩
      · exact Or.inr hpath

/-- What a list of fields says of the identifier. The projection that it writes keeps the identifier if the
list does not exclude it. The projection shows the identifier of a document that has one if it keeps it, and
otherwise only if it includes fields, and the list has a path that leads to the identifier of the document
or to something inside it. -/
theorem contains_idField_apply {items : List Json} {projection : Projection}
    (h : ofJson (.array items) = .ok projection) (document : Document) :
    (projection.keepsId ↔ Json.string ("-" ++ idField) ∉ items) ∧
      ((projection.apply document).contains idField ↔ document.contains idField ∧
        (projection.keepsId ∨ projection.isInclusive ∧
          ∃ path, Json.string path ∈ items ∧ LeadsToId path ∧ (document.lookup? path).isSome)) := by
  have hentry : ∀ path, (path, true) ∈ projection.fields ∧ LeadsToId path ↔
      Json.string path ∈ items ∧ LeadsToId path := by
    intro path
    rw [fields_of_ofJson h, mem_entriesOfItems_iff]
    constructor
    · rintro ⟨⟨text, hmem, htext⟩, hleads⟩
      rw [eq_of_entryOfText_eq_included htext] at hmem
      exact ⟨hmem, hleads⟩
    · rintro ⟨hmem, hleads⟩
      exact ⟨⟨path, hmem, entryOfText_of_leadsToId hleads⟩, hleads⟩
  constructor
  · rw [keepsId_iff, fields_of_ofJson h, mem_entriesOfItems_iff]
    simp only [entryOfText_eq_excluded_iff, exists_eq_right]
  · rw [contains_apply_iff]
    simp only [mem_inclusions_iff, ← and_assoc, hentry]

/-- A document with an identifier. -/
def named : Document := [(idField, .objectId (.ofNat 7)), ("name", .string "n"), ("age", .int32 3)]

/-- A list that excludes the identifier, and another field, does not show it, though it also includes it. -/
theorem contains_idField_apply_excluded :
    ofJson (.array [.string "_id", .string "-_id", .string "-age"]) =
        .ok ⟨[("_id", true), ("_id", false), ("age", false)]⟩ ∧
      (apply ⟨[("_id", true), ("_id", false), ("age", false)]⟩ named).contains idField = false := by
  have hread : ofJson (.array [.string "_id", .string "-_id", .string "-age"]) =
      .ok ⟨[("_id", true), ("_id", false), ("age", false)]⟩ := by
    rw [← toOption_eq_some_iff]
    decide
  have hshown := (contains_idField_apply hread named).2
  refine ⟨hread, Bool.eq_false_iff.mpr fun hcontains => ?_⟩
  obtain ⟨-, hkeeps | ⟨hinclusive, -⟩⟩ := hshown.mp hcontains
  · exact absurd hkeeps (by decide)
  · exact absurd hinclusive (by decide)

/-- A list that excludes the identifier and includes it, beside another field, shows it, though it does not
keep it. -/
theorem apply_excludedAndIncluded :
    ofJson (.array [.string "_id", .string "-_id", .string "name"]) =
        .ok ⟨[("_id", true), ("_id", false), ("name", true)]⟩ ∧
      (⟨[("_id", true), ("_id", false), ("name", true)]⟩ : Projection).isEmpty = false ∧
      (⟨[("_id", true), ("_id", false), ("name", true)]⟩ : Projection).keepsId = false ∧
      (apply ⟨[("_id", true), ("_id", false), ("name", true)]⟩ named).contains idField := by
  refine ⟨?_, by decide, by decide, by decide⟩
  rw [← toOption_eq_some_iff]
  decide

end Projection

end RestArchive
