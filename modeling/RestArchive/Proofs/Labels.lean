import RestArchive.Path.Scope
import Mathlib.Data.List.Nodup
import Mathlib.Data.List.Perm.Subperm

/-! # Labels

A label for a field is new among those issued, and has no character but those of the field and
decimal digits. Among one more numbers than there are labels, one is free: the numbered names differ
from each other and from the field, so the labels cannot cover them all. -/

namespace RestArchive

/-- Different numbers behind one name give different names. -/
theorem numberedLabel_injective (field : String) : Function.Injective (numberedLabel field) := by
  intro first second h
  have hdigits : Nat.toDigits 10 first = Nat.toDigits 10 second := by
    simpa [numberedLabel] using congrArg String.toList h
  simpa using congrArg (fun digits => Nat.ofDigitChars 10 digits 0) hdigits

/-- A name with a number behind it is another name. -/
theorem numberedLabel_ne (field : String) (number : Nat) : numberedLabel field number ≠ field := by
  intro h
  have hdigits : Nat.toDigits 10 number = [] := by
    simpa [numberedLabel] using congrArg String.toList h
  exact Nat.toDigits_ne_nil hdigits

/-- The names that a search for a label looks at before it comes to a number. -/
def labelsBefore (field : String) (number : Nat) : List String :=
  field :: (List.range' 2 (number - 2)).map (numberedLabel field)

/-- No name is looked at twice. -/
theorem nodup_labelsBefore (field : String) (number : Nat) : (labelsBefore field number).Nodup := by
  refine List.nodup_cons.mpr ⟨?_, List.Nodup.map (numberedLabel_injective field) List.nodup_range'⟩
  intro hmem
  obtain ⟨other, -, hother⟩ := List.mem_map.mp hmem
  exact numberedLabel_ne field other hother

/-- The names before a number are issued if the field is, and each of its names with a lesser number. -/
theorem labelsBefore_subset {issued : List String} {field : String} {number : Nat}
    (hfield : field ∈ issued)
    (h : ∀ other, 2 ≤ other → other < number → numberedLabel field other ∈ issued) :
    labelsBefore field number ⊆ issued := by
  refine List.cons_subset.mpr ⟨hfield, ?_⟩
  intro label hlabel
  obtain ⟨other, hother, rfl⟩ := List.mem_map.mp hlabel
  have hbounds := List.mem_range'_1.mp hother
  exact h other hbounds.1 (by omega)

/-- There are at least as many labels as names before a number if those are all issued. -/
theorem number_le_of_labelsBefore_subset {issued : List String} {field : String} {number : Nat}
    (h : labelsBefore field number ⊆ issued) : number ≤ issued.length + 1 := by
  have hlength := (List.subperm_of_subset (nodup_labelsBefore field number) h).length_le
  rw [labelsBefore, List.length_cons, List.length_map, List.length_range'] at hlength
  omega

/-- The numbered names that a label is looked for among. -/
def labelCandidates (issued : List String) (field : String) : List String :=
  (List.range (issued.length + 1)).map fun number => numberedLabel field (number + 2)

/-- Some numbered name is not issued yet, since the field itself takes up one of the labels. -/
theorem exists_free_candidate {issued : List String} {field : String} (h : field ∈ issued) :
    ∃ label ∈ labelCandidates issued field, label ∉ issued := by
  by_contra hall
  have htaken : ∀ other, 2 ≤ other → other < issued.length + 3 →
      numberedLabel field other ∈ issued := by
    intro other hother hlt
    by_contra hfree
    refine hall ⟨_, List.mem_map.mpr ⟨other - 2, List.mem_range.mpr (by omega), rfl⟩, ?_⟩
    rwa [Nat.sub_add_cancel hother]
  have hle := number_le_of_labelsBefore_subset (labelsBefore_subset h htaken)
  omega

/-- A field that is not issued is its own label. -/
theorem freeLabel_of_not_mem {issued : List String} {field : String} (h : field ∉ issued) :
    freeLabel issued field = field := if_pos h

/-- The label of a field that is issued is the first of its numbered names that is not. -/
theorem freeLabel_of_mem {issued : List String} {field : String} (h : field ∈ issued) :
    (labelCandidates issued field).find? (fun label => label ∉ issued) =
      some (freeLabel issued field) := by
  obtain ⟨label, hmem, hfree⟩ := exists_free_candidate h
  have hsome : ((labelCandidates issued field).find? fun label => label ∉ issued).isSome := by
    rw [List.find?_isSome]
    exact ⟨label, hmem, by simpa using hfree⟩
  obtain ⟨found, hfound⟩ := Option.isSome_iff_exists.mp hsome
  have hlabel : freeLabel issued field = found := by
    rw [freeLabel, if_neg (not_not.mpr h)]
    show ((labelCandidates issued field).find? fun label => label ∉ issued).getD field = found
    rw [hfound, Option.getD_some]
  rw [hfound, hlabel]

/-- The label of a field is new. -/
theorem freeLabel_not_mem (issued : List String) (field : String) :
    freeLabel issued field ∉ issued := by
  by_cases h : field ∈ issued
  · simpa using List.find?_some (freeLabel_of_mem h)
  · rwa [freeLabel_of_not_mem h]

/-- The label of a field is the field itself or the field with a number behind it. -/
theorem freeLabel_eq_or (issued : List String) (field : String) :
    freeLabel issued field = field ∨
      ∃ number, freeLabel issued field = numberedLabel field number := by
  by_cases h : field ∈ issued
  · have hmem := List.mem_of_find?_eq_some (freeLabel_of_mem h)
    obtain ⟨number, -, hnumber⟩ := List.mem_map.mp hmem
    exact Or.inr ⟨number + 2, hnumber.symm⟩
  · exact Or.inl (freeLabel_of_not_mem h)

/-- A name with a number behind it has a dot only if the name has one. -/
theorem dot_not_mem_numberedLabel {field : String} (h : '.' ∉ field.toList) (number : Nat) :
    '.' ∉ (numberedLabel field number).toList := by
  have hdigits : '.' ∉ Nat.toDigits 10 number := by
    intro hdot
    have hdigit := Nat.isDigit_of_mem_toDigits (by decide) (by decide) hdot
    exact absurd hdigit (by decide)
  simp [numberedLabel, h, hdigits]

/-- The label of a field has a dot only if the field has one. -/
theorem dot_not_mem_freeLabel (issued : List String) {field : String} (h : '.' ∉ field.toList) :
    '.' ∉ (freeLabel issued field).toList := by
  rcases freeLabel_eq_or issued field with hlabel | ⟨number, hlabel⟩
  · rwa [hlabel]
  · rw [hlabel]
    exact dot_not_mem_numberedLabel h number

end RestArchive
