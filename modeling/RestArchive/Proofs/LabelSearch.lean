import RestArchive.Proofs.Labels
import Mathlib.Data.PFun
import Mathlib.Order.Bounds.Basic

/-! # The search for a label

A label can be looked for without a bound: first the name of the field, then the name with 2, with 3 and
so on behind it, until one is not issued. Nothing in the form of such a search makes it end, so it is a
partial function here. It does end, because finitely many labels cannot cover all numbered names, and with
the very label that is found among the candidates.

Main statement: `searchLabel_ends`. -/

namespace RestArchive

/-- One round of the search: it ends with the name that has the number behind it, or goes on with the
next number. -/
def searchRound (issued : List String) (field : String) (number : Nat) : String ⊕ Nat :=
  if numberedLabel field number ∈ issued then .inr (number + 1)
  else .inl (numberedLabel field number)

/-- The rounds of the search from a number on. Where they go on forever, there is no result. -/
def searchFrom (issued : List String) (field : String) : Nat →. String :=
  PFun.fix fun number => Part.some (searchRound issued field number)

/-- The search for the label of a field: its name, or the numbers from 2 on. -/
def searchLabel (issued : List String) (field : String) : Part String :=
  if field ∈ issued then searchFrom issued field 2 else Part.some field

/-- The numbers from `start` on that make the name of a field new. -/
def freeNumbers (issued : List String) (field : String) (start : Nat) : Set Nat :=
  {number | start ≤ number ∧ numberedLabel field number ∉ issued}

section

variable {issued : List String} {field : String} {start number : Nat}

/-- The search goes on behind a number that is taken. -/
theorem searchFrom_of_mem (h : numberedLabel field number ∈ issued) :
    searchFrom issued field number = searchFrom issued field (number + 1) := by
  apply PFun.fix_fwd_eq
  rw [searchRound, if_pos h]
  exact Part.mem_some _

/-- The search ends at a number that is free. -/
theorem searchFrom_of_not_mem (h : numberedLabel field number ∉ issued) :
    searchFrom issued field number = Part.some (numberedLabel field number) := by
  rw [Part.eq_some_iff]
  apply PFun.fix_stop
  rw [searchRound, if_neg h]
  exact Part.mem_some _

/-- The search goes on behind numbers that are all taken. -/
theorem searchFrom_add (rounds : Nat)
    (h : ∀ round < rounds, numberedLabel field (start + round) ∈ issued) :
    searchFrom issued field start = searchFrom issued field (start + rounds) := by
  induction rounds with
  | zero => rfl
  | succ rounds ih =>
    have hbefore := ih fun round hround => h round (by omega)
    have hlast := searchFrom_of_mem (h rounds (by omega))
    rw [hbefore, hlast, Nat.add_assoc]

/-- A number below the least free one is taken. -/
theorem mem_of_lt_isLeast (h : IsLeast (freeNumbers issued field start) number) {other : Nat}
    (hstart : start ≤ other) (hlt : other < number) : numberedLabel field other ∈ issued := by
  by_contra hfree
  exact absurd (h.2 ⟨hstart, hfree⟩) (by omega)

/-- The search ends at the least free number. -/
theorem searchFrom_of_isLeast (h : IsLeast (freeNumbers issued field start) number) :
    searchFrom issued field start = Part.some (numberedLabel field number) := by
  have htaken : ∀ round < number - start, numberedLabel field (start + round) ∈ issued :=
    fun round hround => mem_of_lt_isLeast h (by omega) (by omega)
  have hnumber : start + (number - start) = number := Nat.add_sub_cancel' h.1.1
  rw [searchFrom_add _ htaken, hnumber]
  exact searchFrom_of_not_mem h.1.2

/-- The search that finds the name of the field issued comes to no number greater than one more than
the labels issued. -/
theorem number_le_of_isLeast (hfield : field ∈ issued)
    (h : IsLeast (freeNumbers issued field 2) number) : number ≤ issued.length + 1 :=
  number_le_of_labelsBefore_subset
    (labelsBefore_subset hfield fun _ hstart hlt => mem_of_lt_isLeast h hstart hlt)

/-- The label of a field whose name is issued has the least free number from 2 on behind it. -/
theorem exists_isLeast_of_mem (h : field ∈ issued) :
    ∃ number, IsLeast (freeNumbers issued field 2) number ∧
      freeLabel issued field = numberedLabel field number := by
  have hfound := freeLabel_of_mem h
  rw [labelCandidates, List.find?_map] at hfound
  obtain ⟨index, hindex, hlabel⟩ := Option.map_eq_some_iff.mp hfound
  obtain ⟨hfree, -, htaken⟩ := List.find?_range_eq_some.mp hindex
  refine ⟨index + 2, ⟨⟨by omega, by simpa using hfree⟩, ?_⟩, hlabel.symm⟩
  -- A lesser free number would have been found before, since candidates are numbered from 2 on.
  rintro other ⟨hstart, hnew⟩
  by_contra hlt
  have hmem := htaken (other - 2) (by omega)
  simp [Nat.sub_add_cancel hstart, hnew] at hmem

end

/-- What is issued counts as a set. -/
theorem freeLabel_congr {issued others : List String}
    (h : ∀ label, label ∈ issued ↔ label ∈ others) (field : String) :
    freeLabel issued field = freeLabel others field := by
  by_cases hfield : field ∈ issued
  · obtain ⟨number, hleast, hlabel⟩ := exists_isLeast_of_mem hfield
    obtain ⟨other, hother, hsame⟩ := exists_isLeast_of_mem ((h field).mp hfield)
    have hnumbers : freeNumbers issued field 2 = freeNumbers others field 2 := by
      simp only [freeNumbers, h]
    rw [hnumbers] at hleast
    rw [hlabel, hsame, hleast.unique hother]
  · rw [freeLabel_of_not_mem hfield, freeLabel_of_not_mem (mt (h field).mpr hfield)]

/-- The search without a bound ends, whatever is issued, and with the label of the field. That is the
name itself if it is not issued, and else the name with the least number from 2 on behind it that makes
it new, at most one more than the labels issued. It is issued in neither case. -/
theorem searchLabel_ends (issued : List String) (field : String) :
    searchLabel issued field = Part.some (freeLabel issued field) ∧
      (field ∉ issued ∧ freeLabel issued field = field ∨
        field ∈ issued ∧ ∃ number, IsLeast (freeNumbers issued field 2) number ∧
          number ≤ issued.length + 1 ∧ freeLabel issued field = numberedLabel field number) ∧
      freeLabel issued field ∉ issued := by
  by_cases h : field ∈ issued
  · obtain ⟨number, hleast, hlabel⟩ := exists_isLeast_of_mem h
    have hsearch : searchLabel issued field = Part.some (freeLabel issued field) := by
      rw [searchLabel, if_pos h, searchFrom_of_isLeast hleast, hlabel]
    have hbound := number_le_of_isLeast h hleast
    exact ⟨hsearch, Or.inr ⟨h, number, hleast, hbound, hlabel⟩, freeLabel_not_mem issued field⟩
  · have hlabel := freeLabel_of_not_mem h
    have hsearch : searchLabel issued field = Part.some (freeLabel issued field) := by
      rw [searchLabel, if_neg h, hlabel]
    exact ⟨hsearch, Or.inl ⟨h, hlabel⟩, freeLabel_not_mem issued field⟩

end RestArchive
