import RestArchive.Proofs.SelectedDocuments

/-! # The loops of the store

A search goes through a collection and breaks off as soon as it has found enough; a removal notes the
positions of the documents that are to go, and takes them away from the last one to the first, so that
the positions before stay right; and an update of many documents prepares all of them before it puts the
first one in its place. Each of these loops is written here as it runs, and gives what the function of
`Documents` for it says (`findLoop_eq`, `deleteLoop_eq`, `updateLoop_eq`). -/

namespace RestArchive.Documents

/-! ## The search -/

/-- Whether a search asks for a document. -/
def isSought (filter : Option Filter) (document : Document) : Bool :=
  filter.all fun filter => filter.accepts document

/-- A document as a search shows it. -/
def shown (projection : Option Projection) : Document → Document :=
  projection.elim id Projection.apply

/-- The rounds of a search, behind those that gave the documents `found`. It breaks off before the next
document when there are enough. -/
def findFrom (filter : Option Filter) (projection : Option Projection) (limit : Option Nat)
    (found : List Document) : Documents → List Document
  | [] => found
  | document :: others =>
    if limit.any (· ≤ found.length) then found
    else if isSought filter document then
      findFrom filter projection limit (found ++ [shown projection document]) others
    else findFrom filter projection limit found others

/-- A search as it runs. -/
def findLoop (filter : Option Filter) (projection : Option Projection) (limit : Option Nat)
    (documents : Documents) : List Document :=
  findFrom filter projection limit [] documents

section Find

variable {filter : Option Filter} {projection : Option Projection} {limit : Option Nat}
  {document : Document} {documents : Documents}

/-- A search gives the documents that it asks for, as many as the limit allows, as the projection shows
them. -/
theorem find_eq_map (filter : Option Filter) (projection : Option Projection) (limit : Option Nat)
    (documents : Documents) : documents.find filter projection limit =
      (limit.elim id List.take (List.filter (isSought filter) documents)).map (shown projection) := by
  have hfound : filter.elim documents (fun filter => documents.filter fun document =>
      filter.accepts document) = List.filter (isSought filter) documents := by
    cases filter with
    | none => exact (List.filter_eq_self.mpr fun _ _ => rfl).symm
    | some filter => rfl
  rw [← hfound]
  cases filter <;> cases projection <;> cases limit <;> simp [find, shown, List.map_take]

/-- With a limit of zero nothing is found. -/
theorem find_zero : documents.find filter projection (some 0) = [] := by
  rw [find_eq_map, Option.elim_some, List.take_zero, List.map_nil]

/-- A document that is asked for is found, unless the limit is zero, and one fewer behind it. -/
theorem find_cons_of_isSought (hsought : isSought filter document) (hlimit : limit ≠ some 0) :
    find filter projection limit (document :: documents) =
      shown projection document :: documents.find filter projection (limit.map (· - 1)) := by
  rw [find_eq_map, find_eq_map, List.filter_cons_of_pos hsought]
  match limit with
  | none => rfl
  | some 0 => exact absurd rfl hlimit
  | some (limit + 1) => rfl

/-- A document that is not asked for is passed over. -/
theorem find_cons_of_not_isSought (hsought : ¬ isSought filter document) :
    find filter projection limit (document :: documents) =
      documents.find filter projection limit := by
  rw [find_eq_map, find_eq_map, List.filter_cons_of_neg hsought]

/-- Behind what was found, the rounds give what a search for the rest gives. -/
theorem findFrom_eq (found : List Document) (documents : Documents) :
    findFrom filter projection limit found documents =
      found ++ documents.find filter projection (limit.map (· - found.length)) := by
  induction documents generalizing found with
  | nil => cases limit <;> simp [findFrom, find_eq_map]
  | cons document documents ih =>
    rw [findFrom]
    by_cases henough : limit.any (· ≤ found.length)
    · -- There are enough, so nothing is left of the limit.
      obtain ⟨number, rfl, hnumber⟩ := (Option.any_eq_true _ _).mp henough
      have hzero : number - found.length = 0 := Nat.sub_eq_zero_of_le (of_decide_eq_true hnumber)
      rw [if_pos henough, Option.map_some, hzero, find_zero, List.append_nil]
    · rw [if_neg henough]
      by_cases hsought : isSought filter document
      · have hleft : limit.map (· - found.length) ≠ some 0 := by
          rintro hzero
          obtain ⟨number, rfl, hnumber⟩ := Option.map_eq_some_iff.mp hzero
          exact henough (by simpa using Nat.le_of_sub_eq_zero hnumber)
        have hrest : (limit.map (· - found.length)).map (· - 1) =
            limit.map (· - (found.length + 1)) := by
          rw [Option.map_map]
          rfl
        rw [if_pos hsought, ih, find_cons_of_isSought hsought hleft, hrest, List.append_assoc,
          List.length_append]
        rfl
      · rw [if_neg hsought, ih, find_cons_of_not_isSought hsought]

/-- The search that breaks off at its limit finds what a search finds. -/
theorem findLoop_eq (filter : Option Filter) (projection : Option Projection) (limit : Option Nat)
    (documents : Documents) :
    findLoop filter projection limit documents = documents.find filter projection limit := by
  rw [findLoop, findFrom_eq, List.nil_append, List.length_nil]
  cases limit <;> rfl

end Find

/-! ## The removal -/

/-- A removal as it runs: the last document that is to go is taken away first. -/
def deleteLoop (filter : Filter) (documents : Documents) : Nat × Documents :=
  let doomed := documents.positions filter
  (doomed.length, doomed.reverse.foldl List.eraseIdx documents)

/-- Behind the first document, the same documents are taken away without it. -/
theorem foldr_eraseIdx_map_succ (document : Document) (documents : Documents) (doomed : List Nat) :
    (doomed.map (· + 1)).foldr (fun position rest => rest.eraseIdx position)
        (document :: documents) =
      document :: doomed.foldr (fun position rest => rest.eraseIdx position) documents := by
  induction doomed with
  | nil => rfl
  | cons position doomed ih => rw [List.map_cons, List.foldr_cons, ih]; rfl

/-- Without the documents at the selected positions, those are left that do not meet the filter. -/
theorem foldr_eraseIdx_positions (filter : Filter) (documents : Documents) :
    (documents.positions filter).foldr (fun position rest => rest.eraseIdx position) documents =
      documents.filter fun document => !filter.accepts document := by
  induction documents with
  | nil => rfl
  | cons document documents ih =>
    have hbehind := foldr_eraseIdx_map_succ document documents (positions filter documents)
    rw [ih] at hbehind
    rw [positions, findIdxs_cons_zero]
    by_cases haccepts : filter.accepts document
    · rw [if_pos haccepts, List.foldr_cons, ← positions, hbehind]
      simp [haccepts]
    · rw [if_neg haccepts, ← positions, hbehind]
      simp [haccepts]

/-- The removal from the last position on leaves and counts what a removal does. -/
theorem deleteLoop_eq (filter : Filter) (documents : Documents) :
    documents.deleteLoop filter = documents.deleteMany filter := by
  rw [deleteLoop, deleteMany, List.foldl_reverse, foldr_eraseIdx_positions, length_positions]

/-! ## The update of many documents -/

/-- The documents from a position on that meet a filter, each with its position and prepared: with the values
put at their paths, and checked. -/
def stageFrom (check : Document → Except StoreFailure Unit) (filter : Filter) (values : Document)
    (position : Nat) : Documents → Except StoreFailure (List (Nat × Document))
  | [] => .ok []
  | document :: others =>
    if filter.accepts document then do
      let changed ← document.merged check values
      let staged ← stageFrom check filter values (position + 1) others
      return (position, changed) :: staged
    else stageFrom check filter values (position + 1) others

/-- Puts prepared documents in their places, where they are different, and counts these. -/
def commit : List (Nat × Document) → Nat × Documents → Nat × Documents
  | [], state => state
  | (position, changed) :: staged, (modified, documents) =>
    if (documents[position]?).any (·.same changed) then commit staged (modified, documents)
    else commit staged (modified + 1, documents.set position changed)

/-- An update of many documents as it runs: all are prepared before the first one is put in its place. -/
def updateLoop (check : Document → Except StoreFailure Unit) (filter : Filter) (values : Document)
    (documents : Documents) : Except StoreFailure (UpdateSummary × Documents) := do
  let staged ← stageFrom check filter values 0 documents
  let (modified, rest) := commit staged (0, documents)
  return (⟨staged.length, modified⟩, rest)

section Update

variable {check : Document → Except StoreFailure Unit} {filter : Filter} {values : Document}

/-- A document that meets the filter is prepared first, and then the documents behind it are updated. -/
theorem updateMany_cons_of_accepts {document : Document} (others : Documents)
    (haccepts : filter.accepts document) :
    updateMany check filter values (document :: others) = (do
      let changed ← document.merged check values
      let (summary, rest) ← updateMany check filter values others
      if document.same changed then
        return (⟨summary.matched + 1, summary.modified⟩, document :: rest)
      else return (⟨summary.matched + 1, summary.modified + 1⟩, changed :: rest)) := by
  rw [updateMany, if_pos haccepts, Document.merged]
  cases document.setAll [] values with
  | error failure => rfl
  | ok changed =>
    -- The check decides whether the block goes on.
    cases hcheck : check changed <;> simp [bind, Except.bind, hcheck, pure, Except.pure]

/-- A document that does not meet the filter is kept. -/
theorem updateMany_cons_of_not_accepts {document : Document} (others : Documents)
    (haccepts : ¬ filter.accepts document) :
    updateMany check filter values (document :: others) =
      (updateMany check filter values others).map fun (summary, rest) =>
        (summary, document :: rest) := by
  rw [updateMany, if_neg haccepts]
  cases updateMany check filter values others <;> rfl

/-- Where a document cannot be prepared, the update fails with what that fails with. -/
theorem updateMany_of_stageFrom_error {position : Nat} {documents : Documents} {failure : StoreFailure}
    (h : stageFrom check filter values position documents = .error failure) :
    documents.updateMany check filter values = .error failure := by
  induction documents generalizing position with
  | nil => cases h
  | cons document documents ih =>
    rw [stageFrom] at h
    split at h
    case isTrue haccepts =>
      rw [updateMany_cons_of_accepts documents haccepts]
      rcases block_eq_error_iff.mp h with hmerged | ⟨changed, hmerged, hrest⟩
      · exact block_eq_error_iff.mpr (Or.inl hmerged)
      · have hbehind := ih (error_of_step hrest)
        exact block_eq_error_iff.mpr
          (Or.inr ⟨changed, hmerged, block_eq_error_iff.mpr (Or.inl hbehind)⟩)
    case isFalse haccepts =>
      rw [updateMany_cons_of_not_accepts documents haccepts, map_eq_error_iff]
      exact ih h

/-- Where all documents are prepared, behind `before`, the update puts them where the second loop does, and
counts as many. -/
theorem updateMany_of_stageFrom (before : Documents) {documents : Documents}
    {staged : List (Nat × Document)}
    (h : stageFrom check filter values before.length documents = .ok staged) :
    ∃ modified rest,
      documents.updateMany check filter values = .ok (⟨staged.length, modified⟩, rest) ∧
        ∀ count, commit staged (count, before ++ documents) = (count + modified, before ++ rest) := by
  induction documents generalizing before staged with
  | nil =>
    cases h
    exact ⟨0, [], rfl, fun count => rfl⟩
  | cons document documents ih =>
    rw [stageFrom] at h
    split at h
    case isTrue haccepts =>
      simp only [block_eq_ok_iff, pure_eq_ok_iff] at h
      obtain ⟨changed, hmerged, others, hothers, rfl⟩ := h
      rw [updateMany_cons_of_accepts documents haccepts, hmerged]
      have hhere : (before ++ document :: documents)[before.length]? = some document := by simp
      by_cases hsame : document.same changed
      · obtain ⟨modified, rest, hupdate, hcommit⟩ :=
          ih (before ++ [document]) (by rwa [List.length_append])
        refine ⟨modified, document :: rest, ?_, fun count => ?_⟩
        · simp [bind, Except.bind, hupdate, hsame, pure, Except.pure]
        · have hrest := hcommit count
          rw [commit, hhere, Option.any_some, if_pos hsame]
          simpa using hrest
      · obtain ⟨modified, rest, hupdate, hcommit⟩ :=
          ih (before ++ [changed]) (by rwa [List.length_append])
        refine ⟨modified + 1, changed :: rest, ?_, fun count => ?_⟩
        · simp [bind, Except.bind, hupdate, hsame, pure, Except.pure]
        · have hrest := hcommit (count + 1)
          rw [commit, hhere, Option.any_some, if_neg hsame]
          simpa [Nat.add_assoc, Nat.add_comm 1] using hrest
    case isFalse haccepts =>
      obtain ⟨modified, rest, hupdate, hcommit⟩ :=
        ih (before ++ [document]) (by rwa [List.length_append])
      refine ⟨modified, document :: rest, ?_, fun count => ?_⟩
      · rw [updateMany_cons_of_not_accepts documents haccepts, hupdate]
        rfl
      · simpa using hcommit count

/-- The update that prepares all documents before it puts the first one in its place does what an update
does, and fails as it does. -/
theorem updateLoop_eq (check : Document → Except StoreFailure Unit) (filter : Filter)
    (values : Document) (documents : Documents) :
    documents.updateLoop check filter values = documents.updateMany check filter values := by
  rw [updateLoop]
  cases hstaged : stageFrom check filter values 0 documents with
  | error failure => rw [updateMany_of_stageFrom_error hstaged]; rfl
  | ok staged =>
    obtain ⟨modified, rest, hupdate, hcommit⟩ := updateMany_of_stageFrom [] hstaged
    have hall := hcommit 0
    rw [List.nil_append, Nat.zero_add, List.nil_append] at hall
    rw [hupdate]
    simp [bind, Except.bind, hall, pure, Except.pure]

end Update

end RestArchive.Documents
