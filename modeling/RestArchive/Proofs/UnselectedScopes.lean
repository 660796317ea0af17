import RestArchive.Proofs.WellPlaced

/-! # Updates whose scopes select nothing

Where a scope of an update path selects no element, nothing behind it is reached, and nothing is put,
added or removed there. On the way to the scope the update may still make documents that are missing.
So a removal leaves the document as it is, and any other update does so exactly when no name on the way
leads to nothing (`apply_eq_iff_of_unselected`). A document that is missing is made, though nothing is
ever put into it (`apply_missingParent`). -/

namespace RestArchive

namespace Value

/-- The values that a step leads to: the member of a name, or those elements of the array in a member
that carry the identifier of a scope. -/
def atStep : Value → Step → List Value
  | .document members, .field name => (Entries.get? members name).toList
  | .document members, .scoped scope =>
    match Entries.get? members scope.field with
    | some (.array items) => items.filter scope.id.namesElement
    | _ => []
  | _, _ => []

/-- The values that steps lead to. -/
def atSteps : Value → List Step → List Value
  | value, [] => [value]
  | value, step :: rest => (value.atStep step).flatMap fun below => below.atSteps rest
termination_by structural _ steps => steps

/-- Whether some scope on the way selects nothing: in all that the steps in front of it lead to, there
is no element that carries its identifier. -/
def Unselected (value : Value) (steps : List Step) : Prop :=
  ∃ before scope behind, steps = before ++ .scoped scope :: behind ∧
    value.atSteps (before ++ [.scoped scope]) = []

/-- Whether some name on the way leads to nothing: the steps in front of it lead to a document that has
no member of that name. -/
def LacksMember (value : Value) (steps : List Step) : Prop :=
  ∃ before name behind members, steps = before ++ .field name :: behind ∧
    .document members ∈ value.atSteps before ∧ Entries.get? members name = none

variable {value : Value} {step : Step} {rest : List Step}

@[simp] theorem atSteps_nil (value : Value) : value.atSteps [] = [value] := by
  cases value <;> rfl

@[simp] theorem atSteps_cons (value : Value) (step : Step) (rest : List Step) :
    value.atSteps (step :: rest) = (value.atStep step).flatMap fun below => below.atSteps rest := by
  cases value <;> rfl

/-- Without steps there is no scope. -/
theorem not_unselected_nil : ¬ value.Unselected [] := by
  rintro ⟨before, scope, behind, hsplit, -⟩
  exact absurd hsplit.symm (by simp)

/-- A scope that selects nothing, if it is not the first step, stands behind that. -/
theorem Unselected.ne_nil {name : String} (h : value.Unselected (.field name :: rest)) :
    rest ≠ [] := by
  obtain ⟨before, scope, behind, hsplit, -⟩ := h
  rintro rfl
  cases before with
  | nil => cases hsplit
  | cons first before => simp at hsplit

/-- A scope that selects nothing from a value selects nothing from what the first step leads to. -/
theorem Unselected.of_cons (h : value.Unselected (step :: rest)) :
    ∀ below ∈ value.atStep step, below.Unselected rest := by
  obtain ⟨before, scope, behind, hsplit, hnone⟩ := h
  intro below hbelow
  cases before with
  | nil =>
    -- The scope is the first step itself, so that leads to nothing.
    cases hsplit
    rw [List.nil_append, atSteps_cons, List.flatMap_eq_nil_iff] at hnone
    exact absurd (hnone below hbelow) (by simp)
  | cons first before =>
    rw [List.cons_append, List.cons.injEq] at hsplit
    obtain ⟨rfl, rfl⟩ := hsplit
    rw [List.cons_append, atSteps_cons, List.flatMap_eq_nil_iff] at hnone
    exact ⟨before, scope, behind, rfl, hnone below hbelow⟩

/-- A name leads to nothing when it is the first step and no member has it, or below what the first step
leads to. -/
theorem lacksMember_cons_iff : value.LacksMember (step :: rest) ↔
    (∃ name members, step = .field name ∧ value = .document members ∧ Entries.get? members name = none) ∨
      ∃ below ∈ value.atStep step, below.LacksMember rest := by
  constructor
  · rintro ⟨before, name, behind, members, hsplit, hmem, hget⟩
    cases before with
    | nil =>
      cases hsplit
      rw [atSteps_nil, List.mem_singleton] at hmem
      exact Or.inl ⟨name, members, rfl, hmem.symm, hget⟩
    | cons first before =>
      rw [List.cons_append, List.cons.injEq] at hsplit
      obtain ⟨rfl, rfl⟩ := hsplit
      rw [atSteps_cons, List.mem_flatMap] at hmem
      obtain ⟨below, hbelow, hmem⟩ := hmem
      exact Or.inr ⟨below, hbelow, before, name, behind, members, rfl, hmem, hget⟩
  · rintro (⟨name, members, rfl, rfl, hget⟩ |
      ⟨below, hbelow, before, name, behind, members, rfl, hmem, hget⟩)
    · exact ⟨[], name, rest, members, rfl, by simp, hget⟩
    · refine ⟨step :: before, name, behind, members, rfl, ?_, hget⟩
      rw [atSteps_cons, List.mem_flatMap]
      exact ⟨below, hbelow, hmem⟩

end Value

namespace Terminal

variable {id : ObjectId} {edit : Value → Except StoreFailure Value} {items changed : List Value}

/-- Where elements have been changed, each that carries the identifier has been. -/
theorem exists_of_onElements (h : onElements id edit items = .ok changed) :
    ∀ item ∈ items.filter id.namesElement, ∃ result, edit item = .ok result := by
  induction items generalizing changed with
  | nil => simp
  | cons item items ih =>
    by_cases hitem : id.namesElement item
    · obtain ⟨first, others, hfirst, hothers, -⟩ := (onElements_cons_of_named hitem).mp h
      rw [List.filter_cons_of_pos hitem, List.forall_mem_cons]
      exact ⟨⟨first, hfirst⟩, ih hothers⟩
    · obtain ⟨others, hothers, -⟩ := (onElements_cons_of_not (by simpa using hitem)).mp h
      rw [List.filter_cons_of_neg hitem]
      exact ih hothers

/-- A list whose elements have been changed is the same as before exactly when each of them is. -/
theorem onElements_eq_iff (h : onElements id edit items = .ok changed) :
    changed = items ↔ ∀ item ∈ items.filter id.namesElement, edit item = .ok item := by
  induction items generalizing changed with
  | nil =>
    cases h
    simp
  | cons item items ih =>
    by_cases hitem : id.namesElement item
    · obtain ⟨first, others, hfirst, hothers, rfl⟩ := (onElements_cons_of_named hitem).mp h
      rw [List.filter_cons_of_pos hitem, List.forall_mem_cons, List.cons.injEq, ih hothers, hfirst,
        Except.ok.injEq]
    · obtain ⟨others, hothers, rfl⟩ := (onElements_cons_of_not (by simpa using hitem)).mp h
      rw [List.filter_cons_of_neg hitem, List.cons.injEq, ih hothers, eq_self_iff_true, true_and]

/-- An update along steps with a scope that selects nothing leaves a document as it is exactly when it
makes nothing that is missing, or no name on the way leads to nothing. -/
theorem along_eq_iff_of_unselected {terminal : Terminal} {steps : List Step}
    {document changed : Document} (hnone : (Value.document document).Unselected steps)
    (h : terminal.along document steps = .ok changed) :
    changed = document ↔
      terminal.createsMissing = false ∨ ¬ (Value.document document).LacksMember steps := by
  induction steps generalizing document changed with
  | nil => exact absurd hnone Value.not_unselected_nil
  | cons step rest ih =>
    obtain ⟨result, hresult, rfl, hget⟩ := along_cons_ok h
    -- Only the member of the first step may differ.
    have hmember : document.insert? step.member result = document ↔
        result = document.get? step.member := by
      constructor
      · intro heq
        rw [← hget, heq]
      · rintro rfl
        exact Entries.insert?_get? document step.member
    have hbelow := hnone.of_cons
    rw [hmember, Value.lacksMember_cons_iff]
    cases step with
    | field name =>
      rw [Step.member] at hresult ⊢
      obtain ⟨next, others, rfl⟩ := List.exists_cons_of_ne_nil hnone.ne_nil
      cases hname : document.get? name with
      | none =>
        rw [hname] at hresult
        simp only [onMember] at hresult
        split at hresult
        case isTrue hcreates =>
          -- The missing document is made.
          obtain ⟨inner, -, rfl⟩ := map_eq_ok_iff.mp hresult
          simp [hcreates, hname]
        case isFalse hcreates =>
          cases hresult
          simp [hcreates]
      | some value =>
        cases value with
        | document members =>
          rw [hname] at hresult
          obtain ⟨inner, hinner, rfl⟩ := map_eq_ok_iff.mp hresult
          have hinnerIff := ih (hbelow _ (by simp [Value.atStep, hname])) hinner
          simpa [Value.atStep, hname] using hinnerIff
        | _ =>
          rw [hname] at hresult
          cases hresult
    | «scoped» scope =>
      rw [Step.member] at hresult ⊢
      cases hfield : document.get? scope.field with
      | none =>
        rw [hfield] at hresult
        cases hresult
        simp [Value.atStep, hfield]
      | some value =>
        cases value with
        | array items =>
          rw [hfield] at hresult
          obtain ⟨out, hout, rfl⟩ := map_eq_ok_iff.mp hresult
          have hselected : (Value.document document).atStep (.scoped scope) =
              items.filter scope.id.namesElement := by simp [Value.atStep, hfield]
          rw [hselected] at hbelow ⊢
          -- Each selected element stays exactly when nothing below it is made.
          have heach : ∀ item ∈ items.filter scope.id.namesElement,
              terminal.onElement scope.field rest item = .ok item ↔
                terminal.createsMissing = false ∨ ¬ item.LacksMember rest := by
            intro item hitem
            obtain ⟨members, rfl⟩ :=
              ObjectId.exists_document_of_namesElement (List.mem_filter.mp hitem).2
            have hrest : rest ≠ [] := by
              rintro rfl
              exact Value.not_unselected_nil (hbelow _ hitem)
            obtain ⟨new, hnew⟩ := exists_of_onElements hout _ hitem
            rw [onElement_document hrest] at hnew ⊢
            obtain ⟨inner, hinner, -⟩ := map_eq_ok_iff.mp hnew
            rw [← ih (hbelow _ hitem) hinner, hinner]
            simp
          rw [Option.some_inj, Value.array.injEq, onElements_eq_iff hout,
            forall₂_congr heach]
          by_cases hcreates : terminal.createsMissing = false <;> simp [hcreates]
        | _ =>
          rw [hfield] at hresult
          cases hresult

/-- An update at one path acts along the steps that its path is read as. -/
theorem along_of_apply_asUpdate {terminal : Terminal} {scopes : List Scope} {path : String}
    {steps : List Step} {document changed : Document} (hsteps : Step.parse scopes path = .ok steps)
    (h : (terminal.asUpdate scopes path).apply document = .ok changed) :
    terminal.along document steps = .ok changed := by
  have hpath := atPath_of_apply_asUpdate h
  rw [atPath, hsteps] at hpath
  exact hpath

end Terminal

/-- An update at one path, where some scope of the path selects nothing, is refused or leaves the
document as it is, unless it puts or adds something and a name on the way leads to nothing: then a
document is made there. -/
theorem apply_eq_iff_of_unselected (terminal : Terminal) (scopes : List Scope) (path : String)
    (steps : List Step) (hsteps : Step.parse scopes path = .ok steps) (document changed : Document)
    (hnone : (Value.document document).Unselected steps)
    (h : (terminal.asUpdate scopes path).apply document = .ok changed) :
    changed = document ↔
      (∃ id, terminal = .pull id) ∨ ¬ (Value.document document).LacksMember steps := by
  have hcreates : terminal.createsMissing = false ↔ ∃ id, terminal = .pull id := by
    cases terminal <;> simp [Terminal.createsMissing]
  rw [← hcreates]
  exact Terminal.along_eq_iff_of_unselected hnone (Terminal.along_of_apply_asUpdate hsteps h)

/-- Scopes for rows and for the cells of their tables. -/
def rowAndCell : List Scope := [⟨"rows", "rows", .ofNat 1⟩, ⟨"cells", "cells", .ofNat 2⟩]

/-- A document with two rows of one identifier, whose tables have one cell each. -/
def twoTables (first second : ObjectId) : Document :=
  let row (cell : ObjectId) : Value := .document [(idField, .objectId (.ofNat 1)),
    ("table", .document [("cells", .array [.document [(idField, .objectId cell)]])])]
  [("rows", .array [row first, row second])]

/-- The steps to the notes of cells in the tables of rows. -/
def cellNotes : List Step :=
  [.scoped ⟨"rows", "rows", .ofNat 1⟩, .field "table", .scoped ⟨"cells", "cells", .ofNat 2⟩,
    .field "note"]

/-- Where both rows have a table, and neither a cell of the identifier, all stays as it is. -/
theorem apply_eq_iff_of_unselected_twoTables :
    Step.parse rowAndCell "$[rows].table.$[cells].note" = .ok cellNotes ∧
      (Value.document (twoTables (.ofNat 3) (.ofNat 4))).Unselected cellNotes ∧
      ((Terminal.set .null).asUpdate rowAndCell "$[rows].table.$[cells].note").apply
          (twoTables (.ofNat 3) (.ofNat 4)) = .ok (twoTables (.ofNat 3) (.ofNat 4)) ∧
      ((∃ id, Terminal.set .null = .pull id) ∨
        ¬ (Value.document (twoTables (.ofNat 3) (.ofNat 4))).LacksMember cellNotes) := by
  have hparse : Step.parse rowAndCell "$[rows].table.$[cells].note" = .ok cellNotes := by
    rw [← toOption_eq_some_iff]
    decide +kernel
  have hnone : (Value.document (twoTables (.ofNat 3) (.ofNat 4))).Unselected cellNotes :=
    ⟨[.scoped ⟨"rows", "rows", .ofNat 1⟩, .field "table"], _, [.field "note"], rfl, rfl⟩
  have happly : ((Terminal.set .null).asUpdate rowAndCell "$[rows].table.$[cells].note").apply
      (twoTables (.ofNat 3) (.ofNat 4)) = .ok (twoTables (.ofNat 3) (.ofNat 4)) := rfl
  exact ⟨hparse, hnone, happly,
    (apply_eq_iff_of_unselected _ _ _ _ hparse _ _ hnone happly).mp rfl⟩

/-- Where the table itself is missing, there is no cell to select, and yet a table is made. -/
theorem apply_missingParent :
    Step.parse rowAndCell "table.$[cells].note" =
        .ok [.field "table", .scoped ⟨"cells", "cells", .ofNat 2⟩, .field "note"] ∧
      (Value.document [("name", .null)]).Unselected
        [.field "table", .scoped ⟨"cells", "cells", .ofNat 2⟩, .field "note"] ∧
      ((Terminal.set .null).asUpdate rowAndCell "table.$[cells].note").apply [("name", .null)] =
        .ok [("name", .null), ("table", .document [])] ∧
      ([("name", .null), ("table", .document [])] : Document) ≠ [("name", .null)] := by
  refine ⟨?_, ⟨[.field "table"], _, [.field "note"], rfl, rfl⟩, rfl, by simp⟩
  rw [← toOption_eq_some_iff]
  decide +kernel

end RestArchive
