import RestArchive.Proofs.Success
import RestArchive.Store

/-! # Where stored documents come from

After an operation of the store, each document of the collection was there before, or the operation
wrote it: then it is known from what it was made, and it passed the check in the very form in which
it is stored. One lemma for each operation says so; what holds of stored documents is derived from
them. -/

namespace RestArchive

namespace Documents

variable {check : Document → Except StoreFailure Unit} {documents rest : Documents}
  {document : Document}

/-- After a change of the first document that passes a test, a document was there before or is what
became of that one. -/
theorem mem_or_of_changeFirst {test : Document → Bool}
    {change : Document → Except StoreFailure Document} {answer : Option Document}
    (h : documents.changeFirst test change = .ok (answer, rest)) (hmem : document ∈ rest) :
    document ∈ documents ∨ ∃ old ∈ documents, change old = .ok document := by
  induction documents generalizing answer rest with
  | nil =>
    cases h
    exact Or.inl hmem
  | cons first others ih =>
    rw [changeFirst] at h
    split at h
    · obtain ⟨changed, hchanged, heq⟩ := map_eq_ok_iff.mp h
      cases heq
      rcases List.mem_cons.mp hmem with rfl | hmem
      · exact Or.inr ⟨first, List.mem_cons_self, hchanged⟩
      · exact Or.inl (List.mem_cons_of_mem _ hmem)
    · obtain ⟨⟨_, behind⟩, hbehind, heq⟩ := map_eq_ok_iff.mp h
      cases heq
      rcases List.mem_cons.mp hmem with rfl | hmem
      · exact Or.inl List.mem_cons_self
      · rcases ih hbehind hmem with hold | ⟨old, hold, hchange⟩
        · exact Or.inl (List.mem_cons_of_mem _ hold)
        · exact Or.inr ⟨old, List.mem_cons_of_mem _ hold, hchange⟩

/-- What became of the first document that passes a test is stored. -/
theorem mem_of_changeFirst {test : Document → Bool}
    {change : Document → Except StoreFailure Document} {answered : Document}
    (h : documents.changeFirst test change = .ok (some answered, rest)) : answered ∈ rest := by
  induction documents generalizing rest with
  | nil => cases h
  | cons first others ih =>
    rw [changeFirst] at h
    split at h
    · obtain ⟨changed, -, heq⟩ := map_eq_ok_iff.mp h
      cases heq
      exact List.mem_cons_self
    · obtain ⟨⟨_, behind⟩, hbehind, heq⟩ := map_eq_ok_iff.mp h
      cases heq
      exact List.mem_cons_of_mem _ (ih hbehind)

/-- What is added has something in its identifier field that is not the same as what another document
has there, passed the check, and comes to stand at the end. -/
theorem exists_of_insert {name : String} {added answer : Document}
    (h : documents.insert check name added = .ok (answer, rest)) :
    ∃ id, added.get? idField = some id ∧ check added = .ok () ∧ answer = added ∧
      rest = documents ++ [added] ∧
      ∀ other ∈ documents, ∀ otherId, other.get? idField = some otherId →
        otherId.same id = false := by
  rw [insert] at h
  split at h
  case h_1 => cases h
  case h_2 id hid =>
    simp only [block_eq_ok_iff] at h
    obtain ⟨_, hcheck, hresult⟩ := h
    split at hresult
    case isTrue => cases hresult
    case isFalse hfree =>
      cases hresult
      refine ⟨id, hid, hcheck, rfl, rfl, fun other hother otherId hotherId => ?_⟩
      rw [Bool.not_eq_true, List.any_eq_false] at hfree
      simpa [hotherId] using hfree other hother

/-- After an addition, a document was there before or is the one that was added. -/
theorem mem_or_of_insert {name : String} {added answer : Document}
    (h : documents.insert check name added = .ok (answer, rest)) (hmem : document ∈ rest) :
    document ∈ documents ∨ document = added ∧ check document = .ok () := by
  obtain ⟨id, -, hcheck, -, rfl, -⟩ := exists_of_insert h
  rcases List.mem_append.mp hmem with hold | hadded
  · exact Or.inl hold
  · rw [List.mem_singleton.mp hadded]
    exact Or.inr ⟨rfl, hcheck⟩

/-- After a replacement, a document was there before or is the new one, under the identifier asked
for. -/
theorem mem_or_of_replace {id : ObjectId} {new : Document} {upsert : Bool}
    {answer : Option Document} (h : documents.replace check id new upsert = .ok (answer, rest))
    (hmem : document ∈ rest) :
    document ∈ documents ∨
      document = new.insert idField (.objectId id) ∧ check document = .ok () := by
  simp only [replace, block_eq_ok_iff] at h
  obtain ⟨_, hcheck, ⟨found, others⟩, hothers, hresult⟩ := h
  have hkept : document ∈ others →
      document ∈ documents ∨
        document = new.insert idField (.objectId id) ∧ check document = .ok () := by
    intro hother
    rcases mem_or_of_changeFirst hothers hother with hold | ⟨_, -, hchange⟩
    · exact Or.inl hold
    · cases hchange
      exact Or.inr ⟨rfl, hcheck⟩
  split at hresult
  · cases hresult
    rcases List.mem_append.mp hmem with hother | hadded
    · exact hkept hother
    · rw [List.mem_singleton.mp hadded]
      exact Or.inr ⟨rfl, hcheck⟩
  · cases hresult
    exact hkept hmem

/-- What a replacement answers with is stored. -/
theorem mem_of_replace {id : ObjectId} {new answered : Document} {upsert : Bool}
    (h : documents.replace check id new upsert = .ok (some answered, rest)) : answered ∈ rest := by
  simp only [replace, block_eq_ok_iff] at h
  obtain ⟨_, -, ⟨found, others⟩, hothers, hresult⟩ := h
  split at hresult
  · cases hresult
    exact List.mem_append_right _ (List.mem_singleton.mpr rfl)
  · cases hresult
    exact mem_of_changeFirst hothers

/-- After a replacement of the first document that meets a filter, a document was there before or is
the new one, under the identifier of one that was there. -/
theorem mem_or_of_replaceFirst {filter : Filter} {new : Document} {answer : Option Document}
    (h : documents.replaceFirst check filter new = .ok (answer, rest)) (hmem : document ∈ rest) :
    document ∈ documents ∨
      ∃ old ∈ documents, document = new.withIdOf old ∧ check document = .ok () := by
  rcases mem_or_of_changeFirst h hmem with hold | ⟨old, hold, hchange⟩
  · exact Or.inl hold
  · simp only [block_eq_ok_iff, pure_eq_ok_iff] at hchange
    obtain ⟨_, hcheck, rfl⟩ := hchange
    exact Or.inr ⟨old, hold, rfl, hcheck⟩

/-- After an update, a document was there before or is what became of one that was there. -/
theorem mem_or_of_update {id : ObjectId} {update : Update} {answer : Option Document}
    (h : documents.update check id update = .ok (answer, rest)) (hmem : document ∈ rest) :
    document ∈ documents ∨
      ∃ old ∈ documents, update.apply old = .ok document ∧ check document = .ok () := by
  rcases mem_or_of_changeFirst h hmem with hold | ⟨old, hold, hchange⟩
  · exact Or.inl hold
  · simp only [block_eq_ok_iff, pure_eq_ok_iff] at hchange
    obtain ⟨_, happly, _, hcheck, rfl⟩ := hchange
    exact Or.inr ⟨old, hold, happly, hcheck⟩

/-- After an update of the first document that meets a filter, a document was there before or is
what became of one that was there. -/
theorem mem_or_of_updateFirst {filter : Filter} {values : Document} {answer : Option Document}
    (h : documents.updateFirst check filter values = .ok (answer, rest)) (hmem : document ∈ rest) :
    document ∈ documents ∨
      ∃ old ∈ documents, old.setAll [] values = .ok document ∧ check document = .ok () := by
  rcases mem_or_of_changeFirst h hmem with hold | ⟨old, hold, hchange⟩
  · exact Or.inl hold
  · simp only [block_eq_ok_iff, pure_eq_ok_iff] at hchange
    obtain ⟨_, hset, _, hcheck, rfl⟩ := hchange
    exact Or.inr ⟨old, hold, hset, hcheck⟩

/-- After an update of every document that meets a filter, a document was there before or is what
became of one that was there. One that came out the same is the old one, not the one checked. -/
theorem mem_or_of_updateMany {filter : Filter} {values : Document} {summary : UpdateSummary}
    (h : documents.updateMany check filter values = .ok (summary, rest)) (hmem : document ∈ rest) :
    document ∈ documents ∨
      ∃ old ∈ documents, old.setAll [] values = .ok document ∧ check document = .ok () := by
  induction documents generalizing summary rest with
  | nil =>
    cases h
    exact Or.inl hmem
  | cons first others ih =>
    have behind : ∀ {summary : UpdateSummary} {behind : Documents},
        updateMany check filter values others = .ok (summary, behind) → document ∈ behind →
        document ∈ first :: others ∨
          ∃ old ∈ first :: others,
            old.setAll [] values = .ok document ∧ check document = .ok () := by
      intro summary behind hbehind hmem
      rcases ih hbehind hmem with hold | ⟨old, hold, hset⟩
      · exact Or.inl (List.mem_cons_of_mem _ hold)
      · exact Or.inr ⟨old, List.mem_cons_of_mem _ hold, hset⟩
    rw [updateMany] at h
    split at h
    · simp only [block_eq_ok_iff] at h
      obtain ⟨changed, hchanged, _, hcheck, ⟨_, rest'⟩, hrest, hresult⟩ := h
      split at hresult
      · -- It came out the same, so the old one is kept.
        cases hresult
        rcases List.mem_cons.mp hmem with rfl | hmem
        · exact Or.inl List.mem_cons_self
        · exact behind hrest hmem
      · cases hresult
        rcases List.mem_cons.mp hmem with rfl | hmem
        · exact Or.inr ⟨first, List.mem_cons_self, hchanged, hcheck⟩
        · exact behind hrest hmem
    · simp only [block_eq_ok_iff] at h
      obtain ⟨⟨_, rest'⟩, hrest, hresult⟩ := h
      cases hresult
      rcases List.mem_cons.mp hmem with rfl | hmem
      · exact Or.inl List.mem_cons_self
      · exact behind hrest hmem

end Documents

end RestArchive
