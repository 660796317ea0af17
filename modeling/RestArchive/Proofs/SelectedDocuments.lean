import Mathlib.Data.List.Forall2
import RestArchive.Proofs.Commands
import RestArchive.Proofs.DocumentId

/-! # The documents that a filter selects

A search, a removal, an update of all documents that meet a filter, and the commands that look for the
first one go through a collection each in their own way. All of them select by the same positions: those
of the documents that a search finds (`Store.actsOn_positions`). Documents at other positions stay as
they are, and where they are. -/

namespace RestArchive

/-! ## Positions in a list -/

section Positions

variable {α : Type} (test : α → Bool)

/-- The positions behind the first item are counted from the one after it. -/
theorem findIdxs_cons_zero (item : α) (items : List α) : (item :: items).findIdxs test =
    if test item then 0 :: (items.findIdxs test).map (· + 1) else (items.findIdxs test).map (· + 1) := by
  rw [List.findIdxs_cons, List.findIdxs_start]

/-- The items that pass a test are those at the positions of such items. -/
theorem filter_eq_filterMap_findIdxs (items : List α) :
    items.filter test = (items.findIdxs test).filterMap (items[·]?) := by
  induction items with
  | nil => rfl
  | cons item items ih =>
    rw [findIdxs_cons_zero]
    by_cases hitem : test item
    · simp [hitem, ih, List.filterMap_map]
    · simp [hitem, ih, List.filterMap_map]

/-- The positions of the items that pass a test, among all positions. -/
theorem findIdxs_eq_filter_range (items : List α) :
    items.findIdxs test = (List.range items.length).filter fun position =>
      (items[position]?).any test := by
  induction items with
  | nil => rfl
  | cons item items ih =>
    rw [findIdxs_cons_zero, List.length_cons, List.range_succ_eq_map, List.filter_cons,
      List.filter_map, ih]
    simp [Function.comp_def]

/-- The positions of the items that do not pass a test are the other ones. -/
theorem findIdxs_not (items : List α) : (items.findIdxs fun item => !test item) =
    (List.range items.length).filter (· ∉ items.findIdxs test) := by
  rw [findIdxs_eq_filter_range]
  refine List.filter_congr fun position hposition => ?_
  have hlt := List.mem_range.mp hposition
  simp [hlt]

/-- What two lists have in common one by one, they have at each position. -/
theorem exists_getElem?_of_forall₂ {β : Type} {Related : α → β → Prop} {first : List α}
    {second : List β} (h : List.Forall₂ Related first second) {position : Nat} {item : α}
    (hitem : first[position]? = some item) :
    ∃ other, second[position]? = some other ∧ Related item other := by
  induction h generalizing position with
  | nil => cases hitem
  | @cons head other _ _ hhead _ ih =>
    cases position with
    | zero =>
      cases hitem
      exact ⟨other, rfl, hhead⟩
    | succ position => exact ih hitem

end Positions

namespace Document

/-- The document with values put at their paths, if it passes a check then. -/
def merged (check : Document → Except StoreFailure Unit) (document values : Document) :
    Except StoreFailure Document := do
  let changed ← document.setAll [] values
  check changed
  return changed

/-- Whether a document comes out different when values are put at their paths. -/
def isReplacedBy (document values : Document) : Bool :=
  match document.setAll [] values with
  | .ok changed => !document.same changed
  | .error _ => false

end Document

namespace Document

/-- A document is merged when the values can be put at their paths and what comes out passes the check. -/
theorem merged_eq_ok_iff {check : Document → Except StoreFailure Unit}
    {document values changed : Document} : document.merged check values = .ok changed ↔
      document.setAll [] values = .ok changed ∧ check changed = .ok () := by
  simp only [merged, block_eq_ok_iff, pure_eq_ok_iff]
  constructor
  · rintro ⟨_, hset, ⟨⟩, hcheck, rfl⟩
    exact ⟨hset, hcheck⟩
  · rintro ⟨hset, hcheck⟩
    exact ⟨changed, hset, (), hcheck, rfl⟩

end Document

namespace Documents

variable {check : Document → Except StoreFailure Unit} {documents rest : Documents} {filter : Filter}

/-- The positions of the documents that meet a filter, in order. -/
def positions (filter : Filter) (documents : Documents) : List Nat :=
  documents.findIdxs fun document => filter.accepts document

/-- The documents at positions. -/
def atPositions (documents : Documents) (positions : List Nat) : List Document :=
  positions.filterMap (documents[·]?)

/-- The documents that meet a filter are those at the selected positions. -/
theorem atPositions_positions (filter : Filter) (documents : Documents) :
    documents.atPositions (documents.positions filter) =
      documents.filter fun document => filter.accepts document :=
  (filter_eq_filterMap_findIdxs _ documents).symm

/-- Where there is a document at each position, the first ones are those at the first positions. -/
theorem atPositions_take {positions : List Nat}
    (h : ∀ position ∈ positions, position < documents.length) (limit : Nat) :
    documents.atPositions (positions.take limit) = (documents.atPositions positions).take limit := by
  induction positions generalizing limit with
  | nil => simp [atPositions]
  | cons position positions ih =>
    obtain ⟨hposition, hothers⟩ := List.forall_mem_cons.mp h
    have hget : documents[position]? = some documents[position] := List.getElem?_eq_getElem hposition
    have hbehind := ih hothers
    simp only [atPositions] at hbehind ⊢
    cases limit with
    | zero => rfl
    | succ limit => simp [hget, hbehind]

/-- The documents that do not meet a filter are those at the other positions. -/
theorem atPositions_others (filter : Filter) (documents : Documents) :
    documents.atPositions
        ((List.range documents.length).filter (· ∉ documents.positions filter)) =
      documents.filter fun document => !filter.accepts document := by
  rw [filter_eq_filterMap_findIdxs _ documents, findIdxs_not, atPositions, positions]

/-- Each selected position holds a document that meets the filter. -/
theorem mem_positions_iff {position : Nat} : position ∈ documents.positions filter ↔
    ∃ document, documents[position]? = some document ∧ filter.accepts document := by
  rw [positions, List.mem_findIdxs_iff_exists_getElem_pos]
  simp only [List.getElem?_eq_some_iff]
  constructor
  · exact fun ⟨hlt, haccepts⟩ => ⟨_, ⟨hlt, rfl⟩, haccepts⟩
  · rintro ⟨document, ⟨hlt, rfl⟩, haccepts⟩
    exact ⟨hlt, haccepts⟩

/-- The position of a document is selected when the document meets the filter. -/
theorem mem_positions_iff_accepts {position : Nat} {document : Document}
    (h : documents[position]? = some document) :
    position ∈ documents.positions filter ↔ filter.accepts document := by
  simp [mem_positions_iff, h]

/-- There are documents at the selected positions. -/
theorem lt_length_of_mem_positions {position : Nat} (h : position ∈ documents.positions filter) :
    position < documents.length := by
  obtain ⟨document, hdocument, -⟩ := mem_positions_iff.mp h
  exact (List.getElem?_eq_some_iff.mp hdocument).1

/-- As many positions are selected as documents meet the filter. -/
theorem length_positions : (documents.positions filter).length =
    documents.countP fun document => filter.accepts document :=
  List.length_findIdxs

/-! ## The first document -/

/-- Where no document passes the test, none is changed. -/
theorem changeFirst_of_findIdxs_nil {test : Document → Bool}
    {change : Document → Except StoreFailure Document} (h : documents.findIdxs test = []) :
    documents.changeFirst test change = .ok (none, documents) := by
  induction documents with
  | nil => rfl
  | cons document documents ih =>
    rw [findIdxs_cons_zero] at h
    split at h
    case isTrue => cases h
    case isFalse htest => rw [changeFirst, if_neg htest, ih (List.map_eq_nil_iff.mp h)]; rfl

/-- The first document that passes the test is changed where it stands. -/
theorem changeFirst_of_findIdxs_cons {test : Document → Bool}
    (change : Document → Except StoreFailure Document) {position : Nat} {others : List Nat}
    (h : documents.findIdxs test = position :: others) :
    ∃ old, documents[position]? = some old ∧
      documents.changeFirst test change =
        (change old).map fun changed => (some changed, documents.set position changed) := by
  induction documents generalizing position others with
  | nil => cases h
  | cons document documents ih =>
    rw [findIdxs_cons_zero] at h
    split at h
    case isTrue htest =>
      cases h
      exact ⟨document, rfl, by rw [changeFirst, if_pos htest]; rfl⟩
    case isFalse htest =>
      -- The first of the documents behind is counted from there.
      obtain ⟨before, behind, hbehind, rfl, -⟩ := List.map_eq_cons_iff.mp h
      obtain ⟨old, hold, hchange⟩ := ih hbehind
      refine ⟨old, hold, ?_⟩
      rw [changeFirst, if_neg htest, hchange]
      cases change old <;> rfl

/-! ## All documents -/

/-- What becomes of a document when values are put into all that meet a filter: one that does not meet it
stays, and so does one that comes out the same. -/
def BecomesBy (check : Document → Except StoreFailure Unit) (filter : Filter) (values : Document)
    (old new : Document) : Prop :=
  if filter.accepts old then
    ∃ changed, old.merged check values = .ok changed ∧
      new = if old.same changed then old else changed
  else new = old

/-- An update of all documents that meet a filter gives each document what becomes of it, and counts
those that meet the filter and those that are replaced. -/
theorem forall_becomesBy_of_updateMany {values : Document} {summary : UpdateSummary}
    (h : documents.updateMany check filter values = .ok (summary, rest)) :
    List.Forall₂ (BecomesBy check filter values) documents rest ∧
      summary = ⟨documents.countP fun document => filter.accepts document,
        documents.countP fun document => filter.accepts document && document.isReplacedBy values⟩ := by
  induction documents generalizing summary rest with
  | nil =>
    cases h
    exact ⟨.nil, rfl⟩
  | cons document documents ih =>
    rw [updateMany] at h
    split at h
    case isTrue haccepts =>
      simp only [block_eq_ok_iff] at h
      -- The documents behind are updated first, so their summary is the one that is added to.
      obtain ⟨changed, hchanged, ⟨⟩, hcheck, ⟨behind, others⟩, hbehind, hresult⟩ := h
      obtain ⟨hothers, rfl⟩ := ih hbehind
      have hmerged := Document.merged_eq_ok_iff.mpr ⟨hchanged, hcheck⟩
      split at hresult
      case isTrue hsame =>
        cases hresult
        refine ⟨.cons ?_ hothers, ?_⟩
        · rw [BecomesBy, if_pos haccepts]
          exact ⟨changed, hmerged, by rw [if_pos hsame]⟩
        · simp [haccepts, Document.isReplacedBy, hchanged, hsame]
      case isFalse hsame =>
        cases hresult
        refine ⟨.cons ?_ hothers, ?_⟩
        · rw [BecomesBy, if_pos haccepts]
          exact ⟨changed, hmerged, by rw [if_neg hsame]⟩
        · simp [haccepts, Document.isReplacedBy, hchanged, hsame]
    case isFalse haccepts =>
      simp only [block_eq_ok_iff] at h
      obtain ⟨⟨behind, others⟩, hbehind, hresult⟩ := h
      obtain ⟨hothers, rfl⟩ := ih hbehind
      cases hresult
      refine ⟨.cons ?_ hothers, ?_⟩
      · rw [BecomesBy, if_neg haccepts]
      · simp [haccepts]

/-- An update of all documents that meet a filter fails when one of them cannot be updated. -/
theorem exists_of_updateMany_error {values : Document} {failure : StoreFailure}
    (h : documents.updateMany check filter values = .error failure) :
    ∃ document ∈ documents, filter.accepts document ∧
      document.merged check values = .error failure := by
  induction documents with
  | nil => cases h
  | cons document documents ih =>
    have hbehind : updateMany check filter values documents = .error failure →
        ∃ other ∈ document :: documents, filter.accepts other ∧
          other.merged check values = .error failure := by
      intro hothers
      obtain ⟨other, hother, hfails⟩ := ih hothers
      exact ⟨other, List.mem_cons_of_mem _ hother, hfails⟩
    rw [updateMany] at h
    split at h
    case isTrue haccepts =>
      simp only [block_eq_error_iff] at h
      rcases h with hset | ⟨changed, hchanged, hcheck | ⟨⟨⟩, hcheck, hothers | ⟨_, -, hresult⟩⟩⟩
      · exact ⟨document, List.mem_cons_self, haccepts, block_eq_error_iff.mpr (Or.inl hset)⟩
      · refine ⟨document, List.mem_cons_self, haccepts, block_eq_error_iff.mpr (Or.inr ?_)⟩
        exact ⟨changed, hchanged, block_eq_error_iff.mpr (Or.inl hcheck)⟩
      · exact hbehind hothers
      · split at hresult <;> cases hresult
    case isFalse => exact hbehind (error_of_step h)

end Documents

/-! ## Commands with a filter -/

namespace Store

/-- What a command does that changes the document at the first of some positions, if there is one. -/
structure ChangesFirst (validator : Validator) (store : Store) (collection : String)
    (selected : List Nat) (asked : Command) (change : Document → Except StoreFailure Document) :
    Prop where
  /-- It answers without a document exactly when there is no position. -/
  none_iff : (store.command validator collection asked).1 = .ok (.document none) ↔ selected = []
  /-- Without a position, all documents stay as they are. -/
  unchanged : selected = [] → (store.command validator collection asked).2 =
    store.put collection (store.documents collection)
  /-- The document at the first position is changed there, and is the answer; or it cannot be changed, and
  the store stays as it is. -/
  changed : ∀ position others, selected = position :: others →
    ∃ old, (store.documents collection)[position]? = some old ∧
      (∀ new, change old = .ok new → store.command validator collection asked =
        (.ok (.document (some new)),
          store.put collection ((store.documents collection).set position new))) ∧
      ∀ failure, change old = .error failure →
        store.command validator collection asked = (.error failure, store)

/-- What the commands with a filter do, when the filter selects the documents at some positions. -/
structure ActsOn (validator : Validator) (store : Store) (collection : String) (filter : Filter)
    (selected : List Nat) : Prop where
  /-- The positions are in order, each once. -/
  ordered : selected.Pairwise (· < ·)
  /-- A document is at each position. -/
  inside : ∀ position ∈ selected, position < (store.documents collection).length
  /-- A search finds the documents at the positions. -/
  found : (store.command validator collection (.find (some filter) none none)).1 =
    .ok (.documents ((store.documents collection).atPositions selected))
  /-- A limited search finds those at the first positions, and shows each as the projection does. -/
  limited : ∀ (projection : Option Projection) (limit : Nat),
    (store.command validator collection (.find (some filter) projection (some limit))).1 =
      .ok (.documents (((store.documents collection).atPositions (selected.take limit)).map
        (projection.elim id Projection.apply)))
  /-- A removal leaves the documents at the other positions, in order, and counts the positions. -/
  deleted : store.command validator collection (.deleteMany filter) =
    (.ok (.deleted selected.length), store.put collection ((store.documents collection).atPositions
      ((List.range (store.documents collection).length).filter (· ∉ selected))))
  /-- An update of all counts the positions, and those whose document comes out different; it leaves each
  document at its position, the same one when the position is not selected, and otherwise the same one or
  what the values make of it, if that is different. -/
  updated : ∀ values outcome,
    (store.command validator collection (.updateMany filter values)).1 = .ok outcome →
      outcome = .updated ⟨selected.length, ((store.documents collection).atPositions selected).countP
        fun document => document.isReplacedBy values⟩ ∧
      ∃ rest : Documents, (store.command validator collection (.updateMany filter values)).2 =
          store.put collection rest ∧
        rest.length = (store.documents collection).length ∧
        ∀ position old new, (store.documents collection)[position]? = some old →
          rest[position]? = some new →
            (position ∉ selected → new = old) ∧
            (position ∈ selected → ∃ changed, old.setAll [] values = .ok changed ∧
              new = if old.same changed then old else changed)
  /-- An update of all fails exactly when the values cannot be put into the document at some position, or
  what they make of it does not pass the check. -/
  fails_iff : ∀ values,
    (∃ failure, (store.command validator collection (.updateMany filter values)).1 = .error failure) ↔
      ∃ position ∈ selected, ∃ old, (store.documents collection)[position]? = some old ∧
        ∀ changed, old.setAll [] values = .ok changed → validator collection changed ≠ .ok ()
  /-- When it fails, the store stays as it is. -/
  failed : ∀ values failure,
    (store.command validator collection (.updateMany filter values)).1 = .error failure →
      (store.command validator collection (.updateMany filter values)).2 = store
  /-- An update of the first one puts the values into the document at the first position. -/
  updatedFirst : ∀ values, ChangesFirst validator store collection selected
    (.updateFirst filter values) fun old => old.merged (validator collection) values
  /-- A replacement of the first one puts a document in the place of the one at the first position. -/
  replacedFirst : ∀ document : Document, ChangesFirst validator store collection selected
    (.replaceFirst filter document) fun old => do
      validator collection (document.withIdOf old)
      return document.withIdOf old
  /-- The document in that place has the identifier of the one that was there. -/
  keepsId : ∀ document new position others, selected = position :: others →
    (store.command validator collection (.replaceFirst filter document)).1 =
        .ok (.document (some new)) →
      ∃ old, (store.documents collection)[position]? = some old ∧ new.get? idField = old.get? idField

variable {validator : Validator} {store : Store} {collection : String} {filter : Filter}

/-- A command that changes the first document that meets a filter changes the document at the first
selected position. -/
theorem changesFirst_of_perform {asked : Command} {change : Document → Except StoreFailure Document}
    (h : ∀ documents, asked.perform (validator collection) collection documents =
      (documents.changeFirst (fun document => filter.accepts document) change).map
        fun (answer, rest) => (.document answer, rest)) :
    ChangesFirst validator store collection ((store.documents collection).positions filter) asked
      change := by
  have hrun : store.command validator collection asked = store.run collection fun documents =>
      (documents.changeFirst (fun document => filter.accepts document) change).map
        fun (answer, rest) => (.document answer, rest) := by
    simp only [command, h]
  cases hselected : (store.documents collection).positions filter with
  | nil =>
    have hfirst : store.command validator collection asked =
        (.ok (.document none), store.put collection (store.documents collection)) := by
      rw [hrun, run, Documents.changeFirst_of_findIdxs_nil hselected]
      rfl
    refine ⟨by simp [hfirst], fun _ => by rw [hfirst], ?_⟩
    rintro _ _ ⟨⟩
  | cons position others =>
    -- Everything follows from what becomes of the document at that position.
    obtain ⟨old, hold, hfirst⟩ := Documents.changeFirst_of_findIdxs_cons change hselected
    have hok : ∀ new, change old = .ok new → store.command validator collection asked =
        (.ok (.document (some new)),
          store.put collection ((store.documents collection).set position new)) := by
      intro new hnew
      rw [hrun, run, hfirst, hnew]
      rfl
    have herror : ∀ failure, change old = .error failure →
        store.command validator collection asked = (.error failure, store) := by
      intro failure hfailure
      rw [hrun, run, hfirst, hfailure]
      rfl
    refine ⟨?_, ?_, ?_⟩
    · cases hchange : change old with
      | ok new => simp [hok new hchange]
      | error failure => simp [herror failure hchange]
    · rintro ⟨⟩
    · rintro _ _ ⟨⟩
      exact ⟨old, hold, hok, herror⟩

/-- The document that replaces the first one has the identifier of that. -/
theorem ChangesFirst.keepsId {selected others : List Nat} {document new : Document} {position : Nat}
    (h : ChangesFirst validator store collection selected (.replaceFirst filter document) fun old => do
      validator collection (document.withIdOf old)
      return document.withIdOf old)
    (hselected : selected = position :: others)
    (hanswer : (store.command validator collection (.replaceFirst filter document)).1 =
      .ok (.document (some new))) :
    ∃ old, (store.documents collection)[position]? = some old ∧
      new.get? idField = old.get? idField := by
  obtain ⟨old, hold, hok, herror⟩ := h.changed position others hselected
  refine ⟨old, hold, ?_⟩
  cases hcheck : validator collection (document.withIdOf old) with
  | ok =>
    rw [hok _ (block_eq_ok_iff.mpr ⟨_, hcheck, rfl⟩)] at hanswer
    cases hanswer
    exact Document.get?_withIdOf document old
  | error failure =>
    rw [herror failure (block_eq_error_iff.mpr (Or.inl hcheck))] at hanswer
    cases hanswer

/-- What an update of all documents that meet a filter makes of them, by the selected positions. -/
theorem updated_of_updateMany {values : Document} {outcome : Outcome}
    (h : (store.command validator collection (.updateMany filter values)).1 = .ok outcome) :
    outcome = .updated ⟨((store.documents collection).positions filter).length,
        ((store.documents collection).atPositions
          ((store.documents collection).positions filter)).countP
            fun document => document.isReplacedBy values⟩ ∧
      ∃ rest, (store.command validator collection (.updateMany filter values)).2 =
          store.put collection rest ∧
        List.Forall₂ (Documents.BecomesBy (validator collection) filter values)
          (store.documents collection) rest := by
  obtain ⟨rest, hperform, hstore⟩ := command_ok h
  obtain ⟨⟨summary, _⟩, hupdate, heq⟩ := map_eq_ok_iff.mp hperform
  cases heq
  obtain ⟨hall, rfl⟩ := Documents.forall_becomesBy_of_updateMany hupdate
  refine ⟨?_, rest, hstore, hall⟩
  rw [Documents.length_positions, Documents.atPositions_positions, List.countP_filter]
  simp only [Bool.and_comm]

/-- An update of all documents that meet a filter fails exactly when one of them cannot be updated. -/
theorem updateMany_fails_iff {values : Document} :
    (∃ failure, (store.command validator collection (.updateMany filter values)).1 = .error failure) ↔
      ∃ position ∈ (store.documents collection).positions filter,
        ∃ old, (store.documents collection)[position]? = some old ∧
          ∀ changed, old.merged (validator collection) values ≠ .ok changed := by
  constructor
  · rintro ⟨failure, hfails⟩
    obtain ⟨old, hmem, haccepts, hmerged⟩ := Documents.exists_of_updateMany_error
      (map_eq_error_iff.mp (command_error hfails).1)
    obtain ⟨position, hold⟩ := List.mem_iff_getElem?.mp hmem
    exact ⟨position, Documents.mem_positions_iff.mpr ⟨old, hold, haccepts⟩, old, hold,
      by simp [hmerged]⟩
  · rintro ⟨position, hposition, old, hold, hmerged⟩
    cases hresult : (store.command validator collection (.updateMany filter values)).1 with
    | error failure => exact ⟨failure, rfl⟩
    | ok outcome =>
      obtain ⟨-, rest, -, hall⟩ := updated_of_updateMany hresult
      obtain ⟨new, -, hbecomes⟩ := exists_getElem?_of_forall₂ hall hold
      rw [Documents.BecomesBy, if_pos ((Documents.mem_positions_iff_accepts hold).mp hposition)]
        at hbecomes
      obtain ⟨changed, hchanged, -⟩ := hbecomes
      exact absurd hchanged (hmerged changed)

/-- The commands with a filter act on the documents at the positions of those that meet it. -/
theorem actsOn_positions (validator : Validator) (store : Store) (collection : String)
    (filter : Filter) : ActsOn validator store collection filter
      ((store.documents collection).positions filter) where
  ordered := List.pairwise_findIdxs
  inside _ := Documents.lt_length_of_mem_positions
  found := by
    rw [Documents.atPositions_positions]
    rfl
  limited projection limit := by
    rw [Documents.atPositions_take fun _ => Documents.lt_length_of_mem_positions,
      Documents.atPositions_positions]
    cases projection with
    | none => rw [Option.elim_none, List.map_id]; rfl
    | some projection => rfl
  deleted := by
    rw [Documents.length_positions, Documents.atPositions_others]
    rfl
  updated values outcome h := by
    obtain ⟨houtcome, rest, hstore, hall⟩ := updated_of_updateMany h
    refine ⟨houtcome, rest, hstore, hall.length_eq.symm, fun position old new hold hnew => ?_⟩
    obtain ⟨new', hnew', hbecomes⟩ := exists_getElem?_of_forall₂ hall hold
    obtain rfl : new = new' := Option.some.inj (hnew.symm.trans hnew')
    rw [Documents.mem_positions_iff_accepts hold]
    rw [Documents.BecomesBy] at hbecomes
    split at hbecomes
    case isTrue haccepts =>
      obtain ⟨changed, hmerged, hnew⟩ := hbecomes
      exact ⟨absurd haccepts,
        fun _ => ⟨changed, (Document.merged_eq_ok_iff.mp hmerged).1, hnew⟩⟩
    case isFalse haccepts => exact ⟨fun _ => hbecomes, fun h => absurd h haccepts⟩
  fails_iff values := by
    rw [updateMany_fails_iff]
    simp only [ne_eq, Document.merged_eq_ok_iff, not_and]
  failed values failure h := (command_error h).2
  updatedFirst values := changesFirst_of_perform fun documents => rfl
  replacedFirst document := changesFirst_of_perform fun documents => rfl
  keepsId document new position others hselected hanswer :=
    (changesFirst_of_perform fun _ => rfl).keepsId hselected hanswer

end Store

end RestArchive
