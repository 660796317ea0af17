import Mathlib.Data.List.Forall2
import Mathlib.Tactic.SplitIfs
import RestArchive.Filter.Match
import RestArchive.Filter.OfJson
import RestArchive.Proofs.Success

/-! # Filters are read part by part

Whether a JSON value writes a filter, and which documents meet it, is decided by its parts: the members
of an object, the operators of a condition, the clauses of a logical operator, the condition under a
negation (`ofJson_putTogether`). That the reader does not wrap a filter that stands alone, and that a
member may write several, cannot be seen from outside: in both cases a document meets what was read when
it meets each of the filters. -/

namespace RestArchive

/-! ## Reading a list -/

section Lists

variable {ε α β : Type} {read : α → Except ε β} {parts : List α} {results : List β}

/-- Whether the parts of a list are read as these results, one by one. -/
def ReadAs (read : α → Except ε β) (parts : List α) (results : List β) : Prop :=
  List.Forall₂ (fun part result => read part = .ok result) parts results

/-- A list can be read when each of its parts can. -/
theorem exists_readAs_iff :
    (∃ results, ReadAs read parts results) ↔ ∀ part ∈ parts, ∃ result, read part = .ok result := by
  induction parts with
  | nil => exact iff_of_true ⟨[], .nil⟩ (List.forall_mem_nil _)
  | cons part parts ih =>
    rw [List.forall_mem_cons, ← ih]
    constructor
    · rintro ⟨_, hread⟩
      cases hread with
      | cons hpart hparts => exact ⟨⟨_, hpart⟩, _, hparts⟩
    · rintro ⟨⟨result, hpart⟩, results, hparts⟩
      exact ⟨result :: results, .cons hpart hparts⟩

namespace ReadAs

/-- What holds of every result holds of what every part is read as. -/
theorem forall_iff (h : ReadAs read parts results) (Holds : β → Prop) :
    (∀ result ∈ results, Holds result) ↔
      ∀ part ∈ parts, ∃ result, read part = .ok result ∧ Holds result := by
  induction h with
  | nil => simp
  | cons hpart _ ih => simp [hpart, ih]

/-- What holds of some result holds of what some part is read as. -/
theorem exists_iff (h : ReadAs read parts results) (Holds : β → Prop) :
    (∃ result ∈ results, Holds result) ↔
      ∃ part ∈ parts, ∃ result, read part = .ok result ∧ Holds result := by
  induction h with
  | nil => simp
  | cons hpart _ ih => simp [hpart, ih]

end ReadAs

/-- Whether a list is read by reading its parts and putting what they give one behind the other. -/
structure ReadsEach (readAll : List α → Except ε (List β)) : Prop where
  /-- Nothing gives nothing. -/
  nil : readAll [] = .ok []
  /-- The first part comes first. -/
  cons : ∀ part parts, readAll (part :: parts) = do
    let first ← readAll [part]
    let others ← readAll parts
    return first ++ others

/-- What a list is read as consists of what its parts are read as. -/
theorem ReadsEach.eq_ok_iff {readAll : List α → Except ε (List β)} (h : ReadsEach readAll)
    {results : List β} :
    readAll parts = .ok results ↔
      ∃ groups, ReadAs (fun part => readAll [part]) parts groups ∧ groups.flatten = results := by
  induction parts generalizing results with
  | nil =>
    rw [h.nil, Except.ok.injEq]
    constructor
    · rintro rfl
      exact ⟨[], .nil, rfl⟩
    · rintro ⟨_, ⟨⟩, hresults⟩
      exact hresults
  | cons part parts ih =>
    simp only [h.cons part parts, block_eq_ok_iff, pure_eq_ok_iff, ih]
    constructor
    · rintro ⟨first, hfirst, _, ⟨groups, hgroups, rfl⟩, rfl⟩
      exact ⟨first :: groups, .cons hfirst hgroups, List.flatten_cons⟩
    · rintro ⟨_, hread, rfl⟩
      cases hread with
      | @cons _ first _ groups hfirst hgroups =>
        exact ⟨first, hfirst, _, ⟨groups, hgroups, rfl⟩, List.flatten_cons.symm⟩

end Lists

namespace Filter

/-! ## Meeting several filters -/

/-- A document meets all filters of a list when it meets each of them. -/
theorem acceptsAll_iff {document : Document} {filters : List Filter} :
    acceptsAll document filters ↔ ∀ filter ∈ filters, filter.accepts document := by
  induction filters with
  | nil => simp [acceptsAll]
  | cons filter filters ih => simp [acceptsAll, ih]

/-- A document meets some filter of a list when there is one that it meets. -/
theorem acceptsAny_iff {document : Document} {filters : List Filter} :
    acceptsAny document filters ↔ ∃ filter ∈ filters, filter.accepts document := by
  induction filters with
  | nil => simp [acceptsAny]
  | cons filter filters ih => simp [acceptsAny, ih]

/-- A document meets the conjunction of a list when it meets each filter, also when there is one. -/
theorem accepts_conjunction_iff {document : Document} {filters : List Filter} :
    (conjunction filters).accepts document ↔ ∀ filter ∈ filters, filter.accepts document := by
  match filters with
  | [] => exact acceptsAll_iff
  | [filter] => simp [conjunction]
  | _ :: _ :: _ => exact acceptsAll_iff

/-! ## How the parts of a filter are read -/

/-- The members of an object are read one by one. -/
theorem readsEach_membersToFilters : ReadsEach membersToFilters where
  nil := rfl
  cons member members := by
    obtain ⟨name, value⟩ := member
    -- What the first member gives does not depend on those behind it.
    obtain ⟨result, hresult⟩ : ∃ result, ∀ others, membersToFilters ((name, value) :: others) =
        (do let first ← result
            let others ← membersToFilters others
            return first ++ others) := by
      simp only [membersToFilters]
      split_ifs <;> exact ⟨_, fun _ => rfl⟩
    rw [hresult members, hresult []]
    cases result with
    | error _ => rfl
    | ok first => exact congrArg (fun first => (do
        let others ← membersToFilters members
        return first ++ others)) (List.append_nil first).symm

/-- The operators of a condition are read one by one. -/
theorem readsEach_operatorsOf (field : String) : ReadsEach (operatorsOf field) where
  nil := rfl
  cons operator operators := by
    obtain ⟨name, value⟩ := operator
    obtain ⟨result, hresult⟩ : ∃ result, ∀ others, operatorsOf field ((name, value) :: others) =
        (do let first ← result
            let others ← operatorsOf field others
            return first :: others) := by
      simp only [operatorsOf]
      split_ifs <;> exact ⟨_, fun _ => rfl⟩
    rw [hresult operators, hresult []]
    cases result <;> rfl

/-- The clauses of a logical operator are read as filters of their own. -/
theorem itemsToFilters_eq_ok_iff {items : List Json} {filters : List Filter} :
    itemsToFilters items = .ok filters ↔ ReadAs ofJson items filters := by
  induction items generalizing filters with
  | nil =>
    rw [itemsToFilters, Except.ok.injEq]
    constructor
    · rintro rfl
      exact .nil
    · rintro ⟨⟩
      rfl
  | cons item items ih =>
    simp only [itemsToFilters, block_eq_ok_iff, pure_eq_ok_iff, ih]
    constructor
    · rintro ⟨first, hfirst, others, hothers, rfl⟩
      exact .cons hfirst hothers
    · intro hread
      cases hread with
      | cons hfirst hothers => exact ⟨_, hfirst, _, hothers, rfl⟩

/-! ## Objects, conditions and logical operators -/

/-- An object with one field writes the conditions of the field. -/
theorem ofJson_field {field : String} (hfield : isOperatorName field = false) (value : Json) :
    ofJson (.object [(field, value)]) = (conditionOf field value).map conjunction := by
  have hne : ∀ name, isOperatorName name → field ≠ name := by
    rintro name hname rfl
    rw [hname] at hfield
    cases hfield
  simp only [ofJson, membersToFilters, hne "$and" (by decide), hne "$or" (by decide),
    hne "$nor" (by decide), hfield, if_false, Bool.false_eq_true]
  cases conditionOf field value with
  | error _ => rfl
  | ok filters => exact congrArg (Except.ok ∘ conjunction) (List.append_nil filters)

/-- One operator makes a condition of operators. -/
theorem areOperators_singleton {operator : String} (h : isOperatorName operator) (value : Json) :
    areOperators [(operator, value)] := by
  simp [areOperators, h]

/-- A condition of operators has some operator. -/
theorem exists_mem_of_areOperators {operators : List (String × Json)}
    (h : areOperators operators) : ∃ operator, operator ∈ operators := by
  cases operators with
  | nil => cases h
  | cons operator operators => exact ⟨operator, List.mem_cons_self⟩

/-- Each operator of a condition makes a condition of its own. -/
theorem areOperators_singleton_of_mem {operators : List (String × Json)}
    (h : areOperators operators) {operator : String × Json} (hmem : operator ∈ operators) :
    areOperators [operator] := by
  simp only [areOperators, Bool.and_eq_true, List.all_eq_true] at h
  exact areOperators_singleton (h.2 operator hmem) operator.2

/-- An object with one field and a condition of operators writes what the operators write. -/
theorem ofJson_operators {field : String} {operators : List (String × Json)}
    (hfield : isOperatorName field = false) (hoperators : areOperators operators) :
    ofJson (.object [(field, .object operators)]) = (operatorsOf field operators).map conjunction := by
  rw [ofJson_field hfield, conditionOf, if_pos hoperators]

/-- A negated condition of operators writes the negation of what the condition writes. -/
theorem ofJson_negation {field : String} {operators : List (String × Json)}
    (hfield : isOperatorName field = false) (hoperators : areOperators operators) :
    ofJson (.object [(field, .object [("$not", .object operators)])]) =
      (ofJson (.object [(field, .object operators)])).map not := by
  have hnot := areOperators_singleton (show isOperatorName "$not" by decide) (.object operators)
  rw [ofJson_operators hfield hnot, ofJson_operators hfield hoperators, operatorsOf,
    if_neg (by decide), if_pos rfl, negationOf, if_pos hoperators]
  cases operatorsOf field operators <;> rfl

/-- An object with one logical operator writes what the operator makes of its clauses. -/
theorem ofJson_logical (items : List Json) :
    ofJson (.object [("$and", .array items)]) = (itemsToFilters items).map all ∧
      ofJson (.object [("$or", .array items)]) = (itemsToFilters items).map any ∧
      ofJson (.object [("$nor", .array items)]) =
        (itemsToFilters items).map fun clauses => not (any clauses) := by
  have hclauses : clausesOfJson (.array items) = itemsToFilters items := rfl
  refine ⟨?_, ?_, ?_⟩
  · rw [ofJson, membersToFilters, if_pos rfl, hclauses]
    cases itemsToFilters items <;> rfl
  · rw [ofJson, membersToFilters, if_neg (by decide), if_pos rfl, hclauses]
    cases itemsToFilters items <;> rfl
  · rw [ofJson, membersToFilters, if_neg (by decide), if_neg (by decide), if_pos rfl, hclauses]
    cases itemsToFilters items <;> rfl

end Filter

/-! ## Filters that are put together -/

namespace Json

/-- Whether a JSON value writes a filter. -/
def WritesFilter (value : Json) : Prop := ∃ filter, Filter.ofJson value = .ok filter

/-- Whether a JSON value writes a filter that a document meets. -/
def Selects (value : Json) (document : Document) : Prop :=
  ∃ filter, Filter.ofJson value = .ok filter ∧ filter.accepts document

variable {value : Json} {α : Type} {result : Except RequestError α} {wrap : α → Filter}

/-- A value that is read by wrapping a result writes a filter when there is a result. -/
theorem writesFilter_iff_of_map (h : Filter.ofJson value = result.map wrap) :
    value.WritesFilter ↔ ∃ inner, result = .ok inner := by
  cases result <;> simp [WritesFilter, h, Except.map]

/-- It selects a document when that meets the wrapped result. -/
theorem selects_iff_of_map (h : Filter.ofJson value = result.map wrap) (document : Document) :
    value.Selects document ↔ ∃ inner, result = .ok inner ∧ (wrap inner).accepts document := by
  cases result <;> simp [Selects, h, Except.map]

/-- Nothing is a filter that has an operator with an object in the place of a field. -/
theorem not_writesFilter_of_isOperatorName {field : String} (hfield : isOperatorName field)
    (members : List (String × Json)) : ¬ (object [(field, .object members)]).WritesFilter := by
  rintro ⟨filter, hread⟩
  simp only [Filter.ofJson, Filter.membersToFilters, Filter.clausesOfJson, hfield, if_true] at hread
  split_ifs at hread <;> cases hread

end Json

namespace Filter

/-- Whether a JSON value writes a filter when its parts do, and which documents it selects then. -/
structure PutTogether (whole : Json) (parts : List Json) (meets : Document → Prop) : Prop where
  /-- It writes a filter when each of its parts does. -/
  writes : whole.WritesFilter ↔ ∀ part ∈ parts, part.WritesFilter
  /-- It selects these documents then. -/
  selects : whole.WritesFilter → ∀ document, whole.Selects document ↔ meets document

namespace PutTogether

variable {whole : Json} {parts : List Json} {meets : Document → Prop}

/-- What writes no filter is put together of parts one of which writes none. -/
theorem of_not_writesFilter (hwhole : ¬ whole.WritesFilter)
    (hparts : ∃ part ∈ parts, ¬ part.WritesFilter) : PutTogether whole parts meets := by
  obtain ⟨part, hmem, hpart⟩ := hparts
  exact ⟨iff_of_false hwhole fun hall => hpart (hall part hmem),
    fun hwrites => absurd hwrites hwhole⟩

/-- A value that is read as a list of members is put together of the values with one of them each. -/
theorem of_readsEach {readAll : List (String × Json) → Except RequestError (List Filter)}
    (hreadAll : ReadsEach readAll) (write : List (String × Json) → Json)
    {members : List (String × Json)}
    (hwhole : ofJson (write members) = (readAll members).map conjunction)
    (hparts : ∀ member ∈ members, ofJson (write [member]) = (readAll [member]).map conjunction) :
    PutTogether (write members) (members.map fun member => write [member]) fun document =>
      ∀ member ∈ members, (write [member]).Selects document := by
  have hwrites : (write members).WritesFilter ↔
      ∃ groups, ReadAs (fun member => readAll [member]) members groups := by
    simp only [Json.writesFilter_iff_of_map hwhole, hreadAll.eq_ok_iff]
    exact ⟨fun ⟨_, groups, hgroups, _⟩ => ⟨groups, hgroups⟩,
      fun ⟨groups, hgroups⟩ => ⟨_, groups, hgroups, rfl⟩⟩
  constructor
  · rw [hwrites, exists_readAs_iff, List.forall_mem_map]
    exact forall₂_congr fun member hmem =>
      (Json.writesFilter_iff_of_map (hparts member hmem)).symm
  · intro hwrite document
    obtain ⟨groups, hgroups⟩ := hwrites.mp hwrite
    have hread := hreadAll.eq_ok_iff.mpr ⟨groups, hgroups, rfl⟩
    calc (write members).Selects document
        ↔ (conjunction groups.flatten).accepts document := by
          rw [Json.selects_iff_of_map hwhole, hread]
          simp
      _ ↔ ∀ group ∈ groups, (conjunction group).accepts document := by
          simp only [accepts_conjunction_iff, List.mem_flatten]
          exact ⟨fun h group hgroup filter hfilter => h filter ⟨group, hgroup, hfilter⟩,
            fun h filter ⟨group, hgroup, hfilter⟩ => h group hgroup filter hfilter⟩
      _ ↔ ∀ member ∈ members, (write [member]).Selects document := by
          rw [hgroups.forall_iff]
          exact forall₂_congr fun member hmem =>
            (Json.selects_iff_of_map (hparts member hmem) document).symm

/-- A value that is read as a list of clauses is put together of these. -/
theorem of_clauses {wrap : List Filter → Filter} {clauses : List Json}
    (hwhole : ofJson whole = (itemsToFilters clauses).map wrap)
    (hmeets : ∀ document filters, ReadAs ofJson clauses filters →
      ((wrap filters).accepts document ↔ meets document)) : PutTogether whole clauses meets := by
  constructor
  · simp only [Json.writesFilter_iff_of_map hwhole, itemsToFilters_eq_ok_iff, exists_readAs_iff]
    rfl
  · intro hwrites document
    obtain ⟨filters, hread⟩ := (Json.writesFilter_iff_of_map hwhole).mp hwrites
    rw [Json.selects_iff_of_map hwhole, ← hmeets document filters (itemsToFilters_eq_ok_iff.mp hread),
      hread]
    simp

/-- A value that is read as the negation of another one is put together of that. -/
theorem of_negation {part : Json} (hwhole : ofJson whole = (ofJson part).map not) :
    PutTogether whole [part] fun document => ¬ part.Selects document := by
  constructor
  · rw [List.forall_mem_singleton, Json.writesFilter_iff_of_map hwhole]
    rfl
  · intro hwrites document
    obtain ⟨filter, hread⟩ := (Json.writesFilter_iff_of_map hwhole).mp hwrites
    rw [Json.selects_iff_of_map hwhole, Json.Selects, hread]
    simp [accepts]

end PutTogether

/-- Whether a JSON value writes a filter, and which documents it selects then, is decided by its parts.
An object is put together of its members, and a condition of operators of these: every part must select
the document. A logical operator is put together of its clauses, every, some or none of which must, and
the negation of a condition of operators of that condition, which must not. The parts are any JSON
values, and may be put together in turn. -/
theorem ofJson_putTogether :
    (∀ members : List (String × Json),
      PutTogether (.object members) (members.map fun member => .object [member]) fun document =>
        ∀ member ∈ members, (Json.object [member]).Selects document) ∧
    (∀ (field : String) (operators : List (String × Json)), areOperators operators →
      PutTogether (.object [(field, .object operators)])
        (operators.map fun operator => .object [(field, .object [operator])]) fun document =>
          ∀ operator ∈ operators, (Json.object [(field, .object [operator])]).Selects document) ∧
    (∀ clauses : List Json,
      (PutTogether (.object [("$and", .array clauses)]) clauses fun document =>
        ∀ clause ∈ clauses, clause.Selects document) ∧
      (PutTogether (.object [("$or", .array clauses)]) clauses fun document =>
        ∃ clause ∈ clauses, clause.Selects document) ∧
      PutTogether (.object [("$nor", .array clauses)]) clauses fun document =>
        ¬ ∃ clause ∈ clauses, clause.Selects document) ∧
    ∀ (field : String) (operators : List (String × Json)), areOperators operators →
      PutTogether (.object [(field, .object [("$not", .object operators)])])
        [.object [(field, .object operators)]] fun document =>
          ¬ (Json.object [(field, .object operators)]).Selects document := by
  refine ⟨fun members => ?_, fun field operators hoperators => ?_, fun clauses => ?_,
    fun field operators hoperators => ?_⟩
  · exact .of_readsEach readsEach_membersToFilters .object (by rw [ofJson]) fun _ _ => by rw [ofJson]
  · cases hfield : isOperatorName field with
    | false =>
      exact .of_readsEach (readsEach_operatorsOf field)
        (fun operators => .object [(field, .object operators)])
        (ofJson_operators hfield hoperators) fun operator hmem =>
          ofJson_operators hfield (areOperators_singleton_of_mem hoperators hmem)
    | true =>
      -- The name is no field's, and a condition has an operator, which makes no filter either.
      obtain ⟨operator, hmem⟩ := exists_mem_of_areOperators hoperators
      exact .of_not_writesFilter (Json.not_writesFilter_of_isOperatorName hfield operators)
        ⟨_, List.mem_map_of_mem hmem, Json.not_writesFilter_of_isOperatorName hfield [operator]⟩
  · obtain ⟨hand, hor, hnor⟩ := ofJson_logical clauses
    refine ⟨.of_clauses hand fun document filters hread => ?_,
      .of_clauses hor fun document filters hread => ?_,
      .of_clauses hnor fun document filters hread => ?_⟩
    · rw [accepts, acceptsAll_iff, hread.forall_iff]
      rfl
    · rw [accepts, acceptsAny_iff, hread.exists_iff]
      rfl
    · rw [accepts, accepts, Bool.not_eq_true', ← Bool.not_eq_true, acceptsAny_iff, hread.exists_iff]
      rfl
  · cases hfield : isOperatorName field with
    | false => exact .of_negation (ofJson_negation hfield hoperators)
    | true =>
      exact .of_not_writesFilter (Json.not_writesFilter_of_isOperatorName hfield _)
        ⟨_, List.mem_singleton_self _, Json.not_writesFilter_of_isOperatorName hfield operators⟩

/-- A condition under a negation. -/
def isDraft : List (String × Json) := [("$in", .array [.string "draft", .string "sketch"]),
  ("$exists", .bool true)]

/-- A condition with that negation. -/
def isNoDraft : List (String × Json) := [("$ne", .string "lost"), ("$not", .object isDraft)]

/-- A document that is no draft. -/
def finalDocument : Document := [(idField, .objectId (.ofNat 7)), ("state", .string "final")]

/-- The document is selected since each operator selects it, the negation because the condition under it
does not. -/
theorem ofJson_putTogether_isNoDraft :
    areOperators isNoDraft ∧ areOperators isDraft ∧
      ¬ (Json.object [("state", .object isDraft)]).Selects finalDocument ∧
      (Json.object [("state", .object isNoDraft)]).Selects finalDocument := by
  obtain ⟨-, hcondition, -, hnegation⟩ := ofJson_putTogether
  have houter : areOperators isNoDraft := by decide
  have hinner : areOperators isDraft := by decide
  have hnot : ¬ (Json.object [("state", .object isDraft)]).Selects finalDocument := by
    rintro ⟨filter, hread, haccepts⟩
    cases hread
    exact absurd haccepts (by decide)
  refine ⟨houter, hinner, hnot, ((hcondition "state" _ houter).selects ⟨_, rfl⟩ _).mpr ?_⟩
  refine List.forall_mem_cons.mpr ⟨⟨_, rfl, by decide⟩, List.forall_mem_singleton.mpr ?_⟩
  exact ((hnegation "state" _ hinner).selects ⟨_, rfl⟩ _).mpr hnot

end Filter

end RestArchive
