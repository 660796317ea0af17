import RestArchive.Mongo
import RestArchive.Proofs.FilterParts
import RestArchive.Proofs.ProperJson

/-! # What a rendered query means

The query that a filter is, shown as JSON, writes a filter again, and every document with an identifier
meets the one when it meets the other (`Filter.ofJson_query`). The two need not be the same filter: a
disjunction of nothing is written as an identifier that is missing, and a negation as one of a list.

What a query needs to be read back is what every filter that was read has (`Filter.Readable`): no field is
named like an operator, an operand is the same under its field after it went through JSON, and an
operand is a list where one is asked for. -/

namespace RestArchive

namespace Filter

/-! ## Operands -/

/-- Items that come back the same under an identifier path make a list that does. -/
theorem idOperands_itemsToJson {items : List Json}
    (h : ∀ item ∈ items, idOperand (idOperand item).toJson = idOperand item) :
    idOperands (Value.itemsToJson (idOperands items)) = idOperands items := by
  induction items with
  | nil => rfl
  | cons item items ih =>
    obtain ⟨hitem, hitems⟩ := List.forall_mem_cons.mp h
    simp only [idOperands, Value.itemsToJson, hitem, ih hitems]

/-- A text that was cast to an identifier is cast again, and any other stays a text. -/
theorem idOperand_toJson_string (text : String) :
    idOperand (idOperand (.string text)).toJson = idOperand (.string text) := by
  cases hid : ObjectId.ofHex? text with
  | none => simp only [idOperand, hid, Value.toJson]
  | some id => simp only [idOperand, hid, Value.toJson, ObjectId.ofHex?_toHex]

/-- A number is no text that could be cast. -/
theorem idOperand_toJson_ofInteger (n : Int) :
    idOperand (Value.ofInteger n).toJson = Value.ofJson (Value.ofInteger n).toJson := by
  rw [Value.ofInteger]
  split
  · rfl
  split
  · rfl
  · rw [Value.toJson]
    split <;> rfl

/-- A cast operand is the same after it went to JSON and back. -/
theorem idOperand_toJson_idOperand {value : Json} (h : value.IsProper) :
    idOperand (idOperand value).toJson = idOperand value := by
  induction h with
  | null => rfl
  | bool _ => rfl
  | integer hlow hhigh =>
    exact (idOperand_toJson_ofInteger _).trans (Value.ofJson_toJson_ofInteger hlow hhigh)
  | double hfinite => simp only [idOperand, Value.ofJson, Value.toJson, hfinite, if_true]
  | string text => exact idOperand_toJson_string text
  | array _ ih => exact congrArg Value.array (idOperands_itemsToJson ih)
  | object hmembers _ => exact Value.ofJson_toJson_ofJson (.object hmembers)

/-- An operand is the same under its field after it went to JSON and back. -/
theorem operand_toJson_operand (field : String) {value : Json} (h : value.IsProper) :
    operand field (operand field value).toJson = operand field value := by
  unfold operand
  split
  · exact idOperand_toJson_idOperand h
  · exact Value.ofJson_toJson_ofJson h

/-- A list is a list as an operand of any field. -/
theorem operand_array (field : String) (items : List Json) :
    ∃ operands, operand field (.array items) = .array operands := by
  unfold operand
  split
  · exact ⟨idOperands items, rfl⟩
  · exact ⟨Value.itemsOfJson items, rfl⟩

/-! ## Filters that were read -/

/-- A filter that can be read back from JSON. -/
inductive Readable : Filter → Prop where
  /-- Every clause can be read back. -/
  | all {clauses : List Filter} (hclauses : ∀ clause ∈ clauses, Readable clause) :
    Readable (.all clauses)
  /-- Every clause can be read back. -/
  | any {clauses : List Filter} (hclauses : ∀ clause ∈ clauses, Readable clause) :
    Readable (.any clauses)
  /-- The clause can be read back. -/
  | not {clause : Filter} (hclause : Readable clause) : Readable (.not clause)
  /-- The field is not named like an operator. -/
  | present {field : String} (hfield : isOperatorName field = false) (expected : Bool) :
    Readable (.present field expected)
  /-- The field is not named like an operator, and the operand comes back as it is. -/
  | compare {field : String} {comparison : Comparison} {value : Value}
    (hfield : isOperatorName field = false) (hoperand : operand field value.toJson = value)
    (hlist : comparison.takesList → ∃ items, value = .array items) :
    Readable (.compare field comparison value)

/-- A list of conditions can be read back as one. -/
theorem Readable.conjunction {filters : List Filter} (h : ∀ filter ∈ filters, filter.Readable) :
    (conjunction filters).Readable := by
  match filters with
  | [] => exact .all h
  | [filter] => exact h filter List.mem_cons_self
  | _ :: _ :: _ => exact .all h

/-- A comparison that was read can be read back. -/
theorem readable_of_comparisonOf {field operator : String} (hfield : isOperatorName field = false)
    {value : Json} {filter : Filter} (hvalue : value.IsProper)
    (h : comparisonOf field operator value = .ok filter) : filter.Readable := by
  have hoperand := operand_toJson_operand field hvalue
  unfold comparisonOf at h
  split at h
  case h_1 => cases h
  case h_2 comparison _ =>
    split at h
    case h_1 htakes =>
      cases h
      exact .compare hfield hoperand fun hlist => absurd hlist (by rw [htakes]; decide)
    case h_2 items _ =>
      cases h
      exact .compare hfield hoperand fun _ => operand_array field items
    case h_3 => cases h

mutual

/-- The conditions that operators write can be read back. -/
theorem readable_of_operatorsOf {field : String} (hfield : isOperatorName field = false) :
    ∀ {members : List (String × Json)} {filters : List Filter},
      (∀ entry ∈ members, entry.2.IsProper) → operatorsOf field members = .ok filters →
        ∀ filter ∈ filters, filter.Readable
  | [], _, _, h => by
    cases h
    exact List.forall_mem_nil _
  | (operator, value) :: members, filters, hmembers, h => by
    obtain ⟨hvalue, hrest⟩ := List.forall_mem_cons.mp hmembers
    -- Whichever kind the first operator is of, the others are read in the same way.
    have hcons {result : Except RequestError Filter}
        (hresult : ∀ {filter}, result = .ok filter → filter.Readable)
        (h : (do
          let first ← result
          let others ← operatorsOf field members
          return first :: others) = .ok filters) : ∀ filter ∈ filters, filter.Readable := by
      simp only [block_eq_ok_iff, pure_eq_ok_iff] at h
      obtain ⟨first, hfirst, others, hothers, rfl⟩ := h
      exact List.forall_mem_cons.mpr ⟨hresult hfirst, readable_of_operatorsOf hfield hrest hothers⟩
    rw [operatorsOf] at h
    split at h
    case isTrue =>
      refine hcons (fun hpresent => ?_) h
      cases hpresent
      exact .present hfield _
    case isFalse =>
      split at h
      case isTrue => exact hcons (readable_of_negationOf hfield hvalue) h
      case isFalse => exact hcons (readable_of_comparisonOf hfield hvalue) h

/-- A negated condition can be read back. -/
theorem readable_of_negationOf {field : String} (hfield : isOperatorName field = false) :
    ∀ {value : Json} {filter : Filter},
      value.IsProper → negationOf field value = .ok filter → filter.Readable
  | .object members, _, .object hmembers, h => by
    rw [negationOf] at h
    split at h
    case isTrue =>
      obtain ⟨filters, hfilters, rfl⟩ := map_eq_ok_iff.mp h
      exact .not (.conjunction (readable_of_operatorsOf hfield hmembers hfilters))
    case isFalse => cases h

end

/-- The conditions of a field can be read back. -/
theorem readable_of_conditionOf {field : String} (hfield : isOperatorName field = false)
    {value : Json} {filters : List Filter} (hvalue : value.IsProper)
    (h : conditionOf field value = .ok filters) : ∀ filter ∈ filters, filter.Readable := by
  have hequal : ∀ filter ∈ [compare field .equal (operand field value)], filter.Readable :=
    List.forall_mem_singleton.mpr (.compare hfield (operand_toJson_operand field hvalue) nofun)
  unfold conditionOf at h
  split at h
  case h_1 members =>
    split at h
    case isTrue =>
      cases hvalue with
      | object hmembers => exact readable_of_operatorsOf hfield hmembers h
    case isFalse =>
      cases h
      exact hequal
  case h_2 =>
    cases h
    exact hequal

mutual

/-- A filter that was read from proper JSON can be read back. -/
theorem readable_of_ofJson : ∀ {value : Json} {filter : Filter},
    value.IsProper → ofJson value = .ok filter → filter.Readable
  | .object members, _, .object hmembers, h => by
    rw [ofJson] at h
    obtain ⟨filters, hfilters, rfl⟩ := map_eq_ok_iff.mp h
    exact .conjunction (readable_of_membersToFilters hmembers hfilters)

/-- Clauses that were read from proper JSON can be read back. -/
theorem readable_of_clausesOfJson : ∀ {value : Json} {filters : List Filter},
    value.IsProper → clausesOfJson value = .ok filters → ∀ filter ∈ filters, filter.Readable
  | .array _, _, .array hitems, h => readable_of_itemsToFilters hitems h

/-- The filters that proper items write can be read back. -/
theorem readable_of_itemsToFilters : ∀ {items : List Json} {filters : List Filter},
    (∀ item ∈ items, item.IsProper) → itemsToFilters items = .ok filters →
      ∀ filter ∈ filters, filter.Readable
  | [], _, _, h => by
    cases h
    exact List.forall_mem_nil _
  | item :: items, _, hitems, h => by
    obtain ⟨hitem, hrest⟩ := List.forall_mem_cons.mp hitems
    simp only [itemsToFilters, block_eq_ok_iff, pure_eq_ok_iff] at h
    obtain ⟨first, hfirst, others, hothers, rfl⟩ := h
    exact List.forall_mem_cons.mpr
      ⟨readable_of_ofJson hitem hfirst, readable_of_itemsToFilters hrest hothers⟩

/-- The filters that proper members write can be read back. -/
theorem readable_of_membersToFilters : ∀ {members : List (String × Json)} {filters : List Filter},
    (∀ entry ∈ members, entry.2.IsProper) → membersToFilters members = .ok filters →
      ∀ filter ∈ filters, filter.Readable
  | [], _, _, h => by
    cases h
    exact List.forall_mem_nil _
  | (name, value) :: members, filters, hmembers, h => by
    obtain ⟨hvalue, hrest⟩ := List.forall_mem_cons.mp hmembers
    have happend {result : Except RequestError (List Filter)}
        (hresult : ∀ {firsts}, result = .ok firsts → ∀ filter ∈ firsts, filter.Readable)
        (h : (do
          let first ← result
          let others ← membersToFilters members
          return first ++ others) = .ok filters) : ∀ filter ∈ filters, filter.Readable := by
      simp only [block_eq_ok_iff, pure_eq_ok_iff] at h
      obtain ⟨firsts, hfirsts, others, hothers, rfl⟩ := h
      exact List.forall_mem_append.mpr
        ⟨hresult hfirsts, readable_of_membersToFilters hrest hothers⟩
    -- The three logical operators differ only in how they wrap their clauses.
    have hclauses {wrap : List Filter → Filter}
        (hwrap : ∀ {clauses}, (∀ clause ∈ clauses, clause.Readable) → (wrap clauses).Readable)
        {firsts : List Filter}
        (h : (clausesOfJson value).map (fun clauses => [wrap clauses]) = .ok firsts) :
        ∀ filter ∈ firsts, filter.Readable := by
      obtain ⟨clauses, hread, rfl⟩ := map_eq_ok_iff.mp h
      exact List.forall_mem_singleton.mpr (hwrap (readable_of_clausesOfJson hvalue hread))
    rw [membersToFilters] at h
    split at h
    case isTrue => exact happend (hclauses .all) h
    split at h
    case isTrue => exact happend (hclauses .any) h
    split at h
    case isTrue => exact happend (hclauses fun hany => .not (.any hany)) h
    split at h
    case isTrue =>
      refine happend (fun hrefused => ?_) h
      cases hrefused
    case isFalse hname =>
      exact happend (readable_of_conditionOf (Bool.eq_false_iff.mpr hname) hvalue) h

end

/-! ## Reading a query back -/

/-- A JSON value writes a filter again: every document with an identifier meets what it writes when it
meets the filter. -/
def WrittenAs (filter : Filter) (value : Json) : Prop :=
  ∃ again, ofJson value = .ok again ∧ ∀ document : Document, document.contains idField →
    again.accepts document = filter.accepts document

/-- Each filter of a list is written again by the JSON value at its place. -/
theorem exists_of_forall_writtenAs {filters : List Filter}
    (h : ∀ filter ∈ filters, filter.WrittenAs (Mongo.query filter).toJson) :
    ∃ agains, itemsToFilters (Value.itemsToJson (Mongo.queries filters)) = .ok agains ∧
      ∀ document : Document, document.contains idField →
        acceptsAll document agains = acceptsAll document filters ∧
          acceptsAny document agains = acceptsAny document filters := by
  induction filters with
  | nil => exact ⟨[], rfl, fun _ _ => ⟨rfl, rfl⟩⟩
  | cons filter filters ih =>
    obtain ⟨⟨again, hread, hsame⟩, hfilters⟩ := List.forall_mem_cons.mp h
    obtain ⟨agains, hreads, hsames⟩ := ih hfilters
    refine ⟨again :: agains, ?_, fun document hid => ?_⟩
    · have hread' : ofJson (Value.document (Mongo.query filter)).toJson = .ok again := hread
      simp only [Mongo.queries, Value.itemsToJson, itemsToFilters, hread', hreads]
      rfl
    · obtain ⟨hall, hany⟩ := hsames document hid
      simp only [acceptsAll, acceptsAny, hsame document hid, hall, hany, and_self]

/-- Once its clauses are read, an object with one logical operator is read. -/
theorem ofJson_logical_of_ok {items : List Json} {clauses : List Filter}
    (h : itemsToFilters items = .ok clauses) :
    ofJson (.object [("$and", .array items)]) = .ok (.all clauses) ∧
      ofJson (.object [("$or", .array items)]) = .ok (.any clauses) ∧
      ofJson (.object [("$nor", .array items)]) = .ok (.not (.any clauses)) := by
  obtain ⟨hand, hor, hnor⟩ := ofJson_logical items
  rw [hand, hor, hnor, h]
  exact ⟨rfl, rfl, rfl⟩

/-- An object with one operator is a condition of operators. -/
theorem conditionOf_operator (field : String) {operator : String} (h : isOperatorName operator)
    (value : Json) :
    conditionOf field (.object [(operator, value)]) = operatorsOf field [(operator, value)] := by
  rw [conditionOf, if_pos (areOperators_singleton h value)]

/-- A comparison is written by its operator. -/
theorem conditionOf_comparison (field : String) (comparison : Comparison) (value : Json) :
    conditionOf field (.object [(comparison.operator, value)]) =
      (comparisonOf field comparison.operator value).map fun filter => [filter] := by
  have hname : isOperatorName comparison.operator := by cases comparison <;> decide
  have hexists : comparison.operator ≠ "$exists" := by cases comparison <;> decide
  have hnot : comparison.operator ≠ "$not" := by cases comparison <;> decide
  rw [conditionOf_operator field hname, operatorsOf, if_neg hexists, if_neg hnot]
  cases comparisonOf field comparison.operator value <;> rfl

/-- A comparison whose operand comes back as it is, and is a list where one is asked for, is written
again. -/
theorem writtenAs_compare {field : String} {comparison : Comparison} {value : Value}
    (hfield : isOperatorName field = false) (hoperand : operand field value.toJson = value)
    (hlist : comparison.takesList → ∃ items, value = .array items) :
    (compare field comparison value).WrittenAs
      (Mongo.query (.compare field comparison value)).toJson := by
  refine ⟨.compare field comparison value, ?_, fun _ _ => rfl⟩
  have hsame : Mongo.operand comparison value = value ∧
      comparisonOf field comparison.operator value.toJson =
        .ok (.compare field comparison value) := by
    cases htakes : comparison.takesList with
    | false =>
      simp only [Mongo.operand, comparisonOf, Comparison.ofOperator?_operator, htakes, hoperand,
        and_self]
    | true =>
      -- The operand is a list already, so that none has to be made of it.
      obtain ⟨items, rfl⟩ := hlist htakes
      rw [Value.toJson] at hoperand ⊢
      simp only [Mongo.operand, comparisonOf, Comparison.ofOperator?_operator, htakes, hoperand,
        and_self]
  obtain ⟨hrendered, hread⟩ := hsame
  simp only [Mongo.query, hrendered, Document.toJson, Value.membersToJson, Value.toJson,
    ofJson_field hfield, conditionOf_comparison, hread]
  rfl

/-- The condition that a value is there, or is not, is written again. -/
theorem writtenAs_present {field : String} (hfield : isOperatorName field = false)
    (expected : Bool) :
    (present field expected).WrittenAs (Mongo.query (.present field expected)).toJson := by
  refine ⟨.present field expected, ?_, fun _ _ => rfl⟩
  simp only [Mongo.query, Document.toJson, Value.membersToJson, Value.toJson, ofJson_field hfield,
    conditionOf_operator field (show isOperatorName "$exists" by decide), operatorsOf, if_true]
  rfl

/-- A document with an identifier has a value at the path of it. -/
theorem accepts_present_idField {document : Document} (h : document.contains idField)
    (expected : Bool) : accepts document (.present idField expected) = expected := by
  obtain ⟨value, hvalue⟩ := Option.isSome_iff_exists.mp h
  simp only [accepts, Document.resolve_idField, hvalue, Option.toList_some, List.isEmpty_cons]
  cases expected <;> rfl

/-- What can be read back is written again by the query that it is. -/
theorem Readable.writtenAs_query {filter : Filter} (h : filter.Readable) :
    filter.WrittenAs (Mongo.query filter).toJson := by
  induction h with
  | @all clauses _ ih =>
    obtain ⟨agains, hreads, hsame⟩ := exists_of_forall_writtenAs ih
    cases clauses with
    | nil => exact ⟨.all [], rfl, fun _ _ => rfl⟩
    | cons first rest =>
      exact ⟨.all agains, (ofJson_logical_of_ok hreads).1, fun document hid => (hsame document hid).1⟩
  | @any clauses _ ih =>
    obtain ⟨agains, hreads, hsame⟩ := exists_of_forall_writtenAs ih
    cases clauses with
    | nil =>
      -- A disjunction of nothing asks for a document without identifier.
      refine ⟨.present idField false, rfl, fun document hid => ?_⟩
      rw [accepts_present_idField hid]
      rfl
    | cons first rest =>
      exact ⟨.any agains, (ofJson_logical_of_ok hreads).2.1, fun document hid => (hsame document hid).2⟩
  | @not clause _ ih =>
    -- A negation comes back as one of a disjunction with a single clause.
    obtain ⟨again, hread, hsame⟩ := ih
    have hreads : itemsToFilters [(Mongo.query clause).toJson] = .ok [again] := by
      simp only [itemsToFilters, hread]
      rfl
    refine ⟨.not (.any [again]), (ofJson_logical_of_ok hreads).2.2, fun document hid => ?_⟩
    simp only [accepts, acceptsAny, hsame document hid, Bool.or_false]
  | present hfield expected => exact writtenAs_present hfield expected
  | compare hfield hoperand hlist => exact writtenAs_compare hfield hoperand hlist

/-- The query that a filter is, shown as JSON, writes a filter again, and every document with an
identifier meets the one exactly when it meets the other. The filter is any that was read from JSON as a
text can write it (`Json.isProper_of_ofText?`). -/
theorem ofJson_query {value : Json} {filter : Filter} (hvalue : value.IsProper)
    (h : ofJson value = .ok filter) :
    ∃ again, ofJson (Mongo.queryOf (some filter)).toJson = .ok again ∧
      ∀ document : Document, document.contains idField →
        again.accepts document = filter.accepts document :=
  (readable_of_ofJson hvalue h).writtenAs_query

/-- A filter in JSON with a disjunction of nothing, operands cast under an identifier path, a negated
condition of two operators, and an operand that looks like operators. -/
def nestedJson : Json :=
  .object [
    ("$nor", .array [.object [("$or", .array [])]]),
    ("tags._id", .object [("$in", .array [.string (ObjectId.toHex (.ofNat 7)), .string "seven"])]),
    ("size", .object [("$not", .object [("$gte", .integer 3), ("$exists", .bool true)])]),
    ("owner", .object [("$eq", .object [("$gt", .string "six")])])]

/-- The filter that `nestedJson` writes. -/
def nestedFilter : Filter :=
  .all [
    .not (.any [.any []]),
    .compare "tags._id" .anyOf (.array [.objectId (.ofNat 7), .string "seven"]),
    .not (.all [.compare "size" .greaterOrEqual (.int32 3), .present "size" true]),
    .compare "owner" .equal (.document [("$gt", .string "six")])]

/-- A document that meets `nestedFilter`. -/
def nestedDocument : Document :=
  [(idField, .objectId (.ofNat 1)),
    ("tags", .array [.document [(idField, .objectId (.ofNat 7))]]),
    ("owner", .document [("$gt", .string "six")])]

/-- The query of `nestedFilter` is met by `nestedDocument` when it is read back. -/
theorem ofJson_query_nestedJson :
    nestedJson.IsProper ∧ ofJson nestedJson = .ok nestedFilter ∧
      nestedDocument.contains idField ∧ nestedFilter.accepts nestedDocument ∧
        ∃ again, ofJson (Mongo.queryOf (some nestedFilter)).toJson = .ok again ∧
          again.accepts nestedDocument := by
  have hproper : nestedJson.IsProper := by
    repeat' first
      | decide
      | exact List.forall_mem_nil _
      | refine List.forall_mem_cons.mpr ⟨?_, ?_⟩
      | constructor
  have hread : ofJson nestedJson = .ok nestedFilter := rfl
  have haccepts : nestedFilter.accepts nestedDocument := by decide
  obtain ⟨again, hagain, hsame⟩ := ofJson_query hproper hread
  exact ⟨hproper, hread, rfl, haccepts, again, hagain, (hsame nestedDocument rfl).trans haccepts⟩

end Filter

end RestArchive
