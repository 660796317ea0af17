import RestArchive.Proofs.DocumentId
import RestArchive.Proofs.ProperJson

/-! # What becomes of a body

A body is refused when some member under the name of the identifier field, at whatever depth, is no text
of twenty-four hexadecimal digits, and it is refused for the first such member in the order of the text
(`Body.failure?_valueAt`). A body that is taken loses nothing: as JSON it is the body again, but for the
case of the digits in its identifiers (`Body.toJson_of_valueAt`). Both are put together in
`Body.document_object`. -/

namespace RestArchive

/-! ## Why a computation fails -/

section Failures

variable {ε α β γ : Type}

/-- What a computation fails with, if it fails. -/
def failure? : Except ε α → Option ε
  | .error failure => some failure
  | .ok _ => none

/-- A mapped result fails with what the result fails with. -/
theorem failure?_map (change : α → β) (result : Except ε α) :
    failure? (result.map change) = failure? result := by
  cases result <;> rfl

/-- Two steps that know nothing of each other fail with what the first one fails with, and otherwise with
what the second one does. -/
theorem failure?_steps (answer : α → β → γ) (first : Except ε α) (second : Except ε β) :
    failure? (do let a ← first; let b ← second; return answer a b) =
      (failure? first).or (failure? second) := by
  cases first <;> cases second <;> rfl

/-- What fails with something is an error, and nothing else. -/
theorem failure?_eq_some_iff {result : Except ε α} {failure : ε} :
    failure? result = some failure ↔ result = .error failure := by
  cases result <;> simp [failure?]

/-- What fails with nothing is a success. -/
theorem failure?_eq_none_iff {result : Except ε α} :
    failure? result = none ↔ ∃ value, result = .ok value := by
  cases result <;> simp [failure?]

end Failures

/-! ## Identifier fields in the order of the text -/

namespace Json

mutual

/-- The members under the name of the identifier field, at any depth, in the order of the text, each with
the names that lead to it. Items of an array stand where the array does. -/
def idMembers : Json → List (List String × Json)
  | .object members => idMembersOfMembers members
  | .array items => idMembersOfItems items
  | _ => []
termination_by structural value => value

/-- Those inside the items of an array. -/
def idMembersOfItems : List Json → List (List String × Json)
  | [] => []
  | item :: items => idMembers item ++ idMembersOfItems items
termination_by structural items => items

/-- Those among the members of an object, and inside them. A member comes before what is inside it. -/
def idMembersOfMembers : List (String × Json) → List (List String × Json)
  | [] => []
  | (name, value) :: members =>
    (if name = idField then [([name], value)] else [])
      ++ (idMembers value).map (fun (names, inner) => (name :: names, inner))
      ++ idMembersOfMembers members
termination_by structural members => members

end

/-- Whether a value is a text of exactly twenty-four hexadecimal digits. -/
def writesId : Json → Bool
  | .string text => ObjectId.isIdText text
  | _ => false

/-- The first of some members that is no such text. -/
def firstOffence? (members : List (List String × Json)) : Option (List String × Json) :=
  members.find? fun member => !member.2.writesId

/-- Members that stand behind others count when none of those offends. -/
theorem firstOffence?_append (first second : List (List String × Json)) :
    firstOffence? (first ++ second) = (firstOffence? first).or (firstOffence? second) :=
  List.find?_append

/-- The names that lead to a member do not count. -/
theorem firstOffence?_map (name : String) (members : List (List String × Json)) :
    firstOffence? (members.map fun (names, value) => (name :: names, value)) =
      (firstOffence? members).map fun (names, value) => (name :: names, value) :=
  List.find?_map

/-- There are no identifier fields inside a text. -/
theorem idMembers_of_writesId {value : Json} (h : value.writesId) : value.idMembers = [] := by
  cases value with
  | string text => rfl
  | _ => cases h

end Json

namespace Body

/-! ## Which bodies are taken -/

/-- The path that names lead to below a path. -/
def pathAlong (path : Option String) : List String → String
  | [] => path.getD ""
  | name :: names => pathAlong (some (memberPath path name)) names

/-- Names lead on below a path with a dot in front of each. -/
theorem pathAlong_some (above : String) (names : List String) :
    pathAlong (some above) names = Text.join '.' (above :: names) := by
  induction names generalizing above with
  | nil => simp [pathAlong, Text.join]
  | cons name names ih =>
    rw [pathAlong, memberPath, ih, ← String.toList_inj]
    cases names with
    | nil => simp [Text.join, Text.joined]
    | cons next others => simp [Text.toList_join_cons]

/-- Names lead to the path that they make with dots between them. -/
theorem pathAlong_none (names : List String) : pathAlong none names = Text.join '.' names := by
  cases names with
  | nil => rfl
  | cons name names => exact pathAlong_some name names

/-- How a member that offends is refused. -/
def refusal (path : Option String) (member : List String × Json) : StoreFailure :=
  .cast (pathAlong path member.1) (.notAnId member.2)

/-- An identifier field is refused unless it writes an identifier. -/
theorem failure?_castId (path : String) (value : Json) : failure? (castId path value) =
    if value.writesId then none else some (.cast path (.notAnId value)) := by
  cases value with
  | string text =>
    rw [castId, Json.writesId, ← ObjectId.isSome_ofHex?]
    cases ObjectId.ofHex? text <;> rfl
  | _ => rfl

/-- A member is refused as a cast or as a part of a body, by its name; then those behind it are. -/
theorem failure?_membersAt_cons (path : Option String) (name : String) (value : Json)
    (members : List (String × Json)) : failure? (membersAt path ((name, value) :: members)) =
      (if name = idField then failure? (castId (memberPath path name) value)
        else failure? (valueAt (some (memberPath path name)) value)).or
        (failure? (membersAt path members)) := by
  by_cases hname : name = idField
  · simp only [membersAt, if_pos hname, failure?_steps]
  · simp only [membersAt, if_neg hname, failure?_steps]

mutual

/-- A part of a body is refused for its first member that offends. -/
theorem failure?_valueAt (path : Option String) : ∀ value : Json,
    failure? (valueAt path value) = (Json.firstOffence? value.idMembers).map (refusal path)
  | .object members => by
    rw [valueAt, failure?_map, failure?_membersAt path members, Json.idMembers]
  | .array items => by
    rw [valueAt, failure?_map, failure?_itemsAt path items, Json.idMembers]
  | .null | .bool _ | .integer _ | .double _ | .string _ => rfl

/-- Items are refused for the first member inside them that offends. -/
theorem failure?_itemsAt (path : Option String) : ∀ items : List Json,
    failure? (itemsAt path items) =
      (Json.firstOffence? (Json.idMembersOfItems items)).map (refusal path)
  | [] => rfl
  | item :: items => by
    rw [itemsAt, failure?_steps, failure?_valueAt path item, failure?_itemsAt path items,
      Json.idMembersOfItems, Json.firstOffence?_append, Option.map_or]

/-- Members are refused for the first one that offends, be it one of them or inside one. -/
theorem failure?_membersAt (path : Option String) : ∀ members : List (String × Json),
    failure? (membersAt path members) =
      (Json.firstOffence? (Json.idMembersOfMembers members)).map (refusal path)
  | [] => rfl
  | (name, value) :: members => by
    rw [failure?_membersAt_cons, failure?_membersAt path members,
      failure?_valueAt (some (memberPath path name)) value, failure?_castId,
      Json.idMembersOfMembers, Json.firstOffence?_append, Json.firstOffence?_append,
      Json.firstOffence?_map, Option.map_or]
    congr 1
    by_cases hname : name = idField
    · rw [if_pos hname, if_pos hname]
      -- A member that does not offend is a text, so there is nothing inside it.
      cases hwrites : value.writesId with
      | true => simp [Json.firstOffence?, Json.idMembers_of_writesId hwrites, hwrites]
      | false => simp [Json.firstOffence?, hwrites, refusal, pathAlong]
    · have hnone : Json.firstOffence? [] = none := rfl
      rw [if_neg hname, if_neg hname, hnone, Option.none_or, Option.map_map]
      rfl

end

end Body

/-! ## What is kept of a body -/

namespace Json

/-- Whether a value is another one, or inside it at any depth. -/
inductive Inside (value : Json) : Json → Prop
  /-- A value is inside itself. -/
  | self : Inside value value
  /-- What is inside a member is inside the object. -/
  | member {members : List (String × Json)} (entry : String × Json) (mem : entry ∈ members)
      (inside : Inside value entry.2) : Inside value (.object members)
  /-- What is inside an item is inside the array. -/
  | item {items : List Json} (item : Json) (mem : item ∈ items) (inside : Inside value item) :
      Inside value (.array items)

/-- Whether each number inside a value is an integer of 64 bits with a sign, or a finite double. -/
structure NumbersFit (value : Json) : Prop where
  /-- An integer has at most 64 bits. -/
  integer : ∀ n, (Json.integer n).Inside value → -0x8000000000000000 ≤ n ∧ n < 0x8000000000000000
  /-- A double is finite. -/
  double : ∀ number, (Json.double number).Inside value → number.isFinite

/-- The numbers of an array fit when those of each item do. -/
theorem numbersFit_array_iff {items : List Json} :
    (array items).NumbersFit ↔ ∀ item ∈ items, item.NumbersFit := by
  constructor
  · exact fun h item hitem => ⟨fun n hinside => h.integer n (.item item hitem hinside),
      fun number hinside => h.double number (.item item hitem hinside)⟩
  · refine fun h => ⟨fun n hinside => ?_, fun number hinside => ?_⟩
    · cases hinside with
      | item item hitem hinside => exact (h item hitem).integer n hinside
    · cases hinside with
      | item item hitem hinside => exact (h item hitem).double number hinside

/-- The numbers of an object fit when those of each member do. -/
theorem numbersFit_object_iff {members : List (String × Json)} :
    (object members).NumbersFit ↔ ∀ entry ∈ members, entry.2.NumbersFit := by
  constructor
  · exact fun h entry hentry => ⟨fun n hinside => h.integer n (.member entry hentry hinside),
      fun number hinside => h.double number (.member entry hentry hinside)⟩
  · refine fun h => ⟨fun n hinside => ?_, fun number hinside => ?_⟩
    · cases hinside with
      | member entry hentry hinside => exact (h entry hentry).integer n hinside
    · cases hinside with
      | member entry hentry hinside => exact (h entry hentry).double number hinside

/-- A text in lowercase letters; other values stay. -/
def lowerText : Json → Json
  | .string text => .string text.toLower
  | other => other

mutual

/-- The value with each text under the name of the identifier field in lowercase letters. -/
def lowerIds : Json → Json
  | .array items => .array (lowerIdsOfItems items)
  | .object members => .object (lowerIdsOfMembers members)
  | other => other
termination_by structural value => value

/-- The items of an array likewise. -/
def lowerIdsOfItems : List Json → List Json
  | [] => []
  | item :: items => lowerIds item :: lowerIdsOfItems items
termination_by structural items => items

/-- The members of an object likewise, under the same names. -/
def lowerIdsOfMembers : List (String × Json) → List (String × Json)
  | [] => []
  | (name, value) :: members =>
    (name, if name = idField then value.lowerText else lowerIds value) :: lowerIdsOfMembers members
termination_by structural members => members

end

end Json

namespace Body

/-- An identifier is shown as the text that it was, in lowercase. -/
theorem toJson_of_castId {path : String} {value : Json} {stored : Value}
    (h : castId path value = .ok stored) : stored.toJson = value.lowerText := by
  cases value with
  | string text =>
    simp only [castId] at h
    split at h
    case h_1 id hid =>
      cases h
      rw [Value.toJson, Json.lowerText, ObjectId.ofHex?_eq_some_iff.mp hid]
    case h_2 => cases h
  | _ => cases h

mutual

/-- A part of a body is shown as it was, but for the case of the identifiers in it. -/
theorem toJson_of_valueAt {path : Option String} : ∀ {value : Json} {stored : Value},
    valueAt path value = .ok stored → value.NumbersFit → stored.toJson = value.lowerIds
  | .object members, stored, h, hfits => by
    obtain ⟨inner, hinner, rfl⟩ := map_eq_ok_iff.mp h
    rw [Value.toJson, membersToJson_of_membersAt hinner (Json.numbersFit_object_iff.mp hfits),
      Json.lowerIds]
  | .array items, stored, h, hfits => by
    obtain ⟨inner, hinner, rfl⟩ := map_eq_ok_iff.mp h
    rw [Value.toJson, itemsToJson_of_itemsAt hinner (Json.numbersFit_array_iff.mp hfits),
      Json.lowerIds]
  | .integer n, stored, h, hfits => by
    cases h
    exact Value.toJson_ofInteger (hfits.integer n .self)
  | .double number, stored, h, hfits => by
    cases h
    simp [Value.ofJson, Value.toJson, hfits.double number .self, Json.lowerIds]
  | .null, stored, h, _ | .bool _, stored, h, _ | .string _, stored, h, _ => by
    cases h
    rfl

/-- Items are shown as they were, but for the case of the identifiers in them. -/
theorem itemsToJson_of_itemsAt {path : Option String} : ∀ {items : List Json} {stored : List Value},
    itemsAt path items = .ok stored → (∀ item ∈ items, item.NumbersFit) →
      Value.itemsToJson stored = Json.lowerIdsOfItems items
  | [], stored, h, _ => by
    cases h
    rfl
  | item :: items, stored, h, hfits => by
    obtain ⟨hitem, hitems⟩ := List.forall_mem_cons.mp hfits
    obtain ⟨first, hfirst, others, hothers, rfl⟩ := itemsAt_cons_eq_ok_iff.mp h
    rw [Value.itemsToJson, toJson_of_valueAt hfirst hitem, itemsToJson_of_itemsAt hothers hitems,
      Json.lowerIdsOfItems]

/-- Members are shown as they were, but for the case of the identifiers among them and inside them. -/
theorem membersToJson_of_membersAt {path : Option String} :
    ∀ {members : List (String × Json)} {stored : Document}, membersAt path members = .ok stored →
      (∀ entry ∈ members, entry.2.NumbersFit) →
        Value.membersToJson stored = Json.lowerIdsOfMembers members
  | [], stored, h, _ => by
    cases h
    rfl
  | (name, value) :: members, stored, h, hfits => by
    obtain ⟨hvalue, hmembers⟩ := List.forall_mem_cons.mp hfits
    obtain ⟨first, hfirst, others, hothers, rfl⟩ := membersAt_cons_eq_ok_iff.mp h
    rw [Value.membersToJson, membersToJson_of_membersAt hothers hmembers, Json.lowerIdsOfMembers]
    rcases hfirst with ⟨hname, hcast⟩ | ⟨hname, hread⟩
    · rw [toJson_of_castId hcast, if_pos hname]
    · rw [toJson_of_valueAt hread hvalue, if_neg hname]

end

/-- An object is taken as a body exactly when each member under the name of the identifier field, at whatever
depth, is a text of twenty-four hexadecimal digits. Otherwise it is refused for the first member that is
none, at the path of the names that lead there. A body that is taken, if its integers have 64 bits and its
doubles are finite, is shown as it was, member by member and in their order, but for the case of the digits in
its identifiers. -/
theorem document_object (members : List (String × Json)) :
    ((∃ stored, document (.object members) = .ok stored) ↔
      ∀ member ∈ (Json.object members).idMembers, member.2.writesId) ∧
    (∀ failure, document (.object members) = .error failure ↔ ∃ names value,
      Json.firstOffence? (Json.object members).idMembers = some (names, value) ∧
        failure = .cast (Text.join '.' names) (.notAnId value)) ∧
    ∀ stored, document (.object members) = .ok stored → (Json.object members).NumbersFit →
      stored.toJson = (Json.object members).lowerIds := by
  have hfailure : failure? (document (.object members)) =
      (Json.firstOffence? (Json.object members).idMembers).map (refusal none) := by
    rw [document, failure?_membersAt none members, Json.idMembers]
  refine ⟨?_, fun failure => ?_, fun stored h hfits => ?_⟩
  · rw [← failure?_eq_none_iff, hfailure, Option.map_eq_none_iff, Json.firstOffence?,
      List.find?_eq_none]
    simp
  · rw [← failure?_eq_some_iff, hfailure, Option.map_eq_some_iff, Prod.exists]
    simp only [refusal, pathAlong_none, eq_comm]
  · rw [Document.toJson, Json.lowerIds,
      membersToJson_of_membersAt h (Json.numbersFit_object_iff.mp hfits)]

/-- A body with an identifier in an array, written by a text. -/
def listed (text : String) : List (String × Json) :=
  [("n", .integer 5000000000), ("list", .array [.object [("x", .double ⟨0x3FF8000000000000⟩),
    (idField, .string text)]])]

/-- With twenty-four digits it is taken, and with fewer it is refused. -/
theorem document_object_listed :
    (∃ stored, document (.object (listed "5EC2D0193FD8C5D9B72948CE")) = .ok stored ∧
      stored.toJson = .object (listed "5ec2d0193fd8c5d9b72948ce")) ∧
    document (.object (listed "abc")) =
      .error (.cast "list._id" (.notAnId (.string "abc"))) := by
  obtain ⟨haccepted, -, hshown⟩ := document_object (listed "5EC2D0193FD8C5D9B72948CE")
  obtain ⟨-, hrefused, -⟩ := document_object (listed "abc")
  have hfits : (Json.object (listed "5EC2D0193FD8C5D9B72948CE")).NumbersFit := by
    have hinteger : (Json.integer 5000000000).NumbersFit :=
      ⟨by rintro n ⟨⟩; decide, by rintro number ⟨⟩⟩
    have hdouble : (Json.double ⟨0x3FF8000000000000⟩).NumbersFit :=
      ⟨by rintro n ⟨⟩, by rintro number ⟨⟩; decide⟩
    have htext : ∀ text, (Json.string text).NumbersFit :=
      fun text => ⟨by rintro n ⟨⟩, by rintro number ⟨⟩⟩
    simp [listed, Json.numbersFit_object_iff, Json.numbersFit_array_iff, hinteger, hdouble, htext]
  have hlower : "5EC2D0193FD8C5D9B72948CE".toLower = "5ec2d0193fd8c5d9b72948ce" := by
    rw [← String.toList_inj, toList_toLower]
    decide
  obtain ⟨stored, hstored⟩ := haccepted.mpr (by decide)
  refine ⟨⟨stored, hstored, (hshown stored hstored hfits).trans ?_⟩, ?_⟩
  · simp [listed, Json.lowerIds, Json.lowerIdsOfItems, Json.lowerIdsOfMembers, Json.lowerText,
      hlower, idField]
  · exact (hrefused _).mpr ⟨["list", idField], .string "abc", rfl, rfl⟩

end Body

end RestArchive
