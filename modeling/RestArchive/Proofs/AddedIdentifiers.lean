import RestArchive.Proofs.StampedElements

/-! # What stamping adds

Every document that is an element of an array, at any depth, has a member under the name of the
identifier field once it is stamped; a document that stands under a name gets none. What is added can
be told by the identifiers that were given out, if these are new: the members that carry them stand
last, each identifier is used once, and without them the value is what it was before
(`Value.Stamping`). A value that lacks no identifier is left as it is, so stamping twice is stamping
once (`IdSupply.stamping_of_freshFor`). -/

namespace RestArchive

/-! ## The identifiers that are given out -/

namespace IdSupply

variable (supply : IdSupply)

/-- The next identifiers of a supply, in the order in which they are given out. -/
def next (count : Nat) : List ObjectId := (List.range' supply.drawn count).map supply.draw

/-- The supply once so many more identifiers have been given out. -/
def skip (count : Nat) : IdSupply := { supply with drawn := supply.drawn + count }

/-- Taking an identifier is taking the next one. -/
theorem take_eq : supply.take = (supply.draw supply.drawn, supply.skip 1) := rfl

@[simp] theorem next_one : supply.next 1 = [supply.draw supply.drawn] := rfl

@[simp] theorem skip_skip (first second : Nat) :
    (supply.skip first).skip second = supply.skip (first + second) := by
  simp only [skip, Nat.add_assoc]

/-- The next identifiers are some of them, and then those that are next. -/
theorem next_add (first second : Nat) :
    supply.next (first + second) = supply.next first ++ (supply.skip first).next second := by
  simp only [next, skip, ← List.map_append, List.range'_append_1]

end IdSupply

namespace Value

mutual

/-- How many identifiers a value lacks: how many documents that are elements of arrays, at any depth,
have nothing under the name of the identifier field. Whether the value itself is an element is
given. -/
def lacking (isElement : Bool) : Value → Nat
  | .document members =>
    (if isElement && !Entries.contains members idField then 1 else 0) + lackingMembers members
  | .array items => lackingItems items
  | _ => 0
termination_by structural value => value

/-- How many identifiers the elements of an array lack. -/
def lackingItems : List Value → Nat
  | [] => 0
  | item :: items => item.lacking true + lackingItems items
termination_by structural items => items

/-- How many identifiers the members of a document lack. -/
def lackingMembers : List (String × Value) → Nat
  | [] => 0
  | (_, value) :: members => value.lacking false + lackingMembers members
termination_by structural members => members

end

mutual

/-- Stamping a value gives out as many identifiers as the value lacks. -/
theorem snd_stamp (isElement : Bool) (supply : IdSupply) : ∀ value : Value,
    (stamp isElement supply value).2 = supply.skip (value.lacking isElement)
  | .document members => by
    rw [stamp, lacking]
    split
    · simp only [IdSupply.take_eq, snd_stampMembers _ members, IdSupply.skip_skip]
    · simp only [snd_stampMembers _ members, Nat.zero_add]
  | .array items => by rw [stamp, lacking, snd_stampItems supply items]
  | .null | .undefined | .minKey | .maxKey | .bool _ | .int32 _ | .int64 _ | .double _ | .string _
  | .objectId _ | .date _ | .timestamp _ _ | .symbol _ | .code _ | .regex _ _ | .decimal128 _
  | .binary _ _ | .codeWithScope _ _ | .dbPointer _ _ => rfl

/-- Stamping items gives out as many identifiers as the items lack. -/
theorem snd_stampItems (supply : IdSupply) : ∀ items : List Value,
    (stampItems supply items).2 = supply.skip (lackingItems items)
  | [] => rfl
  | item :: items => by
    simp only [stampItems, lackingItems, snd_stamp true supply item, snd_stampItems _ items,
      IdSupply.skip_skip]

/-- Stamping members gives out as many identifiers as the members lack. -/
theorem snd_stampMembers (supply : IdSupply) : ∀ members : List (String × Value),
    (stampMembers supply members).2 = supply.skip (lackingMembers members)
  | [] => rfl
  | (name, value) :: members => by
    simp only [stampMembers, lackingMembers, snd_stamp false supply value,
      snd_stampMembers _ members, IdSupply.skip_skip]

end

/-! ## The identifiers that a value carries -/

/-- The identifier that a member is, if it is one under the name of the identifier field. -/
def memberId? (name : String) : Value → Option ObjectId
  | .objectId id => if name = idField then some id else none
  | _ => none

@[simp] theorem memberId?_objectId (id : ObjectId) : memberId? idField (.objectId id) = some id := by
  simp [memberId?]

/-- A member is an identifier exactly when it is one under the name of the identifier field. -/
theorem memberId?_eq_some_iff {name : String} {value : Value} {id : ObjectId} :
    memberId? name value = some id ↔ name = idField ∧ value = .objectId id := by
  cases value <;> simp [memberId?]

/-- Stamping a member leaves it the identifier that it is. -/
@[simp] theorem memberId?_stamp (name : String) (isElement : Bool) (supply : IdSupply)
    (value : Value) : memberId? name (stamp isElement supply value).1 = memberId? name value := by
  cases value with
  | document members => rw [stamp]; split <;> rfl
  | _ => rfl

mutual

/-- The identifiers that documents inside a value carry under the name of the identifier field, in
order. -/
def ids : Value → List ObjectId
  | .document members => idsOfMembers members
  | .array items => idsOfItems items
  | _ => []
termination_by structural value => value

/-- The identifiers that documents inside the items of an array carry. -/
def idsOfItems : List Value → List ObjectId
  | [] => []
  | item :: items => item.ids ++ idsOfItems items
termination_by structural items => items

/-- The identifiers that the members of a document, and documents inside them, carry. -/
def idsOfMembers : List (String × Value) → List ObjectId
  | [] => []
  | (name, value) :: members => (memberId? name value).toList ++ value.ids ++ idsOfMembers members
termination_by structural members => members

end

/-- The identifiers of items are those of each item, one after the other. -/
theorem idsOfItems_eq_flatMap (items : List Value) : idsOfItems items = items.flatMap ids := by
  induction items with
  | nil => rfl
  | cons item items ih => rw [idsOfItems, ih, List.flatMap_cons]

/-- The identifiers of members are, one member after the other, the member itself and those inside
it. -/
theorem idsOfMembers_eq_flatMap (members : List (String × Value)) :
    idsOfMembers members =
      members.flatMap fun entry => (memberId? entry.1 entry.2).toList ++ entry.2.ids := by
  induction members with
  | nil => rfl
  | cons member members ih => rw [idsOfMembers, ih, List.flatMap_cons]

/-- The identifiers of members are those of the first ones, and then those of the others. -/
theorem idsOfMembers_append (front back : List (String × Value)) :
    idsOfMembers (front ++ back) = idsOfMembers front ++ idsOfMembers back := by
  simp only [idsOfMembers_eq_flatMap, List.flatMap_append]

mutual

/-- A stamped value carries the identifiers of before and those that were given out. -/
theorem count_ids_stamp (id : ObjectId) (isElement : Bool) (supply : IdSupply) : ∀ value : Value,
    (stamp isElement supply value).1.ids.count id =
      value.ids.count id + (supply.next (value.lacking isElement)).count id
  | .document members => by
    rw [stamp, lacking]
    split
    · have hmembers := count_idsOfMembers_stampMembers id (supply.skip 1) members
      simp only [IdSupply.take_eq, ids, idsOfMembers_append, idsOfMembers, memberId?_objectId,
        Option.toList_some, List.append_nil, IdSupply.next_add, IdSupply.next_one,
        List.count_append, hmembers]
      omega
    · simp only [ids, count_idsOfMembers_stampMembers id supply members, Nat.zero_add]
  | .array items => by
    rw [stamp, lacking, ids, ids, count_idsOfItems_stampItems id supply items]
  | .null | .undefined | .minKey | .maxKey | .bool _ | .int32 _ | .int64 _ | .double _ | .string _
  | .objectId _ | .date _ | .timestamp _ _ | .symbol _ | .code _ | .regex _ _ | .decimal128 _
  | .binary _ _ | .codeWithScope _ _ | .dbPointer _ _ => rfl

/-- Stamped items carry the identifiers of before and those that were given out. -/
theorem count_idsOfItems_stampItems (id : ObjectId) (supply : IdSupply) : ∀ items : List Value,
    (idsOfItems (stampItems supply items).1).count id =
      (idsOfItems items).count id + (supply.next (lackingItems items)).count id
  | [] => rfl
  | item :: items => by
    have hitem := count_ids_stamp id true supply item
    have hitems := count_idsOfItems_stampItems id (supply.skip (item.lacking true)) items
    simp only [stampItems, idsOfItems, lackingItems, snd_stamp, IdSupply.next_add,
      List.count_append, hitem, hitems]
    omega

/-- Stamped members carry the identifiers of before and those that were given out. -/
theorem count_idsOfMembers_stampMembers (id : ObjectId) (supply : IdSupply) :
    ∀ members : List (String × Value), (idsOfMembers (stampMembers supply members).1).count id =
      (idsOfMembers members).count id + (supply.next (lackingMembers members)).count id
  | [] => rfl
  | (name, value) :: members => by
    have hvalue := count_ids_stamp id false supply value
    have hmembers := count_idsOfMembers_stampMembers id (supply.skip (value.lacking false)) members
    simp only [stampMembers, idsOfMembers, lackingMembers, snd_stamp, IdSupply.next_add,
      memberId?_stamp, List.count_append, hvalue, hmembers]
    omega

end

/-! ## Deleting what was added -/

mutual

/-- A value without the members that carry given identifiers under the name of the identifier
field. -/
def withoutIds (given : List ObjectId) : Value → Value
  | .document members => .document (membersWithout given members)
  | .array items => .array (itemsWithout given items)
  | other => other
termination_by structural value => value

/-- The items of an array without the members that carry given identifiers. -/
def itemsWithout (given : List ObjectId) : List Value → List Value
  | [] => []
  | item :: items => item.withoutIds given :: itemsWithout given items
termination_by structural items => items

/-- The members of a document without those that carry given identifiers. -/
def membersWithout (given : List ObjectId) : List (String × Value) → List (String × Value)
  | [] => []
  | (name, value) :: members =>
    if (memberId? name value).any given.contains then membersWithout given members
    else (name, value.withoutIds given) :: membersWithout given members
termination_by structural members => members

end

/-- Deleting goes through the first members and then through the others. -/
theorem membersWithout_append (given : List ObjectId) (front back : List (String × Value)) :
    membersWithout given (front ++ back) =
      membersWithout given front ++ membersWithout given back := by
  induction front with
  | nil => rfl
  | cons member front ih =>
    obtain ⟨name, value⟩ := member
    simp only [List.cons_append, membersWithout, ih]
    split <;> rfl

mutual

/-- Without the identifiers that were given out, a stamped value is what it was, if it carried none of
them before. -/
theorem withoutIds_stamp {given : List ObjectId} (isElement : Bool) (supply : IdSupply) :
    ∀ value : Value, (∀ id ∈ value.ids, id ∉ given) →
      supply.next (value.lacking isElement) ⊆ given →
        (stamp isElement supply value).1.withoutIds given = value
  | .document members, hold, hgiven => by
    rw [lacking] at hgiven
    rw [stamp]
    split at hgiven
    case isTrue hlacks =>
      rw [IdSupply.next_add, List.append_subset] at hgiven
      have hnew : given.contains (supply.draw supply.drawn) = true :=
        List.contains_iff_mem.mpr (hgiven.1 List.mem_cons_self)
      have hmembers := membersWithout_stampMembers (supply.skip 1) members hold hgiven.2
      simp only [if_pos hlacks, IdSupply.take_eq, withoutIds, membersWithout_append, hmembers,
        membersWithout, memberId?_objectId, Option.any_some, hnew, if_true, List.append_nil]
    case isFalse hlacks =>
      rw [Nat.zero_add] at hgiven
      simp only [if_neg hlacks, withoutIds, membersWithout_stampMembers supply members hold hgiven]
  | .array items, hold, hgiven => by
    rw [stamp, withoutIds, itemsWithout_stampItems supply items hold hgiven]
  | .null, _, _ | .undefined, _, _ | .minKey, _, _ | .maxKey, _, _ | .bool _, _, _
  | .int32 _, _, _ | .int64 _, _, _ | .double _, _, _ | .string _, _, _ | .objectId _, _, _
  | .date _, _, _ | .timestamp _ _, _, _ | .symbol _, _, _ | .code _, _, _
  | .regex _ _, _, _ | .decimal128 _, _, _ | .binary _ _, _, _ | .codeWithScope _ _, _, _
  | .dbPointer _ _, _, _ => rfl

/-- Without the identifiers that were given out, stamped items are what they were. -/
theorem itemsWithout_stampItems {given : List ObjectId} (supply : IdSupply) :
    ∀ items : List Value, (∀ id ∈ idsOfItems items, id ∉ given) →
      supply.next (lackingItems items) ⊆ given →
        itemsWithout given (stampItems supply items).1 = items
  | [], _, _ => rfl
  | item :: items, hold, hgiven => by
    rw [idsOfItems, List.forall_mem_append] at hold
    rw [lackingItems, IdSupply.next_add, List.append_subset] at hgiven
    rw [stampItems, itemsWithout, withoutIds_stamp true supply item hold.1 hgiven.1, snd_stamp,
      itemsWithout_stampItems _ items hold.2 hgiven.2]

/-- Without the identifiers that were given out, stamped members are what they were. -/
theorem membersWithout_stampMembers {given : List ObjectId} (supply : IdSupply) :
    ∀ members : List (String × Value), (∀ id ∈ idsOfMembers members, id ∉ given) →
      supply.next (lackingMembers members) ⊆ given →
        membersWithout given (stampMembers supply members).1 = members
  | [], _, _ => rfl
  | (name, value) :: members, hold, hgiven => by
    rw [idsOfMembers, List.forall_mem_append, List.forall_mem_append] at hold
    rw [lackingMembers, IdSupply.next_add, List.append_subset] at hgiven
    -- What the member itself is was there before, so it is none of those given out.
    have hkept : ¬ (memberId? name value).any given.contains = true := by
      cases hmember : memberId? name value with
      | none => simp
      | some id => simpa using hold.1.1 id (by simp [hmember])
    rw [stampMembers, membersWithout, memberId?_stamp, if_neg hkept,
      withoutIds_stamp false supply value hold.1.2 hgiven.1, snd_stamp,
      membersWithout_stampMembers _ members hold.2 hgiven.2]

end

/-! ## Documents that stand in a value -/

/-- Whether a document is a value, or stands inside it at any depth, in a role: as an element of an
array, or not. The second truth value says whether the value itself is an element. -/
inductive Stands (inner : Document) (role : Bool) : Bool → Value → Prop
  /-- A document stands where it is. -/
  | self : Stands inner role role (.document inner)
  /-- What stands in a member of a document stands in the document. -/
  | member {isElement : Bool} {members : List (String × Value)} (entry : String × Value)
      (mem : entry ∈ members) (stands : Stands inner role false entry.2) :
      Stands inner role isElement (.document members)
  /-- What stands in an element of an array stands in the array. -/
  | element {isElement : Bool} {items : List Value} (item : Value) (mem : item ∈ items)
      (stands : Stands inner role true item) : Stands inner role isElement (.array items)

/-- The identifier of a document that stands in a value is one that the value carries. -/
theorem Stands.mem_ids {inner : Document} {role isElement : Bool} {value : Value}
    (h : Stands inner role isElement value) {id : ObjectId}
    (hid : (idField, .objectId id) ∈ inner) : id ∈ value.ids := by
  induction h with
  | self =>
    rw [ids, idsOfMembers_eq_flatMap]
    exact List.mem_flatMap.mpr ⟨_, hid, by simp⟩
  | member entry hmem _ ih =>
    rw [ids, idsOfMembers_eq_flatMap]
    exact List.mem_flatMap.mpr ⟨entry, hmem, List.mem_append_right _ ih⟩
  | element item hmem _ ih =>
    rw [ids, idsOfItems_eq_flatMap]
    exact List.mem_flatMap.mpr ⟨item, hmem, ih⟩

/-- What a stamped document has: its members, stamped inside, and an identifier behind them if it is an
element that had none. -/
theorem stamp_document_cases (isElement : Bool) (supply : IdSupply) (document : Document) :
    (isElement = true ∧ document.contains idField = false ∧
      (stamp isElement supply (.document document)).1 =
        .document ((stampMembers supply.take.2 document).1 ++ [(idField, .objectId supply.take.1)])) ∨
    ((isElement = true → document.contains idField = true) ∧
      (stamp isElement supply (.document document)).1 =
        .document (stampMembers supply document).1) := by
  rw [stamp]
  split
  case isTrue hlacks =>
    rw [Bool.and_eq_true, Bool.not_eq_true'] at hlacks
    exact .inl ⟨hlacks.1, hlacks.2, rfl⟩
  case isFalse hlacks => exact .inr ⟨fun helement => by simpa [helement] using hlacks, rfl⟩

/-- Stamping members keeps which names are there. -/
theorem contains_stampMembers (supply : IdSupply) (members : Document) (name : String) :
    Entries.contains (stampMembers supply members).1 name = members.contains name := by
  obtain ⟨rest, hrest⟩ := exists_get?_stampMembers supply members name
  rw [Entries.contains, hrest, Option.isSome_map, Entries.contains]

/-- What is an identifier after stamping was the same identifier before. -/
theorem eq_objectId_of_stamp {isElement : Bool} {supply : IdSupply} {value : Value} {id : ObjectId}
    (h : (stamp isElement supply value).1 = .objectId id) : value = .objectId id := by
  have hmember := memberId?_stamp idField isElement supply value
  rw [h, memberId?_objectId] at hmember
  exact (memberId?_eq_some_iff.mp hmember.symm).2

/-- A member that is an identifier after stamping was there before. -/
theorem mem_of_mem_stampMembers {supply : IdSupply} {members : Document} {name : String}
    {id : ObjectId} (h : (name, .objectId id) ∈ (stampMembers supply members).1) :
    (name, .objectId id) ∈ members := by
  obtain ⟨value, rest, hmem, heq⟩ := exists_of_mem_stampMembers h
  rwa [eq_objectId_of_stamp heq.symm] at hmem

/-- What stands in a stamped document, but for the identifier that is added, was stamped there. -/
theorem exists_of_mem_stamp_document {isElement : Bool} {supply : IdSupply} {document : Document}
    {members : List (String × Value)}
    (hmembers : (stamp isElement supply (.document document)).1 = .document members)
    {entry : String × Value} (h : entry ∈ members) :
    (∃ id, entry.2 = .objectId id) ∨
      ∃ old ∈ document, ∃ rest, entry.2 = (stamp false rest old.2).1 := by
  have hinside : ∀ supply, entry ∈ (stampMembers supply document).1 →
      ∃ old ∈ document, ∃ rest, entry.2 = (stamp false rest old.2).1 := by
    intro supply hentry
    obtain ⟨value, rest, hmem, heq⟩ := exists_of_mem_stampMembers hentry
    exact ⟨_, hmem, rest, heq⟩
  rcases stamp_document_cases isElement supply document with ⟨-, -, hadded⟩ | ⟨-, hkept⟩
  · cases hmembers.symm.trans hadded
    rcases List.mem_append.mp h with hold | hnew
    · exact .inr (hinside _ hold)
    · exact .inl ⟨_, congrArg Prod.snd (List.mem_singleton.mp hnew)⟩
  · cases hmembers.symm.trans hkept
    exact .inr (hinside _ h)

/-- What stands in an array after stamping was stamped there. -/
theorem exists_of_mem_stampItems {supply : IdSupply} {items : List Value} {item : Value}
    (h : item ∈ (stampItems supply items).1) :
    ∃ old ∈ items, ∃ rest, item = (stamp true rest old).1 := by
  induction items generalizing supply with
  | nil => cases h
  | cons first items ih =>
    rcases List.mem_cons.mp h with rfl | h
    · exact ⟨first, List.mem_cons_self, supply, rfl⟩
    · obtain ⟨old, hmem, rest, heq⟩ := ih h
      exact ⟨old, List.mem_cons_of_mem _ hmem, rest, heq⟩

/-- Every document that stands in a stamped value was stamped there, in the role in which it stood
before. -/
theorem Stands.exists_of_stamp {inner : Document} {role isElement : Bool} {supply : IdSupply}
    {value : Value} (h : Stands inner role isElement (stamp isElement supply value).1) :
    ∃ before, Stands before role isElement value ∧
      ∃ rest, (stamp role rest (.document before)).1 = .document inner := by
  generalize hafter : (stamp isElement supply value).1 = after at h
  induction h generalizing supply value with
  | self =>
    cases value with
    | document before => exact ⟨before, .self, supply, hafter⟩
    | _ => cases hafter
  | member entry hmem hstands ih =>
    cases value with
    | document before =>
      rcases exists_of_mem_stamp_document hafter hmem with ⟨id, hid⟩ | ⟨old, hold, rest, heq⟩
      · -- No document stands in an identifier.
        rw [hid] at hstands
        cases hstands
      · obtain ⟨found, hfound, hstamped⟩ := ih heq.symm
        exact ⟨found, .member old hold hfound, hstamped⟩
    | _ => cases hafter
  | element item hmem _ ih =>
    cases value with
    | array items =>
      cases hafter
      obtain ⟨old, hold, rest, heq⟩ := exists_of_mem_stampItems hmem
      obtain ⟨found, hfound, hstamped⟩ := ih heq.symm
      exact ⟨found, .element old hold hfound, hstamped⟩
    | document before =>
      rcases stamp_document_cases _ supply before with ⟨-, -, h⟩ | ⟨-, h⟩ <;>
        cases hafter.symm.trans h
    | _ => cases hafter

/-! ## Values that lack nothing -/

mutual

/-- A value whose elements all have something under the name of the identifier field is left as it
is. -/
theorem stamp_of_complete (isElement : Bool) (supply : IdSupply) : ∀ value : Value,
    (∀ inner, Stands inner true isElement value → Entries.contains inner idField = true) →
      stamp isElement supply value = (value, supply)
  | .document members, h => by
    have hself : (isElement && !Entries.contains members idField) = false := by
      cases isElement with
      | true => simp [h members .self]
      | false => rfl
    rw [stamp, hself, stampMembers_of_complete supply members fun entry hentry inner hstands =>
      h inner (.member entry hentry hstands)]
    rfl
  | .array items, h => by
    rw [stamp, stampItems_of_complete supply items fun item hitem inner hstands =>
      h inner (.element item hitem hstands)]
  | .null, _ | .undefined, _ | .minKey, _ | .maxKey, _ | .bool _, _ | .int32 _, _ | .int64 _, _
  | .double _, _ | .string _, _ | .objectId _, _ | .date _, _ | .timestamp _ _, _ | .symbol _, _
  | .code _, _ | .regex _ _, _ | .decimal128 _, _ | .binary _ _, _ | .codeWithScope _ _, _
  | .dbPointer _ _, _ => rfl

/-- Items whose elements all have something under the name are left as they are. -/
theorem stampItems_of_complete (supply : IdSupply) : ∀ items : List Value,
    (∀ item ∈ items, ∀ inner, Stands inner true true item →
      Entries.contains inner idField = true) → stampItems supply items = (items, supply)
  | [], _ => rfl
  | item :: items, h => by
    obtain ⟨hitem, hitems⟩ := List.forall_mem_cons.mp h
    simp only [stampItems, stamp_of_complete true supply item hitem,
      stampItems_of_complete supply items hitems]

/-- Members whose elements all have something under the name are left as they are. -/
theorem stampMembers_of_complete (supply : IdSupply) : ∀ members : List (String × Value),
    (∀ entry ∈ members, ∀ inner, Stands inner true false entry.2 →
      Entries.contains inner idField = true) → stampMembers supply members = (members, supply)
  | [], _ => rfl
  | (name, value) :: members, h => by
    obtain ⟨hvalue, hmembers⟩ := List.forall_mem_cons.mp h
    simp only [stampMembers, stamp_of_complete false supply value hvalue,
      stampMembers_of_complete supply members hmembers]

end

end Value

/-! ## Stamping as a whole -/

/-- The identifiers that stamping a value takes from a supply. -/
def IdSupply.given (supply : IdSupply) (isElement : Bool) (value : Value) : List ObjectId :=
  supply.next (value.lacking isElement)

/-- Whether what stamping a value takes from a supply is new: the identifiers differ, and the value
carries none of them. -/
structure IdSupply.FreshFor (supply : IdSupply) (isElement : Bool) (value : Value) : Prop where
  /-- No identifier is given out twice. -/
  distinct : (supply.given isElement value).Nodup
  /-- None of them is there already. -/
  unused : ∀ id ∈ value.ids, id ∉ supply.given isElement value

namespace Value

/-- What stamping makes of a value, told by the identifiers that it takes from a supply. -/
structure Stamping (isElement : Bool) (supply : IdSupply) (before after : Value)
    (rest : IdSupply) : Prop where
  /-- Every document that is an element has something under the name of the identifier field. -/
  complete : ∀ inner, Stands inner true isElement after → Entries.contains inner idField = true
  /-- Without the members that are added, the value is what it was. -/
  restored : after.withoutIds (supply.given isElement before) = before
  /-- Only elements get an identifier, as their last member and the only one of that name. -/
  last : ∀ inner role, Stands inner role isElement after →
    ∀ id ∈ supply.given isElement before, (idField, .objectId id) ∈ inner →
      role = true ∧ inner.getLast? = some (idField, .objectId id) ∧
        Entries.contains inner.dropLast idField = false
  /-- Each identifier that is taken is added once, and no other one is. -/
  once : ∀ id, after.ids.count id =
    before.ids.count id + if id ∈ supply.given isElement before then 1 else 0
  /-- The supply goes on behind the identifiers that are taken. -/
  rest_eq : rest = supply.skip (before.lacking isElement)
  /-- Stamping once more changes nothing and takes nothing. -/
  again : ∀ other, stamp isElement other after = (after, other)

variable {isElement : Bool} {supply : IdSupply} {value : Value}

/-- Every document that is an element of a stamped value has something under the name of the
identifier field. -/
theorem contains_of_stands_stamp {inner : Document}
    (h : Stands inner true isElement (stamp isElement supply value).1) :
    Entries.contains inner idField = true := by
  obtain ⟨before, -, rest, hstamped⟩ := h.exists_of_stamp
  rcases stamp_document_cases true rest before with ⟨-, -, hadded⟩ | ⟨hthere, hkept⟩
  · cases hstamped.symm.trans hadded
    simp [Entries.contains, Entries.get?_append]
  · cases hstamped.symm.trans hkept
    rw [contains_stampMembers]
    exact hthere rfl

/-- An identifier that a stamped value did not carry before is the last member of a document that is
an element, and the only one of its name. -/
theorem last_of_stands_stamp {inner : Document} {role : Bool}
    (h : Stands inner role isElement (stamp isElement supply value).1) {id : ObjectId}
    (hnew : id ∉ value.ids) (hid : (idField, .objectId id) ∈ inner) :
    role = true ∧ inner.getLast? = some (idField, .objectId id) ∧
      Entries.contains inner.dropLast idField = false := by
  obtain ⟨before, hstands, rest, hstamped⟩ := h.exists_of_stamp
  have hinside : ∀ supply, (idField, .objectId id) ∉ (stampMembers supply before).1 :=
    fun supply hmem => hnew (hstands.mem_ids (mem_of_mem_stampMembers hmem))
  rcases stamp_document_cases role rest before with ⟨hrole, hlacks, hadded⟩ | ⟨-, hkept⟩
  · cases hstamped.symm.trans hadded
    have hlast := (List.mem_append.mp hid).resolve_left (hinside _)
    refine ⟨hrole, ?_, ?_⟩
    · rw [List.getLast?_concat, List.mem_singleton.mp hlast]
    · rw [List.dropLast_concat, contains_stampMembers, hlacks]
  · cases hstamped.symm.trans hkept
    exact absurd hid (hinside _)

/-- Stamping a value, when what it takes from the supply is new. -/
theorem stamping_stamp (h : supply.FreshFor isElement value) :
    Stamping isElement supply value (stamp isElement supply value).1
      (stamp isElement supply value).2 where
  complete _ hstands := contains_of_stands_stamp hstands
  restored := withoutIds_stamp isElement supply value h.unused (List.Subset.refl _)
  last inner role hstands id hid hmem :=
    last_of_stands_stamp hstands (fun hold => h.unused id hold hid) hmem
  once id := by
    rw [count_ids_stamp]
    split
    case isTrue hid => rw [← IdSupply.given, List.count_eq_one_of_mem h.distinct hid]
    case isFalse hid => rw [← IdSupply.given, List.count_eq_zero_of_not_mem hid]
  rest_eq := snd_stamp isElement supply value
  again other := stamp_of_complete isElement other _ fun _ hstands =>
    contains_of_stands_stamp hstands

end Value

/-- A document that is stamped on itself has all that stamping makes of an element, and is left as it
is by stamping it once more. -/
theorem Document.stamping_stamp {supply : IdSupply} {document : Document}
    (h : supply.FreshFor true (.document document)) :
    Value.Stamping true supply (.document document) (.document (document.stamp supply).1)
        (document.stamp supply).2 ∧
      ∀ other, (document.stamp supply).1.stamp other = ((document.stamp supply).1, other) := by
  have hstamping := Value.stamping_stamp h
  rw [Value.stamp_true_document] at hstamping
  refine ⟨hstamping, fun other => ?_⟩
  have hagain := hstamping.again other
  rw [Value.stamp_true_document] at hagain
  obtain ⟨hsame, hother⟩ := Prod.mk.inj hagain
  exact Prod.ext (Value.document.inj hsame) hother

/-- A document that is stamped inside has all that stamping makes of what is no element, and is left
as it is by stamping it inside once more. -/
theorem Document.stamping_stampInside {supply : IdSupply} {document : Document}
    (h : supply.FreshFor false (.document document)) :
    Value.Stamping false supply (.document document) (.document (document.stampInside supply).1)
        (document.stampInside supply).2 ∧
      ∀ other, (document.stampInside supply).1.stampInside other =
        ((document.stampInside supply).1, other) := by
  have hstamping := Value.stamping_stamp h
  rw [Value.stamp_false_document] at hstamping
  refine ⟨hstamping, fun other => ?_⟩
  have hagain := hstamping.again other
  rw [Value.stamp_false_document] at hagain
  obtain ⟨hsame, hother⟩ := Prod.mk.inj hagain
  exact Prod.ext (Value.document.inj hsame) hother

/-- Stamping is complete, adds nothing but identifiers where they lack, takes each of them once and
changes nothing the second time: of a document with itself, of a document inside it, and of a value in
either role. -/
theorem IdSupply.stamping_of_freshFor (supply : IdSupply) :
    (∀ document : Document, supply.FreshFor true (.document document) →
      Value.Stamping true supply (.document document) (.document (document.stamp supply).1)
          (document.stamp supply).2 ∧
        ∀ other, (document.stamp supply).1.stamp other = ((document.stamp supply).1, other)) ∧
    (∀ document : Document, supply.FreshFor false (.document document) →
      Value.Stamping false supply (.document document) (.document (document.stampInside supply).1)
          (document.stampInside supply).2 ∧
        ∀ other, (document.stampInside supply).1.stampInside other =
          ((document.stampInside supply).1, other)) ∧
    ∀ (isElement : Bool) (value : Value), supply.FreshFor isElement value →
      Value.Stamping isElement supply value (value.stamp isElement supply).1
        (value.stamp isElement supply).2 :=
  ⟨fun _ h => Document.stamping_stamp h, fun _ h => Document.stamping_stampInside h,
    fun _ _ h => Value.stamping_stamp h⟩

/-- A document with a profile, and with an array in which an array, a text and two documents are, one
of which has an identifier. -/
def nestedDocument : Document :=
  [("profile", .document [("name", .string "a")]),
    ("nested", .array [.array [.document [("x", .int32 1)]], .string "t",
      .document [(idField, .objectId (.ofNat 5)), ("deep", .array [.document []])]])]

/-- Such a document gets three identifiers: its own, one in the array of the array, and one in the
array of the document that has an identifier. Stamped inside, it gets the other two. -/
theorem IdSupply.stamping_nestedDocument :
    (∀ isElement, (countingFrom 9).FreshFor isElement (.document nestedDocument)) ∧
    Value.Stamping true (countingFrom 9) (.document nestedDocument)
      (.document (nestedDocument.stamp (countingFrom 9)).1)
      (nestedDocument.stamp (countingFrom 9)).2 ∧
    Value.Stamping false (countingFrom 9) (.document nestedDocument)
      (.document (nestedDocument.stampInside (countingFrom 9)).1)
      (nestedDocument.stampInside (countingFrom 9)).2 ∧
    (nestedDocument.stamp (countingFrom 9)).1 =
      [("profile", .document [("name", .string "a")]),
        ("nested", .array [.array [.document [("x", .int32 1), (idField, .objectId (.ofNat 10))]],
          .string "t", .document [(idField, .objectId (.ofNat 5)),
            ("deep", .array [.document [(idField, .objectId (.ofNat 11))]])]]),
        (idField, .objectId (.ofNat 9))] := by
  have hfresh : ∀ isElement,
      (countingFrom 9).FreshFor isElement (.document nestedDocument) := by
    intro isElement
    cases isElement <;> exact ⟨by decide, by decide⟩
  obtain ⟨hstamp, hstampInside, -⟩ := stamping_of_freshFor (countingFrom 9)
  exact ⟨hfresh, (hstamp _ (hfresh true)).1, (hstampInside _ (hfresh false)).1, rfl⟩

end RestArchive
