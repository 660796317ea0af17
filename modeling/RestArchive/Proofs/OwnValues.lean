import RestArchive.Proofs.DocumentId
import RestArchive.Proofs.FilterParts
import RestArchive.Proofs.ProperJson

/-! # Equality with a value's own text

A body and a filter read the same JSON value in their own ways. In a body every text under the name of
the identifier field becomes an identifier, at whatever depth it stands; in a filter only the operand of
a condition on the identifier field does. All else becomes the same on both sides. So a document that
holds a value meets the filter that asks for this very value exactly when the value stands in the
identifier field or holds none of its own (`accepts_own_iff`). A value with an identifier field inside is
stored, and never found by itself (`accepts_nestedId`). -/

namespace RestArchive

/-! ## Numbers -/

/-- Two numbers are the same for a filter when they are one, and no NaN. -/
theorem Magnitude.same_iff {first second : Magnitude} :
    first.same second ↔ first = second ∧ first ≠ .nan := by
  cases first <;> cases second <;> simp [same, compare?]

/-- A finite double is the same number as itself. -/
theorem Binary64.same_self_of_isFinite {double : Binary64} (h : double.isFinite) :
    double.magnitude.same double.magnitude := by
  rw [magnitude, if_pos h]
  exact Magnitude.same_iff.mpr ⟨rfl, by simp⟩

/-- An integer of at most 64 bits is compared as the same number as itself. -/
theorem Magnitude.same_ofInt {n : Int} (h : n.natAbs < Nat.pow 2 64) :
    (Magnitude.ofInt n).same (.ofInt n) :=
  Binary64.same_self_of_isFinite (Binary64.isFinite_ofInt h)

namespace Value

/-- A filter takes the stored number for a proper integer for equal to itself. -/
theorem alike_ofInteger_self {n : Int} (h : (Json.integer n).IsProper) :
    (ofInteger n).alike (ofInteger n) := by
  unfold ofInteger
  split
  case isTrue =>
    have hlow := (Int32.ofInt n).le_toInt
    have hhigh := (Int32.ofInt n).toInt_lt
    have hbound : (Int32.ofInt n).toInt.natAbs < Nat.pow 2 64 := by
      simp only [Nat.pow_eq]
      omega
    simp only [alike, magnitude?]
    exact Magnitude.same_ofInt hbound
  case isFalse =>
    split
    case isTrue =>
      have hlow := (Int64.ofInt n).le_toInt
      have hhigh := (Int64.ofInt n).toInt_lt
      have hbound : (Int64.ofInt n).toInt.natAbs < Nat.pow 2 64 := by
        simp only [Nat.pow_eq]
        omega
      simp only [alike, magnitude?]
      exact Magnitude.same_ofInt hbound
    case isFalse =>
      cases h with
      | integer hlow hhigh =>
        have hfinite : (Binary64.ofInt n).isFinite := Binary64.isFinite_ofInt (by
          rw [Nat.pow_eq]
          omega)
        simp only [alike, magnitude?]
        exact Binary64.same_self_of_isFinite hfinite

end Value

/-! ## Identifier fields inside JSON values -/

namespace Json

/-- Whether an object inside a value, or the value itself, has a member under the name of the identifier
field. -/
inductive HoldsId : Json → Prop where
  /-- The object has such a member. -/
  | here {members : List (String × Json)} {value : Json} (hmem : (idField, value) ∈ members) :
    HoldsId (.object members)
  /-- A member of the object holds one. -/
  | member {members : List (String × Json)} {entry : String × Json} (hmem : entry ∈ members)
    (hinside : HoldsId entry.2) : HoldsId (.object members)
  /-- An item of the array holds one. -/
  | item {items : List Json} {item : Json} (hmem : item ∈ items) (hinside : HoldsId item) :
    HoldsId (.array items)

/-- Whether each object inside a value, the value included, has each name once. The reader sees to it: a
repeated name takes the last value. -/
inductive DistinctNames : Json → Prop where
  /-- The null value. -/
  | null : DistinctNames .null
  /-- A truth value. -/
  | bool (value : Bool) : DistinctNames (.bool value)
  /-- An integer. -/
  | integer (value : Int) : DistinctNames (.integer value)
  /-- A double. -/
  | double (value : Binary64) : DistinctNames (.double value)
  /-- A text. -/
  | string (text : String) : DistinctNames (.string text)
  /-- A list of such values. -/
  | array {items : List Json} (hitems : ∀ item ∈ items, DistinctNames item) :
    DistinctNames (.array items)
  /-- Such values under different names. -/
  | object {members : List (String × Json)} (hnames : (members.map Prod.fst).Nodup)
    (hmembers : ∀ entry ∈ members, DistinctNames entry.2) : DistinctNames (.object members)

/-- An array holds no identifier field when no item does. -/
theorem not_holdsId_array_iff {items : List Json} :
    ¬ (Json.array items).HoldsId ↔ ∀ item ∈ items, ¬ item.HoldsId := by
  constructor
  · exact fun h item hmem hinside => h (.item hmem hinside)
  · intro h hholds
    cases hholds with
    | item hmem hinside => exact h _ hmem hinside

/-- An object holds no identifier field when it has none, and no member does. -/
theorem not_holdsId_object_iff {members : List (String × Json)} :
    ¬ (Json.object members).HoldsId ↔
      ∀ entry ∈ members, entry.1 ≠ idField ∧ ¬ entry.2.HoldsId := by
  constructor
  · intro h entry hmem
    refine ⟨fun hname => ?_, fun hinside => h (.member hmem hinside)⟩
    have hid : (idField, entry.2) ∈ members := by rwa [← hname]
    exact h (.here hid)
  · intro h hholds
    cases hholds with
    | here hmem => exact (h _ hmem).1 rfl
    | member hmem hinside => exact (h _ hmem).2 hinside

end Json

/-! ## What a body stores, and what a filter reads -/

namespace Body

/-- Each item that a body stores comes from one of its own. -/
theorem exists_of_mem_itemsAt {path : Option String} {items : List Json} {stored : List Value}
    (h : itemsAt path items = .ok stored) {item : Value} (hmem : item ∈ stored) :
    ∃ source ∈ items, valueAt path source = .ok item := by
  induction items generalizing stored with
  | nil =>
    cases h
    exact absurd hmem List.not_mem_nil
  | cons source items ih =>
    obtain ⟨first, hfirst, others, hothers, rfl⟩ := itemsAt_cons_eq_ok_iff.mp h
    rcases List.mem_cons.mp hmem with rfl | hbehind
    · exact ⟨source, List.mem_cons_self, hfirst⟩
    · obtain ⟨source', hsource', hvalue⟩ := ih hothers hbehind
      exact ⟨source', List.mem_cons_of_mem _ hsource', hvalue⟩

/-- Only an array is stored as one, its items one by one. -/
theorem exists_of_valueAt_array {path : Option String} {value : Json} {stored : List Value}
    (h : valueAt path value = .ok (.array stored)) :
    ∃ items, value = .array items ∧ itemsAt path items = .ok stored := by
  cases value with
  | array items =>
    obtain ⟨inner, hinner, heq⟩ := map_eq_ok_iff.mp h
    cases heq
    exact ⟨items, rfl, hinner⟩
  | object members =>
    obtain ⟨_, -, heq⟩ := map_eq_ok_iff.mp h
    cases heq
  | integer n =>
    simp only [valueAt, Value.ofJson, Value.ofInteger, Except.ok.injEq] at h
    split at h
    · cases h
    · split at h <;> cases h
  | _ => cases h

end Body

namespace Value

/-- A filter reads each member of an object. -/
theorem length_membersOfJson (members : List (String × Json)) :
    (membersOfJson members).length = members.length := by
  induction members with
  | nil => rfl
  | cons member members ih => rw [membersOfJson, List.length_cons, ih, List.length_cons]

/-- The members of an object are found as what a filter reads them as. -/
theorem get?_membersOfJson {members : List (String × Json)} (hnames : (members.map Prod.fst).Nodup)
    {entry : String × Json} (hmem : entry ∈ members) :
    Entries.get? (membersOfJson members) entry.1 = some (ofJson entry.2) := by
  induction members with
  | nil => exact absurd hmem List.not_mem_nil
  | cons member members ih =>
    obtain ⟨name, value⟩ := member
    obtain ⟨hfirst, hothers⟩ := List.nodup_cons.mp hnames
    rcases List.mem_cons.mp hmem with rfl | hbehind
    · simp [membersOfJson]
    · have hne : name ≠ entry.1 := by
        rintro rfl
        exact hfirst (List.mem_map.mpr ⟨entry, hbehind, rfl⟩)
      rw [membersOfJson, Entries.get?_cons, if_neg hne, ih hothers hbehind]

end Value

namespace Json

/-- Whether a filter that asks for this value takes what a body stores for it, when it holds no
identifier field, and only then. -/
def AlikeUnlessId (value : Json) : Prop :=
  ∀ (path : Option String) (stored : Value), Body.valueAt path value = .ok stored →
    (stored.alike (Value.ofJson value) ↔ ¬ value.HoldsId)

/-- What is no container holds no identifier field, and becomes the same on both sides. -/
theorem alikeUnlessId_of_scalar {value : Json} (hsame : (Value.ofJson value).alike (.ofJson value))
    (hread : ∀ path, Body.valueAt path value = .ok (Value.ofJson value)) (hnone : ¬ value.HoldsId) :
    value.AlikeUnlessId := by
  intro path stored h
  cases (hread path).symm.trans h
  exact iff_of_true hsame hnone

/-- Items are alike when none of them holds an identifier field. -/
theorem alikeItems_iff {path : Option String} {items : List Json} {stored : List Value}
    (hitems : ∀ item ∈ items, item.AlikeUnlessId) (h : Body.itemsAt path items = .ok stored) :
    Value.alikeItems stored (Value.itemsOfJson items) ↔ ∀ item ∈ items, ¬ item.HoldsId := by
  induction items generalizing stored with
  | nil =>
    cases h
    exact iff_of_true rfl (List.forall_mem_nil _)
  | cons item items ih =>
    obtain ⟨hitem, hothers⟩ := List.forall_mem_cons.mp hitems
    obtain ⟨first, hfirst, others, hread, rfl⟩ := Body.itemsAt_cons_eq_ok_iff.mp h
    rw [Value.itemsOfJson, Value.alikeItems, Bool.and_eq_true, hitem _ _ hfirst, ih hothers hread,
      List.forall_mem_cons]

/-- The identifier that is stored for a text is not alike the text. -/
theorem not_alike_of_castId {path : String} {value : Json} {stored : Value}
    (h : Body.castId path value = .ok stored) : ¬ stored.alike (Value.ofJson value) := by
  cases value with
  | string text =>
    obtain ⟨id, rfl⟩ := Body.exists_of_castId h
    simp [Value.ofJson, Value.alike, Value.magnitude?, Value.isNullLike]
  | _ => cases h

/-- Members are alike when none of them is an identifier field, nor holds one. -/
theorem alikeMembers_iff {path : Option String} {members : List (String × Json)} {stored : Document}
    {whole : List (String × Value)} (hmembers : ∀ entry ∈ members, entry.2.AlikeUnlessId)
    (hwhole : ∀ entry ∈ members, Entries.get? whole entry.1 = some (Value.ofJson entry.2))
    (h : Body.membersAt path members = .ok stored) :
    Value.alikeMembers stored whole ↔ ∀ entry ∈ members, entry.1 ≠ idField ∧ ¬ entry.2.HoldsId := by
  induction members generalizing stored with
  | nil =>
    cases h
    exact iff_of_true rfl (List.forall_mem_nil _)
  | cons entry members ih =>
    obtain ⟨name, value⟩ := entry
    obtain ⟨hmember, hothers⟩ := List.forall_mem_cons.mp hmembers
    obtain ⟨hget, hrest⟩ := List.forall_mem_cons.mp hwhole
    obtain ⟨first, hstored, others, hread, rfl⟩ := Body.membersAt_cons_eq_ok_iff.mp h
    have hfirst : first.alike (Value.ofJson value) ↔ name ≠ idField ∧ ¬ value.HoldsId := by
      rcases hstored with ⟨hname, hcast⟩ | ⟨hname, hvalue⟩
      · -- An identifier is stored, and the filter has the text: both sides fail.
        exact iff_of_false (not_alike_of_castId hcast) fun hne => hne.1 hname
      · exact (hmember _ _ hvalue).trans (iff_and_self.mpr fun _ => hname)
    rw [Value.alikeMembers, hget, Bool.and_eq_true, ih hothers hrest hread, List.forall_mem_cons,
      ← hfirst]

/-- What a body stores for a value is alike the value when this holds no identifier field. -/
theorem alikeUnlessId {value : Json} (hproper : value.IsProper) (hdistinct : value.DistinctNames) :
    value.AlikeUnlessId := by
  induction hproper with
  | null => exact alikeUnlessId_of_scalar rfl (fun _ => rfl) (by rintro ⟨⟩)
  | bool value =>
    exact alikeUnlessId_of_scalar (by simp [Value.ofJson, Value.alike]) (fun _ => rfl) (by rintro ⟨⟩)
  | @integer value hlow hhigh =>
    have hsame := Value.alike_ofInteger_self (.integer hlow hhigh)
    exact alikeUnlessId_of_scalar (by rwa [Value.ofJson]) (fun _ => rfl) (by rintro ⟨⟩)
  | @double value hfinite =>
    have hsame := Binary64.same_self_of_isFinite hfinite
    exact alikeUnlessId_of_scalar (by simpa only [Value.ofJson, Value.alike]) (fun _ => rfl) (by rintro ⟨⟩)
  | string text =>
    exact alikeUnlessId_of_scalar (by simp [Value.ofJson, Value.alike]) (fun _ => rfl) (by rintro ⟨⟩)
  | array _ ih =>
    intro path stored h
    obtain ⟨items, hitems, rfl⟩ := map_eq_ok_iff.mp h
    cases hdistinct with
    | array hdistinct =>
      rw [not_holdsId_array_iff, Value.ofJson, Value.alike]
      exact alikeItems_iff (fun item hmem => ih item hmem (hdistinct item hmem)) hitems
  | @object members _ ih =>
    intro path stored h
    obtain ⟨read, hread, rfl⟩ := map_eq_ok_iff.mp h
    cases hdistinct with
    | object hnames hdistinct =>
      have hlength : read.length = (Value.membersOfJson members).length := by
        have hnames := congrArg List.length (Body.names_of_membersAt hread).1
        rwa [Entries.names, List.length_map, List.length_map, ← Value.length_membersOfJson] at hnames
      have halike := alikeMembers_iff (fun entry hmem => ih entry hmem (hdistinct entry hmem))
        (fun entry hmem => Value.get?_membersOfJson hnames hmem) hread
      rw [not_holdsId_object_iff, ← halike, Value.ofJson, Value.alike, Bool.and_eq_true]
      exact and_iff_right (decide_eq_true hlength)

/-- An array that is alike the items of a list has one that is alike each of them. -/
theorem exists_alike_of_mem {items : List Json} {stored : List Value}
    (h : Value.alikeItems stored (Value.itemsOfJson items)) {item : Json} (hmem : item ∈ items) :
    ∃ value ∈ stored, value.alike (Value.ofJson item) := by
  induction items generalizing stored with
  | nil => exact absurd hmem List.not_mem_nil
  | cons first items ih =>
    cases stored with
    | nil => cases h
    | cons value stored =>
      rw [Value.itemsOfJson, Value.alikeItems, Bool.and_eq_true] at h
      rcases List.mem_cons.mp hmem with rfl | hbehind
      · exact ⟨value, List.mem_cons_self, h.1⟩
      · obtain ⟨value', hvalue', halike⟩ := ih h.2 hbehind
        exact ⟨value', List.mem_cons_of_mem _ hvalue', halike⟩

/-- Only an array is alike one. -/
theorem exists_of_alike_array {value : Value} {items : List Value} (h : value.alike (.array items)) :
    ∃ stored, value = .array stored ∧ Value.alikeItems stored items := by
  cases value with
  | array stored => exact ⟨stored, rfl, by rwa [Value.alike] at h⟩
  | _ => simp [Value.alike, Value.magnitude?, Value.isNullLike] at h

/-- No item of a stored array is alike the whole. -/
theorem not_alike_of_mem {value : Json} (hproper : value.IsProper) :
    ∀ {path : Option String} {stored : List Value}, Body.valueAt path value = .ok (.array stored) →
      ∀ item ∈ stored, ¬ item.alike (Value.ofJson value) := by
  induction hproper with
  | array _ ih =>
    intro path stored h item hitem halike
    obtain ⟨_, heq, hitems⟩ := Body.exists_of_valueAt_array h
    cases heq
    -- The item would be an array too, with an item alike the whole that it comes from.
    obtain ⟨source, hsource, hread⟩ := Body.exists_of_mem_itemsAt hitems hitem
    obtain ⟨inner, rfl, hinner⟩ := exists_of_alike_array halike
    obtain ⟨first, hfirst, hfirstAlike⟩ := exists_alike_of_mem hinner hsource
    exact ih source hsource hread first hfirst hfirstAlike
  | _ =>
    intro path stored h
    obtain ⟨_, heq, -⟩ := Body.exists_of_valueAt_array h
    cases heq

end Json

/-! ## The filter for a value's own text -/

/-- A name without dots is a path of its own. -/
theorem Document.resolve_of_dotless (document : Document) {name : String}
    (hname : '.' ∉ name.toList) : document.resolve name = (document.get? name).toList := by
  rw [resolve, Text.split_of_not_mem hname, Value.reach]
  cases Entries.get? document name <;> rfl

/-- A name without dots leads to an identifier field when it is that of one. -/
theorem isIdPath_of_dotless {name : String} (hname : '.' ∉ name.toList) :
    isIdPath name ↔ name = idField := by
  simp only [isIdPath, Bool.or_eq_true, decide_eq_true_eq, List.isSuffixOf_iff_suffix,
    or_iff_left_iff_imp]
  exact fun hsuffix => absurd (hsuffix.subset List.mem_cons_self) hname

namespace Filter

/-- A condition that is no object of operators asks for the value. -/
theorem conditionOf_of_areOperators_false {value : Json}
    (h : ∀ members, value = .object members → areOperators members = false) (field : String) :
    conditionOf field value = .ok [.compare field .equal (operand field value)] := by
  cases value with
  | object members => rw [conditionOf, h members rfl, if_neg Bool.false_ne_true]
  | _ => rfl

/-- A filter that asks for a value under a name without dots looks at the value there, and at the items of
one that is an array. -/
theorem accepts_equal_dotless_iff {name : String} (hname : '.' ∉ name.toList) {operand : Value}
    {document : Document} : (compare name .equal operand).accepts document ↔
      ∃ value, document.get? name = some value ∧
        ∃ candidate ∈ value.candidates, candidate.alike operand := by
  simp [accepts, Comparison.holdsAt, Document.anyAt, Document.resolve_of_dotless _ hname]

/-- A document with one member, under a name without dots, meets the filter that asks for a value there
when the member is alike the value, or has an item that is. -/
theorem accepts_equal_iff {name : String} (hname : '.' ∉ name.toList) (stored operand : Value) :
    (compare name .equal operand).accepts [(name, stored)] ↔
      ∃ candidate ∈ stored.candidates, candidate.alike operand := by
  simp [accepts_equal_dotless_iff hname]

/-- What is stored under the identifier field meets the filter that asks for its text. -/
theorem accepts_own_of_idField {value : Json} {stored : Value}
    (h : Body.castId idField value = .ok stored) :
    (compare idField .equal (operand idField value)).accepts [(idField, stored)] := by
  have hoperand : operand idField value = idOperand value := if_pos (by decide)
  cases value with
  | string text =>
    simp only [Body.castId] at h
    split at h
    case h_1 id htext =>
      cases h
      rw [hoperand, idOperand, htext, accepts_equal_iff (by decide)]
      exact ⟨_, List.mem_singleton_self _, by simp [Value.alike]⟩
    case h_2 => cases h
  | _ => cases h

/-- What is stored under another name meets the filter that asks for the value when this holds no
identifier field. -/
theorem accepts_own_iff_of_ne {name : String} {value : Json} {stored : Value}
    (hname : '.' ∉ name.toList) (hid : name ≠ idField) (hproper : value.IsProper)
    (hdistinct : value.DistinctNames) (h : Body.valueAt (some name) value = .ok stored) :
    (compare name .equal (operand name value)).accepts [(name, stored)] ↔ ¬ value.HoldsId := by
  have hoperand : operand name value = Value.ofJson value :=
    if_neg fun hpath => hid ((isIdPath_of_dotless hname).mp hpath)
  have hwhole : stored.alike (Value.ofJson value) ↔ ¬ value.HoldsId :=
    Json.alikeUnlessId hproper hdistinct _ _ h
  rw [hoperand, accepts_equal_iff hname, ← hwhole]
  cases stored with
  | array items =>
    -- The items of an array are candidates too, but none of them is alike the whole.
    simp only [Value.candidates, List.exists_mem_cons_iff, or_iff_left_iff_imp]
    rintro ⟨item, hitem, halike⟩
    exact absurd halike (Json.not_alike_of_mem hproper h item hitem)
  | _ => simp [Value.candidates]

/-- A document with one member, stored from a body, meets the filter that asks for what the body says
exactly when the member is the identifier field or its value holds no identifier field inside. The value
is any that can be read: its numbers are proper, and its objects have each name once. -/
theorem accepts_own_iff {name : String} {value : Json} {document : Document}
    (hname : '.' ∉ name.toList) (hoperator : isOperatorName name = false)
    (hvalue : ∀ members, value = .object members → areOperators members = false)
    (hproper : value.IsProper) (hdistinct : value.DistinctNames)
    (hbody : Body.document (.object [(name, value)]) = .ok document) :
    ∃ filter, ofJson (.object [(name, value)]) = .ok filter ∧
      (filter.accepts document ↔ name = idField ∨ ¬ value.HoldsId) := by
  refine ⟨.compare name .equal (operand name value), ?_, ?_⟩
  · rw [ofJson_field hoperator, conditionOf_of_areOperators_false hvalue]
    rfl
  by_cases hid : name = idField
  · subst hid
    simp only [Body.document, Body.membersAt, if_true, block_eq_ok_iff, pure_eq_ok_iff] at hbody
    obtain ⟨stored, hstored, _, hnone, rfl⟩ := hbody
    cases hnone
    exact iff_of_true (accepts_own_of_idField hstored) (Or.inl rfl)
  · simp only [Body.document, Body.membersAt, if_neg hid, block_eq_ok_iff, pure_eq_ok_iff] at hbody
    obtain ⟨stored, hstored, _, hnone, rfl⟩ := hbody
    cases hnone
    rw [accepts_own_iff_of_ne hname hid hproper hdistinct hstored, or_iff_right hid]

/-- A list with an object and a list in it. -/
def nestedList : Json := .array [.object [("n", .integer 3)], .array [.string "t"]]

/-- The list meets its own filter, for it holds no identifier field. -/
theorem accepts_own_iff_nestedList : nestedList.IsProper ∧ nestedList.DistinctNames ∧
    ∃ document filter, Body.document (.object [("list", nestedList)]) = .ok document ∧
      ofJson (.object [("list", nestedList)]) = .ok filter ∧ filter.accepts document := by
  have hproper : nestedList.IsProper := by
    refine .array (List.forall_mem_cons.mpr ⟨.object ?_, List.forall_mem_singleton.mpr (.array ?_)⟩)
    · exact List.forall_mem_singleton.mpr (.integer (by decide) (by decide))
    · exact List.forall_mem_singleton.mpr (.string "t")
  have hdistinct : nestedList.DistinctNames := by
    refine .array (List.forall_mem_cons.mpr
      ⟨.object (List.nodup_singleton "n") ?_, List.forall_mem_singleton.mpr (.array ?_)⟩)
    · exact List.forall_mem_singleton.mpr (.integer 3)
    · exact List.forall_mem_singleton.mpr (.string "t")
  have hnone : ¬ nestedList.HoldsId := by
    refine Json.not_holdsId_array_iff.mpr (List.forall_mem_cons.mpr
      ⟨Json.not_holdsId_object_iff.mpr ?_, List.forall_mem_singleton.mpr
        (Json.not_holdsId_array_iff.mpr ?_)⟩)
    · exact List.forall_mem_singleton.mpr ⟨by decide, nofun⟩
    · exact List.forall_mem_singleton.mpr nofun
  have hlist : ∀ members, nestedList = .object members → areOperators members = false := by
    rintro members ⟨⟩
  have hbody : Body.document (.object [("list", nestedList)]) =
      .ok [("list", .array [.document [("n", .int32 3)], .array [.string "t"]])] := rfl
  obtain ⟨filter, hread, haccepts⟩ :=
    accepts_own_iff (by decide) (by decide) hlist hproper hdistinct hbody
  exact ⟨hproper, hdistinct, _, filter, hbody, hread, haccepts.mpr (Or.inr hnone)⟩

/-- A reference to a document by its identifier. -/
def reference : Json := .object [(idField, .string "64f2f2f2f2f2f2f2f2f2f2f2")]

/-- The reference is stored with an identifier inside, and its own filter asks for a text there. -/
theorem accepts_nestedId : ∃ document filter,
    Body.document (.object [("ref", reference)]) = .ok document ∧
      ofJson (.object [("ref", reference)]) = .ok filter ∧ ¬ filter.accepts document :=
  ⟨_, _, rfl, rfl, by decide +kernel⟩

end Filter

end RestArchive
