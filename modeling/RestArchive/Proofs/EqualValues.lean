import RestArchive.Proofs.NearestDouble
import RestArchive.Proofs.OwnValues
import RestArchive.Proofs.Reordered
import RestArchive.Proofs.StampedElements

/-! # What filters take for equal

Two values are the same when they are numbers of the same worth, whatever their types, or have one type
and one content, the order of names in documents apart. A filter compares numbers by their nearest
doubles, at any depth, and has no class for some types; apart from numbers with one nearest double, and
from values of such types that meet one another or null, it takes for equal only what is the same
(`equalUpTo_of_alike`). Every value without a NaN inside is equal to itself for a filter
(`alike_self`). -/

namespace RestArchive

/-! ## Numbers -/

namespace Magnitude

/-- The number that an integer is. -/
def ofWhole (n : Int) : Magnitude := .finite (n * (Binary64.unitsPerOne : Nat))

/-- Whether a number is finite and at least `2 ^ 53` in size, where doubles no longer tell all integers
apart. -/
def IsLarge (magnitude : Magnitude) : Prop :=
  ∃ units : Int, magnitude = .finite units ∧ Nat.pow 2 53 * Binary64.unitsPerOne ≤ units.natAbs

/-- Different integers are different numbers. -/
theorem ofWhole_inj {first second : Int} : ofWhole first = ofWhole second ↔ first = second := by
  have hpos : (Binary64.unitsPerOne : Int) ≠ 0 :=
    Int.natCast_ne_zero.mpr Binary64.unitsPerOne_pos.ne'
  rw [ofWhole, ofWhole, finite.injEq, Int.mul_eq_mul_right_iff hpos]

/-- An integer below `2 ^ 53` is no large number. -/
theorem not_isLarge_ofWhole {n : Int} (h : n.natAbs < Nat.pow 2 53) : ¬ (ofWhole n).IsLarge := by
  rintro ⟨units, hunits, hlarge⟩
  rw [ofWhole, finite.injEq] at hunits
  rw [← hunits, Int.natAbs_mul, Int.natAbs_natCast] at hlarge
  exact absurd (Nat.le_of_mul_le_mul_right hlarge Binary64.unitsPerOne_pos) (Nat.not_le_of_lt h)

/-- The number that an integer is compared as. -/
theorem ofInt_eq_finite {n : Int} (h : n.natAbs < Nat.pow 2 64) :
    ofInt n = .finite (Binary64.ofInt n).units := by
  rw [ofInt, Binary64.magnitude, if_pos (Binary64.isFinite_ofInt h)]

/-- An integer is compared as the number that it is, or as a large number. -/
theorem ofInt_eq_or_isLarge {n : Int} (h : n.natAbs < Nat.pow 2 64) :
    ofInt n = ofWhole n ∨ (ofInt n).IsLarge := by
  rcases Nat.lt_or_ge n.natAbs (Nat.pow 2 53) with hsmall | hlarge
  · left
    rw [ofInt_eq_finite h, Binary64.units_ofInt hsmall, ofWhole]
  · exact Or.inr ⟨_, ofInt_eq_finite h, Binary64.le_natAbs_units_ofInt hlarge h⟩

end Magnitude

namespace Value

/-! ## Values inside values -/

/-- What holds of the values without any inside, and of a list or a document when it holds of what is in
it, holds of all values. -/
@[elab_as_elim]
theorem induction {motive : Value → Prop} (plain : ∀ value : Value, value.IsPlain → motive value)
    (array : ∀ items, (∀ item ∈ items, motive item) → motive (.array items))
    (document : ∀ members : Document, (∀ entry ∈ members, motive entry.2) →
      motive (.document members)) (value : Value) : motive value := by
  match value with
  | .array items => exact array items fun item _ => induction plain array document item
  | .document members =>
    exact document members fun entry _ => induction plain array document entry.2
  | .null | .undefined | .minKey | .maxKey | .bool _ | .int32 _ | .int64 _ | .double _ | .string _
  | .objectId _ | .date _ | .timestamp _ _ | .symbol _ | .code _ | .regex _ _ | .decimal128 _
  | .binary _ _ | .codeWithScope _ _ | .dbPointer _ _ => exact plain _ trivial
termination_by sizeOf value
decreasing_by
  · have hsize := List.sizeOf_lt_of_mem ‹_›
    simp +arith
    omega
  · have hsize := List.sizeOf_lt_of_mem ‹_›
    obtain ⟨name, value⟩ := entry
    simp +arith at hsize ⊢
    omega

/-- Whether a value has a property, and so has every value inside it. -/
def Throughout (Holds : Value → Prop) (value : Value) : Prop :=
  ∀ inner : Value, inner.Inside value → Holds inner

variable {Holds : Value → Prop}

/-- There is nothing inside a value that is neither a document nor an array but the value. -/
theorem throughout_iff_of_isPlain {value : Value} (h : value.IsPlain) :
    value.Throughout Holds ↔ Holds value := by
  refine ⟨fun hall => hall value .self, fun hvalue inner hinside => ?_⟩
  cases hinside with
  | self => exact hvalue
  | member => exact h.elim
  | element => exact h.elim

/-- What holds throughout an array holds of the array, and throughout its items. -/
theorem throughout_array_iff {items : List Value} : (array items).Throughout Holds ↔
    Holds (.array items) ∧ ∀ item ∈ items, item.Throughout Holds := by
  constructor
  · exact fun hall =>
      ⟨hall _ .self, fun item hitem inner hinside => hall inner (.element item hitem hinside)⟩
  · rintro ⟨hself, hitems⟩ inner hinside
    cases hinside with
    | self => exact hself
    | element item hitem hinside => exact hitems item hitem inner hinside

/-- What holds throughout a document holds of the document, and throughout its members. -/
theorem throughout_document_iff {members : Document} : (document members).Throughout Holds ↔
    Holds (.document members) ∧ ∀ entry ∈ members, entry.2.Throughout Holds := by
  constructor
  · exact fun hall =>
      ⟨hall _ .self, fun entry hentry inner hinside => hall inner (.member entry hentry hinside)⟩
  · rintro ⟨hself, hmembers⟩ inner hinside
    cases hinside with
    | self => exact hself
    | member entry hentry hinside => exact hmembers entry hentry inner hinside

/-- Whether there is no NaN inside a value. -/
def FreeOfNaN : Value → Prop :=
  Throughout fun inner => inner.magnitude? ≠ some .nan

/-- Whether a value holds no other values: it is no document and no array, and no code with variables. -/
def IsScalar : Value → Prop
  | .document _ => False
  | .array _ => False
  | .codeWithScope _ _ => False
  | _ => True

/-- Whether each document in a value, the value and the variables of code included, has each name once. -/
inductive DistinctNames : Value → Prop
  /-- There are no names in a scalar. -/
  | scalar {value : Value} (scalar : value.IsScalar) : DistinctNames value
  /-- The names in an array are those in its items. -/
  | array {items : List Value} (inItems : ∀ item ∈ items, DistinctNames item) :
      DistinctNames (.array items)
  /-- A document has each name once, and so have the documents in it. -/
  | document {members : Document} (nodup : members.names.Nodup)
      (inMembers : ∀ entry ∈ members, DistinctNames entry.2) : DistinctNames (.document members)
  /-- Code has each variable once, and the documents in its variables have each name once. -/
  | codeWithScope {text : String} {scope : Document} (nodup : scope.names.Nodup)
      (inScope : ∀ entry ∈ scope, DistinctNames entry.2) :
      DistinctNames (.codeWithScope text scope)

/-- In an array of distinct names, each item has them. -/
theorem distinctNames_array_iff {items : List Value} :
    (array items).DistinctNames ↔ ∀ item ∈ items, item.DistinctNames := by
  refine ⟨fun h => ?_, .array⟩
  cases h with
  | scalar hscalar => exact hscalar.elim
  | array hitems => exact hitems

/-- A document of distinct names has each name once, and so have its members. -/
theorem distinctNames_document_iff {members : Document} : (document members).DistinctNames ↔
    members.names.Nodup ∧ ∀ entry ∈ members, entry.2.DistinctNames := by
  refine ⟨fun h => ?_, fun ⟨hnodup, hmembers⟩ => .document hnodup hmembers⟩
  cases h with
  | scalar hscalar => exact hscalar.elim
  | document hnodup hmembers => exact ⟨hnodup, hmembers⟩

/-! ## The same value -/

/-- The integer that a value is, if it is one. -/
def integer? : Value → Option Int
  | .int32 value => some value.toInt
  | .int64 value => some value.toInt
  | _ => none

/-- The number that a value is, if it is one. -/
def worth? : Value → Option Magnitude
  | .int32 value => some (.ofWhole value.toInt)
  | .int64 value => some (.ofWhole value.toInt)
  | .double value => some value.magnitude
  | _ => none

/-- Whether two values are the same, but for values inside them, at the same place in both, that a relation
lets pass for the same. Numbers are the same when they are worth the same, whatever their types; what is
neither a number nor a container when it is one value; and containers when what is in them is the same,
the order of names apart. -/
inductive EqualUpTo (Passes : Value → Value → Prop) : Value → Value → Prop
  /-- The relation lets the two pass for the same. -/
  | passes {first second : Value} (passes : Passes first second) : EqualUpTo Passes first second
  /-- Numbers of the same worth; a NaN has none. -/
  | number {first second : Value} {worth : Magnitude} (first_worth : first.worth? = some worth)
      (second_worth : second.worth? = some worth) (notNaN : worth ≠ .nan) :
      EqualUpTo Passes first second
  /-- One value, which is neither a number nor a container. -/
  | plain {value : Value} (plain : value.IsPlain) (notNumber : value.isNumber = false) :
      EqualUpTo Passes value value
  /-- Arrays whose items are the same, one by one. -/
  | array {first second : List Value} (items : List.Forall₂ (EqualUpTo Passes) first second) :
      EqualUpTo Passes (.array first) (.array second)
  /-- Documents of the same names, with the same values under them. -/
  | document {first second : Document} (names : first.names.Perm second.names)
      (members : ∀ name, Option.Rel (EqualUpTo Passes) (first.get? name) (second.get? name)) :
      EqualUpTo Passes (.document first) (.document second)

/-- Whether two values are the same. -/
abbrev EqualTo : Value → Value → Prop := EqualUpTo fun _ _ => False

/-- Whether two numbers have one nearest double, which is at least `2 ^ 53` in size. They are compared as it, and
may differ. -/
def SameDouble (first second : Value) : Prop :=
  ∃ magnitude : Magnitude, magnitude.IsLarge ∧ first.magnitude? = some magnitude ∧
    second.magnitude? = some magnitude

/-- Whether filters have no class for a value's type. Null, which these types are compared as, has one. -/
def isUnknown : Value → Bool
  | .null => false
  | value => value.isNullLike

/-- Whether two values meet as nulls though they are not both null: filters have no class for the type of
one of them at least. -/
structure MeetAsNull (first second : Value) : Prop where
  /-- The first is null, or of such a type. -/
  first_null : first.isNullLike
  /-- The second is null, or of such a type. -/
  second_null : second.isNullLike
  /-- One of the two is of such a type. -/
  unknown : first.isUnknown ∨ second.isUnknown

/-- What filters have a class for and compare as null is null. -/
theorem eq_null_of_isUnknown {value : Value} (hnull : value.isNullLike)
    (hknown : value.isUnknown = false) : value = .null := by
  cases value with
  | null => rfl
  | _ => simp_all [isUnknown, isNullLike]

/-- An integer is worth what it is. -/
theorem worth?_of_integer? {value : Value} {n : Int} (h : value.integer? = some n) :
    value.worth? = some (.ofWhole n) := by
  cases value <;> cases h <;> rfl

/-- An integer is compared as its nearest double. -/
theorem magnitude?_of_integer? {value : Value} {n : Int} (h : value.integer? = some n) :
    value.magnitude? = some (.ofInt n) := by
  cases value <;> cases h <;> rfl

/-- An integer has at most 64 bits. -/
theorem natAbs_lt_of_integer? {value : Value} {n : Int} (h : value.integer? = some n) :
    n.natAbs < Nat.pow 2 64 := by
  rw [Nat.pow_eq]
  cases value with
  | int32 number =>
    have hlow := number.le_toInt
    have hhigh := number.toInt_lt
    cases h
    omega
  | int64 number =>
    have hlow := number.le_toInt
    have hhigh := number.toInt_lt
    cases h
    omega
  | _ => cases h

/-- What is compared as no number is none. -/
theorem isNumber_of_magnitude?_eq_none {value : Value} (h : value.magnitude? = none) :
    value.isNumber = false := by
  cases value <;> first | rfl | cases h

/-- What is no integer is compared as what it is worth. -/
theorem worth?_eq_magnitude? {value : Value} (h : value.integer? = none) :
    value.worth? = value.magnitude? := by
  cases value <;> first | rfl | cases h

/-- A number is compared as the number that it is worth, or as a large one. -/
theorem worth?_eq_or_isLarge {value : Value} {magnitude : Magnitude}
    (h : value.magnitude? = some magnitude) : value.worth? = some magnitude ∨ magnitude.IsLarge := by
  cases hinteger : value.integer? with
  | none => exact Or.inl ((worth?_eq_magnitude? hinteger).trans h)
  | some n =>
    obtain rfl : Magnitude.ofInt n = magnitude :=
      Option.some.inj ((magnitude?_of_integer? hinteger).symm.trans h)
    refine (Magnitude.ofInt_eq_or_isLarge (natAbs_lt_of_integer? hinteger)).imp_left fun heq => ?_
    rw [heq, worth?_of_integer? hinteger]

/-! ## Equality in filters -/

/-- What is null for a filter is equal to what is null for it. -/
theorem alike_of_isNullLike {first : Value} (h : first.isNullLike) (second : Value) :
    first.alike second = second.isNullLike := by
  cases first <;> cases h <;> cases second <;> rfl

/-- What is equal to what is null for a filter is null for it. -/
theorem alike_right_of_isNullLike {second : Value} (h : second.isNullLike) (first : Value) :
    first.alike second = first.isNullLike := by
  cases second <;> cases h <;> cases first <;> rfl

/-- A number is equal to a number that has the same nearest double. -/
theorem alike_of_magnitude? {first : Value} {magnitude : Magnitude}
    (h : first.magnitude? = some magnitude) (second : Value) :
    first.alike second ↔ second.magnitude? = some magnitude ∧ magnitude ≠ .nan := by
  have halike : first.alike second = second.magnitude?.any magnitude.same := by
    cases first with
    | int32 | int64 | double =>
      simp only [alike, h]
      cases second.magnitude? <;> rfl
    | _ => cases h
  rw [halike, Option.any_eq_true]
  simp only [Magnitude.same_iff]
  constructor
  · rintro ⟨_, hsecond, rfl, hnan⟩
    exact ⟨hsecond, hnan⟩
  · rintro ⟨hsecond, hnan⟩
    exact ⟨magnitude, hsecond, rfl, hnan⟩

/-- A value of the other types that are no containers is equal to itself only. -/
theorem alike_iff_eq {first : Value} (hplain : first.IsPlain) (hnull : first.isNullLike = false)
    (hnumber : first.magnitude? = none) (second : Value) : first.alike second ↔ first = second := by
  cases first with
  | bool value => cases second <;> simp [alike, magnitude?, isNullLike]
  | string text => cases second <;> simp [alike, magnitude?, isNullLike]
  | objectId id => cases second <;> simp [alike, magnitude?, isNullLike]
  | date milliseconds => cases second <;> simp [alike, magnitude?, isNullLike]
  | array items => exact hplain.elim
  | document members => exact hplain.elim
  | int32 | int64 | double => cases hnumber
  | _ => cases hnull

/-- Two lists are equal when their items are, one by one. -/
theorem alikeItems_iff {first second : List Value} :
    alikeItems first second ↔ List.Forall₂ (fun a b => a.alike b) first second := by
  induction first generalizing second with
  | nil => cases second <;> simp [alikeItems]
  | cons a first ih => cases second <;> simp [alikeItems, ih]

/-- Every member is like its namesake in the other document when each is. -/
theorem alikeMembers_iff {first second : List (String × Value)} :
    alikeMembers first second ↔
      ∀ entry ∈ first, ∃ value, Entries.get? second entry.1 = some value ∧ entry.2.alike value := by
  induction first with
  | nil => simp [alikeMembers]
  | cons entry first ih =>
    obtain ⟨name, value⟩ := entry
    rw [alikeMembers, Bool.and_eq_true, ih, List.forall_mem_cons]
    cases Entries.get? second name <;> simp

/-- An array is equal to arrays only, item by item. -/
theorem alike_array_iff {items : List Value} {second : Value} : (array items).alike second ↔
    ∃ others, second = .array others ∧ List.Forall₂ (fun a b => a.alike b) items others := by
  simp only [← alikeItems_iff]
  cases second <;> simp [alike, magnitude?, isNullLike]

/-- A document is equal to documents only, of as many members, each like its namesake. -/
theorem alike_document_iff {members : Document} {second : Value} : (document members).alike second ↔
    ∃ others : Document, second = .document others ∧ members.length = others.length ∧
      ∀ entry ∈ members, ∃ value, others.get? entry.1 = some value ∧ entry.2.alike value := by
  simp only [← alikeMembers_iff]
  cases second <;> simp [alike, magnitude?, isNullLike]

/-- Two values that are compared as null are both null, or meet as nulls. -/
theorem equalUpTo_of_isNullLike {Passes : Value → Value → Prop} {first second : Value}
    (hfirst : first.isNullLike) (hsecond : second.isNullLike) :
    first.EqualUpTo (fun a b => Passes a b ∨ a.MeetAsNull b) second := by
  by_cases hunknown : first.isUnknown ∨ second.isUnknown
  · exact .passes (Or.inr ⟨hfirst, hsecond, hunknown⟩)
  · simp only [not_or, Bool.not_eq_true] at hunknown
    obtain rfl := eq_null_of_isUnknown hfirst hunknown.1
    obtain rfl := eq_null_of_isUnknown hsecond hunknown.2
    exact .plain trivial rfl

/-- Of as many members, with different names, that all have a namesake that is like them, there are the same
names. -/
theorem names_perm_of_namesakes (Like : Value → Value → Prop) {first second : Document}
    (hnodup : first.names.Nodup) (hlength : first.length = second.length)
    (hfound : ∀ entry ∈ first, ∃ value, second.get? entry.1 = some value ∧ Like entry.2 value) :
    first.names.Perm second.names := by
  have hsubset : first.names ⊆ second.names := by
    intro name hname
    obtain ⟨entry, hentry, rfl⟩ := List.mem_map.mp hname
    obtain ⟨value, hvalue, -⟩ := hfound entry hentry
    exact (Entries.mem_names_iff second entry.1).mpr (by simp [hvalue])
  refine (hnodup.subperm hsubset).perm_of_length_le ?_
  simp [Entries.names, hlength]

/-- What a filter takes for equal is the same value, but for numbers with one nearest double, and for what
meets as null. -/
theorem equalUpTo_of_alike {first second : Value} (hdistinct : first.DistinctNames)
    (h : first.alike second) :
    first.EqualUpTo (fun a b => a.SameDouble b ∨ a.MeetAsNull b) second := by
  induction first using induction generalizing second with
  | plain value hplain =>
    -- What is compared as null, then what is compared as a number, then what is compared as it is.
    by_cases hnull : value.isNullLike
    · rw [alike_of_isNullLike hnull] at h
      exact equalUpTo_of_isNullLike hnull h
    rw [Bool.not_eq_true] at hnull
    cases hnumber : value.magnitude? with
    | none =>
      obtain rfl := (alike_iff_eq hplain hnull hnumber second).mp h
      exact .plain hplain (isNumber_of_magnitude?_eq_none hnumber)
    | some magnitude =>
      obtain ⟨hsecond, hnan⟩ := (alike_of_magnitude? hnumber second).mp h
      by_cases hlarge : magnitude.IsLarge
      · exact .passes (Or.inl ⟨magnitude, hlarge, hnumber, hsecond⟩)
      · exact .number ((worth?_eq_or_isLarge hnumber).resolve_right hlarge)
          ((worth?_eq_or_isLarge hsecond).resolve_right hlarge) hnan
  | array items ih =>
    obtain ⟨others, rfl, hitems⟩ := alike_array_iff.mp h
    have hequal : ∀ item ∈ items, ∀ other : Value, item.alike other →
        item.EqualUpTo (fun a b => a.SameDouble b ∨ a.MeetAsNull b) other :=
      fun item hitem _ => ih item hitem (distinctNames_array_iff.mp hdistinct item hitem)
    refine .array (((List.forall₂_and_left items others).mpr ⟨hequal, hitems⟩).imp ?_)
    exact fun item other ⟨hitem, halike⟩ => hitem other halike
  | document members ih =>
    obtain ⟨others, rfl, hlength, hmembers⟩ := alike_document_iff.mp h
    obtain ⟨hnodup, hinside⟩ := distinctNames_document_iff.mp hdistinct
    -- The filter looks for the first names in the second document, and compares the lengths.
    have hnames := names_perm_of_namesakes (fun a b => a.alike b) hnodup hlength hmembers
    refine .document hnames fun name => ?_
    cases hfirst : members.get? name with
    | none =>
      have hother : others.get? name = none := by
        by_contra hsome
        exact (Entries.mem_names_iff members name).mp
          (hnames.symm.subset ((Entries.mem_names_iff others name).mpr hsome)) hfirst
      rw [hother]
      exact .none
    | some value =>
      have hmem := Entries.mem_of_get? hfirst
      obtain ⟨other, hother, halike⟩ := hmembers _ hmem
      rw [hother]
      exact .some (ih _ hmem (hinside _ hmem) halike)

/-- A value without a NaN inside is equal to itself for a filter. -/
theorem alike_self {value : Value} (hdistinct : value.DistinctNames) (hnan : value.FreeOfNaN) :
    value.alike value := by
  induction value using induction with
  | plain value hplain =>
    by_cases hnull : value.isNullLike
    · rw [alike_of_isNullLike hnull, hnull]
    rw [Bool.not_eq_true] at hnull
    cases hnumber : value.magnitude? with
    | none => exact (alike_iff_eq hplain hnull hnumber value).mpr rfl
    | some magnitude =>
      refine (alike_of_magnitude? hnumber value).mpr ⟨hnumber, ?_⟩
      rintro rfl
      exact hnan value .self hnumber
  | array items ih =>
    refine alike_array_iff.mpr ⟨items, rfl, List.forall₂_same.mpr fun item hitem => ?_⟩
    exact ih item hitem (distinctNames_array_iff.mp hdistinct item hitem)
      ((throughout_array_iff.mp hnan).2 item hitem)
  | document members ih =>
    obtain ⟨hnodup, hinside⟩ := distinctNames_document_iff.mp hdistinct
    refine alike_document_iff.mpr ⟨members, rfl, rfl, fun entry hentry => ?_⟩
    exact ⟨entry.2, Entries.get?_of_mem hnodup hentry, ih entry hentry (hinside entry hentry)
      ((throughout_document_iff.mp hnan).2 entry hentry)⟩

/-- What is the same but for what one relation lets pass is the same but for what another does, when this lets
the values inside the two pass that the first one does. -/
theorem EqualUpTo.imp {Passes Passes' : Value → Value → Prop} {first second : Value}
    (h : first.EqualUpTo Passes second)
    (himp : ∀ a b : Value, a.Inside first → b.Inside second → Passes a b → Passes' a b) :
    first.EqualUpTo Passes' second := by
  induction second using induction generalizing first with
  | plain value hplain =>
    cases h with
    | passes hpasses => exact .passes (himp _ _ .self .self hpasses)
    | number hfirst hsecond hnan => exact .number hfirst hsecond hnan
    | plain hplain hnumber => exact .plain hplain hnumber
    | array => exact hplain.elim
    | document => exact hplain.elim
  | array items ih =>
    cases h with
    | passes hpasses => exact .passes (himp _ _ .self .self hpasses)
    | number _ hsecond => cases hsecond
    | plain hplain => exact hplain.elim
    | @array others _ hitems =>
      refine .array (List.forall₂_iff_get.mpr ?_)
      obtain ⟨hlength, hget⟩ := List.forall₂_iff_get.mp hitems
      refine ⟨hlength, fun index hfirst hsecond => ?_⟩
      exact ih _ (List.get_mem ..) (hget index hfirst hsecond) fun a b ha hb =>
        himp a b (.element _ (List.get_mem ..) ha) (.element _ (List.get_mem ..) hb)
  | document members ih =>
    cases h with
    | passes hpasses => exact .passes (himp _ _ .self .self hpasses)
    | number _ hsecond => cases hsecond
    | plain hplain => exact hplain.elim
    | @document others _ hnames hmembers =>
      refine .document hnames fun name => ?_
      have hname := hmembers name
      generalize hfirst : others.get? name = found at hname ⊢
      generalize hsecond : members.get? name = held at hname ⊢
      cases hname with
      | none => exact .none
      | some hvalue =>
        have hother := Entries.mem_of_get? hfirst
        have hmember := Entries.mem_of_get? hsecond
        exact .some (ih _ hmember hvalue fun a b ha hb =>
          himp a b (.member _ hother ha) (.member _ hmember hb))

/-- Whether filters have a class for the type of a value, and of every value inside it. -/
def IsKnown : Value → Prop :=
  Throughout fun inner => inner.isUnknown = false

/-- Whether nothing inside a value is compared as null. -/
def FreeOfNull : Value → Prop :=
  Throughout fun inner => inner.isNullLike = false

/-- Whether there is no large number inside a value. -/
def FreeOfLarge : Value → Prop :=
  Throughout fun inner => ∀ magnitude, inner.magnitude? = some magnitude → ¬ magnitude.IsLarge

/-- Where the second value holds nothing that is compared as null, or filters have a class for every type, no
two values meet as nulls. -/
theorem EqualUpTo.of_not_meetAsNull {Passes : Value → Value → Prop} {first second : Value}
    (h : first.EqualUpTo (fun a b => Passes a b ∨ a.MeetAsNull b) second)
    (hnull : second.FreeOfNull ∨ first.IsKnown ∧ second.IsKnown) : first.EqualUpTo Passes second := by
  refine h.imp fun a b ha hb => ?_
  rintro (hpasses | hmeet)
  · exact hpasses
  · rcases hnull with hnull | ⟨hfirst, hsecond⟩
    · exact absurd hmeet.second_null (by rw [hnull b hb]; exact Bool.false_ne_true)
    · rcases hmeet.unknown with hunknown | hunknown
      · exact absurd hunknown (by rw [hfirst a ha]; exact Bool.false_ne_true)
      · exact absurd hunknown (by rw [hsecond b hb]; exact Bool.false_ne_true)

/-- Where the second value holds no large number, no two numbers have one nearest double and differ. -/
theorem EqualUpTo.equalTo {first second : Value} (h : first.EqualUpTo SameDouble second)
    (hsmall : second.FreeOfLarge) : first.EqualTo second := by
  refine h.imp ?_
  rintro a b - hb ⟨magnitude, hlarge, -, hnearest⟩
  exact hsmall b hb magnitude hnearest hlarge

end Value

end RestArchive
