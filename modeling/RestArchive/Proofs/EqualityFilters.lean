import RestArchive.Proofs.EqualValues
import RestArchive.Proofs.SelectedDocuments

/-! # Filters that ask for a value

A filter that asks for a value under a name selects documents that hold the same value there, but for
numbers with one nearest double, and for values of types that filters have no class for
(`equalUpTo_of_accepts_equal`). So a removal or an update by an integer below `2 ^ 53` leaves the documents
alone that hold another integer. Above, two integers may have one nearest double, and a removal takes the
other one too (`accepts_equal_of_unequal`). What filters have no class for is one value with null for them
(`accepts_equal_iff_of_isNullLike`). -/

namespace RestArchive

namespace Value

/-- Two integers that are the same value are one integer. -/
theorem EqualTo.integer_eq {first second : Value} {m n : Int} (h : first.EqualTo second)
    (hfirst : first.integer? = some m) (hsecond : second.integer? = some n) : m = n := by
  cases h with
  | passes hpasses => exact hpasses.elim
  | number hworth hworth' =>
    rw [worth?_of_integer? hfirst, Option.some_inj] at hworth
    rw [worth?_of_integer? hsecond, Option.some_inj] at hworth'
    exact Magnitude.ofWhole_inj.mp (hworth.trans hworth'.symm)
  | plain => exact Option.some.inj (hfirst.symm.trans hsecond)
  | array => cases hfirst
  | document => cases hfirst

/-- An integer has nothing inside and is of a type that filters know. -/
theorem isPlain_of_integer? {value : Value} {n : Int} (h : value.integer? = some n) :
    value.IsPlain ∧ value.isNullLike = false := by
  cases value <;> first | exact ⟨trivial, rfl⟩ | cases h

/-- There are no names in an integer that could repeat. -/
theorem distinctNames_of_integer? {value : Value} {n : Int} (h : value.integer? = some n) :
    value.DistinctNames := by
  cases value <;> first | exact .scalar trivial | cases h

/-- There is nothing that is compared as null inside an integer. -/
theorem freeOfNull_of_integer? {value : Value} {n : Int} (h : value.integer? = some n) :
    value.FreeOfNull := by
  obtain ⟨hplain, hnull⟩ := isPlain_of_integer? h
  exact (throughout_iff_of_isPlain hplain).mpr hnull

/-- An integer below `2 ^ 53` is no large number. -/
theorem freeOfLarge_of_integer? {value : Value} {n : Int} (h : value.integer? = some n)
    (hsmall : n.natAbs < Nat.pow 2 53) : value.FreeOfLarge := by
  refine (throughout_iff_of_isPlain (isPlain_of_integer? h).1).mpr fun magnitude hmagnitude hlarge => ?_
  rw [magnitude?_of_integer? h, Option.some_inj,
    Magnitude.ofInt_eq_finite (natAbs_lt_of_integer? h), Binary64.units_ofInt hsmall] at hmagnitude
  subst hmagnitude
  exact Magnitude.not_isLarge_ofWhole hsmall hlarge

/-- What is no list is its only candidate. -/
theorem candidates_of_ne_array {value : Value} (h : ∀ items, value ≠ .array items) :
    value.candidates = [value] := by
  cases value with
  | array items => exact absurd rfl (h items)
  | _ => rfl

end Value

namespace Document

/-- Whether a document holds an integer under a name, and not the given one. -/
def holdsOther (name : String) (n : Int) (document : Document) : Bool :=
  ((document.get? name).bind Value.integer?).any (· ≠ n)

/-- A document holds another integer when there is one under the name that differs. -/
theorem holdsOther_iff {name : String} {n : Int} {document : Document} :
    document.holdsOther name n ↔
      ∃ value m, document.get? name = some value ∧ value.integer? = some m ∧ m ≠ n := by
  rw [holdsOther, Option.any_eq_true]
  simp only [Option.bind_eq_some_iff, decide_eq_true_eq]
  constructor
  · rintro ⟨m, ⟨value, hvalue, hm⟩, hne⟩
    exact ⟨value, m, hvalue, hm, hne⟩
  · rintro ⟨value, m, hvalue, hm, hne⟩
    exact ⟨m, ⟨value, hvalue, hm⟩, hne⟩

end Document

namespace Filter

variable {name : String} {operand : Value} {document : Document}

/-- What is selected by an operand and is no list is alike the operand. -/
theorem alike_of_accepts_equal {value : Value} (hname : '.' ∉ name.toList)
    (hvalue : document.get? name = some value) (harray : ∀ items, value ≠ .array items)
    (h : (compare name .equal operand).accepts document) : value.alike operand := by
  obtain ⟨held, hheld, candidate, hcandidate, halike⟩ := (accepts_equal_dotless_iff hname).mp h
  obtain rfl : value = held := Option.some.inj (hvalue.symm.trans hheld)
  rw [Value.candidates_of_ne_array harray, List.mem_singleton] at hcandidate
  exact hcandidate ▸ halike

/-- A document that holds another integer is not selected by an integer below `2 ^ 53`. -/
theorem not_accepts_equal_of_holdsOther {n : Int} (hname : '.' ∉ name.toList)
    (hinteger : operand.integer? = some n) (hsmall : n.natAbs < Nat.pow 2 53)
    (hother : document.holdsOther name n) : ¬ (compare name .equal operand).accepts document := by
  intro haccepts
  obtain ⟨value, m, hvalue, hm, hne⟩ := Document.holdsOther_iff.mp hother
  have harray : ∀ items, value ≠ .array items := by
    rintro items rfl
    exact (Value.isPlain_of_integer? hm).1
  have hnull := Value.freeOfNull_of_integer? hinteger
  have hequal : value.EqualTo operand :=
    ((Value.equalUpTo_of_alike (Value.distinctNames_of_integer? hm)
      (alike_of_accepts_equal hname hvalue harray haccepts)).of_not_meetAsNull (Or.inl hnull)).equalTo
        (Value.freeOfLarge_of_integer? hinteger hsmall)
  exact hne (hequal.integer_eq hm hinteger)

/-- A filter that asks for null, or for a value of a type that filters have no class for, selects whatever is
null or of such a type. -/
theorem accepts_equal_iff_of_isNullLike (hname : '.' ∉ name.toList) (hnull : operand.isNullLike) :
    (compare name .equal operand).accepts document ↔
      ∃ value, document.get? name = some value ∧
        ∃ candidate ∈ value.candidates, candidate.isNullLike := by
  rw [accepts_equal_dotless_iff hname]
  simp only [Value.alike_right_of_isNullLike hnull]

/-- A timestamp is selected by null. -/
example : (compare "n" .equal .null).accepts [("n", .timestamp 1 2)] := by decide +kernel

end Filter

/-! ## What removals and updates leave alone -/

namespace Store

variable {validator : Validator} {store : Store} {collection : String}

/-- Whether a removal and an update of all documents that meet a filter leave the documents alone that
pass a test. -/
structure LeavesAlone (validator : Validator) (store : Store) (collection : String) (filter : Filter)
    (test : Document → Bool) : Prop where
  /-- After a removal the same documents pass the test, in the same order. -/
  deleted : ((store.command validator collection (.deleteMany filter)).2.documents collection).filter
    test = (store.documents collection).filter test
  /-- After an update, successful or not, each document that passed the test stands where it stood. -/
  updated : ∀ values, List.Forall₂ (fun old new => test old → new = old) (store.documents collection)
    ((store.command validator collection (.updateMany filter values)).2.documents collection)

/-- A removal leaves the documents that do not meet the filter. -/
theorem documents_deleteMany (validator : Validator) (store : Store) (collection : String)
    (filter : Filter) :
    (store.command validator collection (.deleteMany filter)).2.documents collection =
      (store.documents collection).filter fun document => !filter.accepts document :=
  documents_put_self store collection _

/-- The documents that pass a test are left alone when none of them meets the filter. -/
theorem leavesAlone_of_not_accepts {filter : Filter} {test : Document → Bool}
    (h : ∀ document : Document, test document → ¬ filter.accepts document) :
    LeavesAlone validator store collection filter test where
  deleted := by
    rw [documents_deleteMany, List.filter_filter]
    -- A document that passes the test is not removed; the others are filtered out on both sides.
    refine List.filter_congr fun document _ => ?_
    by_cases htest : test document
    · simp [htest, h document htest]
    · simp [htest]
  updated values := by
    cases hresult : (store.command validator collection (.updateMany filter values)).1 with
    | error failure =>
      rw [(command_error hresult).2]
      exact List.forall₂_same.mpr fun _ _ _ => rfl
    | ok outcome =>
      obtain ⟨-, rest, hrest, hall⟩ := updated_of_updateMany hresult
      rw [hrest, documents_put_self]
      refine hall.imp fun old new hbecomes htest => ?_
      rwa [Documents.BecomesBy, if_neg (h old htest)] at hbecomes

end Store

namespace Filter

/-- A document selected by a value, at a name without dots, holds the same value there, unless it holds a
list or repeats a name inside: but for numbers with one nearest double, of `2 ^ 53` and more, and for what
meets as null. Nothing meets as null where the operand has neither a null nor a value of a type that filters
have no class for, nor where neither side has a value of such a type; without large numbers in the operand
the two are then the same. So no removal and no update by an integer below `2 ^ 53` touches a document that
holds another integer. -/
theorem equalUpTo_of_accepts_equal {name : String} (hname : '.' ∉ name.toList) (operand : Value) :
    (∀ (document : Document) (value : Value), document.get? name = some value →
      (∀ items, value ≠ .array items) → value.DistinctNames →
      (compare name .equal operand).accepts document →
        value.EqualUpTo (fun a b => a.SameDouble b ∨ a.MeetAsNull b) operand ∧
          (operand.FreeOfNull ∨ value.IsKnown ∧ operand.IsKnown →
            value.EqualUpTo Value.SameDouble operand ∧
              (operand.FreeOfLarge → value.EqualTo operand))) ∧
      ∀ n, operand.integer? = some n → n.natAbs < Nat.pow 2 53 →
        ∀ validator store collection,
          Store.LeavesAlone validator store collection (compare name .equal operand)
            (Document.holdsOther name n) := by
  constructor
  · intro document value hvalue harray hdistinct haccepts
    have hequal := Value.equalUpTo_of_alike hdistinct
      (alike_of_accepts_equal hname hvalue harray haccepts)
    refine ⟨hequal, fun hnull => ?_⟩
    have hdouble := hequal.of_not_meetAsNull hnull
    exact ⟨hdouble, hdouble.equalTo⟩
  · intro n hinteger hsmall validator store collection
    exact Store.leavesAlone_of_not_accepts fun document hother =>
      not_accepts_equal_of_holdsOther hname hinteger hsmall hother

/-- A store of two documents with numbers. -/
def numbered (first second : Value) : Store :=
  Store.empty.put "notes"
    [[(idField, .int32 1), ("n", first)], [(idField, .int32 2), ("n", second)]]

/-- A document with the double 5 is selected by the integer, and one with a 6 is left alone. -/
theorem equalUpTo_of_accepts_equal_five :
    (Value.double (.ofInt 5)).EqualTo (.int32 5) ∧
      (((numbered (.double (.ofInt 5)) (.int64 6)).command .none "notes"
        (.deleteMany (compare "n" .equal (.int32 5)))).2.documents "notes").filter
          (Document.holdsOther "n" 5) = [[(idField, .int32 2), ("n", .int64 6)]] := by
  have hfive : (Value.int32 5).integer? = some 5 := rfl
  have hdistinct : (Value.double (.ofInt 5)).DistinctNames := .scalar trivial
  have haccepts : (compare "n" .equal (.int32 5)).accepts [("n", .double (.ofInt 5))] := by
    decide +kernel
  have hname : '.' ∉ "n".toList := by decide
  obtain ⟨hselected, halone⟩ := equalUpTo_of_accepts_equal hname (.int32 5)
  have hleft := halone 5 hfive (by decide) .none (numbered (.double (.ofInt 5)) (.int64 6)) "notes"
  have harray : ∀ items, Value.double (.ofInt 5) ≠ .array items := by rintro items ⟨⟩
  have hdouble := (hselected _ _ rfl harray hdistinct haccepts).2
    (Or.inl (Value.freeOfNull_of_integer? hfive))
  exact ⟨hdouble.2 (Value.freeOfLarge_of_integer? hfive (by decide)), hleft.deleted⟩

/-- Of two integers with one nearest double, the filter for one selects a document with the other, and a
removal takes it away. -/
theorem accepts_equal_of_unequal :
    (compare "n" .equal (.int64 9007199254740992)).accepts [("n", .int64 9007199254740993)] ∧
      ¬ (Value.int64 9007199254740993).EqualTo (.int64 9007199254740992) ∧
      ((numbered (.int64 9007199254740993) (.int64 6)).command .none "notes"
        (.deleteMany (compare "n" .equal (.int64 9007199254740992)))).2.documents "notes" =
          [[(idField, .int32 2), ("n", .int64 6)]] := by
  refine ⟨by decide +kernel, fun hequal => ?_, ?_⟩
  · exact absurd (hequal.integer_eq rfl rfl) (by decide)
  · rw [Store.documents_deleteMany, numbered, Store.documents_put_self,
      List.filter_cons_of_neg (by decide +kernel), List.filter_cons_of_pos (by decide +kernel),
      List.filter_nil]

end Filter

end RestArchive
