import RestArchive.Proofs.EqualValues
import RestArchive.Proofs.ReadAfterWrite

/-! # Paths of field names

Four ways lead along names of fields: the descent of a request, the dotted path of a filter, that of a
projection, and that of an update. The first three lead to the same value, or to none
(`Value.reach_of_within?`, `Document.valueAt?_eq_within?`), and the fourth one puts a value where they
find it (`Terminal.within?_along_set`), whatever the document was. -/

namespace RestArchive

namespace Value

/-- The value that names lead to, through documents only. -/
def within? (value : Value) (names : List String) : Option Value :=
  value.look? (names.map .field)

@[simp] theorem within?_nil (value : Value) : value.within? [] = some value := look?_nil value

@[simp] theorem within?_document_cons (members : Document) (name : String) (rest : List String) :
    (Value.document members).within? (name :: rest) =
      (members.get? name).bind fun below => below.within? rest :=
  look?_document_field members name (rest.map .field)

/-- No name leads into a value that is no document. -/
theorem within?_cons_of_ne_document {value : Value} (h : ∀ members, value ≠ .document members)
    (name : String) (rest : List String) : value.within? (name :: rest) = none := by
  cases value with
  | document members => exact absurd rfl (h members)
  | _ => rw [within?, List.map_cons, look?_cons]; rfl

/-- What names lead to is what a descent along them gives. -/
theorem within?_eq_some_iff {value below : Value} {names : List String} :
    value.within? names = some below ↔ value.descend (names.map .field) = .ok below :=
  look?_eq_some_iff

/-- Where a descent leads along names, and no array is on the way, the path of a filter leads too, and
nowhere else. -/
theorem reach_of_within? {value below : Value} {names : List String}
    (h : value.within? names = some below) : value.reach names = [below] := by
  induction names generalizing value with
  | nil =>
    rw [within?_nil, Option.some_inj] at h
    subst h
    cases value <;> rfl
  | cons name rest ih =>
    cases value with
    | document members =>
      rw [within?_document_cons, Option.bind_eq_some_iff] at h
      obtain ⟨member, hmember, hbelow⟩ := h
      simp only [reach, hmember]
      exact ih hbelow
    | _ =>
      -- The path of a filter could go on in an array, but the descent cannot.
      rw [within?_cons_of_ne_document (by rintro _ ⟨⟩)] at h
      cases h

/-- A comparison looks at the value itself. -/
theorem mem_candidates_self (value : Value) : value ∈ value.candidates := by
  cases value <;> exact List.mem_cons_self

end Value

/-- The path of a projection leads where a descent along its tokens leads. -/
theorem Document.valueAt?_eq_within? (document : Document) {names : List String} (hne : names ≠ []) :
    document.valueAt? names = (Value.document document).within? names := by
  induction names generalizing document with
  | nil => exact absurd rfl hne
  | cons name rest ih =>
    rw [Value.within?_document_cons]
    cases rest with
    | nil =>
      cases hmember : document.get? name <;> simp [valueAt?, hmember]
    | cons next others =>
      cases hmember : document.get? name with
      | none => simp [valueAt?, hmember]
      | some member =>
        cases member with
        | document members => simpa [valueAt?, hmember] using ih members (List.cons_ne_nil _ _)
        | _ =>
          rw [Option.bind_some, Value.within?_cons_of_ne_document (by rintro _ ⟨⟩)]
          simp [valueAt?, hmember]

/-- A value that was put along names is where they lead then. -/
theorem Terminal.within?_along_set {names : List String} (hne : names ≠ []) {value : Value}
    {document changed : Document}
    (h : (Terminal.set value).along document (names.map .field) = .ok changed) :
    (Value.document changed).within? names = some value := by
  induction names generalizing document changed with
  | nil => exact absurd rfl hne
  | cons name rest ih =>
    obtain ⟨result, hresult, -, hget⟩ := along_cons_ok h
    rw [Step.member] at hresult hget
    rw [Value.within?_document_cons, hget]
    by_cases hrest : rest = []
    · subst hrest
      cases hresult
      exact Value.within?_nil value
    · -- The document under the name is there or is made, and the value is put into it.
      have hsteps : rest.map Step.field ≠ [] := by simpa using hrest
      obtain ⟨members, inner, -, hinner, hentered⟩ := onMember_field hsteps hresult
      have hsegments : rest.map Segment.field ≠ [] := by simpa using hrest
      exact (Value.look?_of_entered hentered hsegments).trans (ih hrest hinner)

/-- Without scopes, a token is read as the name that it is, or not at all. -/
theorem Step.eq_field_of_ofToken_nil {path token : String} {step : Step}
    (h : ofToken [] path token = .ok step) : step = .field token := by
  rw [ofToken] at h
  split at h
  case h_1 =>
    cases h
    rfl
  case h_2 => cases h

/-- Without scopes, tokens are read as the names that they are, or not at all. -/
theorem Step.eq_map_field_of_ofTokens_nil {path : String} {tokens : List String} {steps : List Step}
    (h : ofTokens [] path tokens = .ok steps) : steps = tokens.map .field := by
  induction steps generalizing tokens with
  | nil => rw [eq_nil_of_ofTokens_eq_nil h, List.map_nil]
  | cons step steps ih =>
    obtain ⟨token, others, rfl, htoken, hothers⟩ := exists_of_ofTokens_eq_cons h
    rw [eq_field_of_ofToken_nil htoken, ih hothers, List.map_cons]

namespace Document

/-- A value that was put at a dotted path is where its tokens lead then. -/
theorem within?_of_setAll {names : List String} (hne : names ≠ [])
    (hdotless : ∀ name ∈ names, '.' ∉ name.toList) {value : Value} {document changed : Document}
    (h : document.setAll [] [(Text.join '.' names, value)] = .ok changed) :
    (Value.document changed).within? names = some value := by
  simp only [setAll, bind_eq_ok_iff] at h
  obtain ⟨_, hset, ⟨⟩⟩ := h
  obtain ⟨steps, hparse, halong⟩ := bind_eq_ok_iff.mp (atPath_of_setAt hset)
  rw [Step.parse] at hparse
  split at hparse
  · cases hparse
  · rw [Text.split_join hne hdotless] at hparse
    rw [Step.eq_map_field_of_ofTokens_nil hparse] at halong
    exact Terminal.within?_along_set hne halong

/-- The paths of filters and of projections lead where names without dots lead, if these lead anywhere. -/
theorem resolve_and_lookup?_of_within? {names : List String} (hne : names ≠ [])
    (hdotless : ∀ name ∈ names, '.' ∉ name.toList) {document : Document} {value : Value}
    (h : (Value.document document).within? names = some value) :
    document.resolve (Text.join '.' names) = [value] ∧
      document.lookup? (Text.join '.' names) = some value := by
  rw [resolve, lookup?, Text.split_join hne hdotless, valueAt?_eq_within? document hne]
  exact ⟨Value.reach_of_within? h, h⟩

/-- A document meets the filters that ask whether there is a value at a path, and whether it is equal to
the one that is there, when there is one value, of distinct names and without a NaN. -/
theorem accepts_of_resolve {path : String} {document : Document} {value : Value}
    (h : document.resolve path = [value]) : (Filter.present path true).accepts document ∧
      (value.DistinctNames → value.FreeOfNaN →
        (Filter.compare path .equal value).accepts document) := by
  refine ⟨by simp [Filter.accepts, h], fun hdistinct hnan => ?_⟩
  have halike := Value.alike_self hdistinct hnan
  rw [Filter.accepts, Comparison.holdsAt, anyAt, h, List.any_cons, List.any_nil, Bool.or_false]
  exact List.any_eq_true.mpr ⟨value, value.mem_candidates_self, halike⟩

/-- Names of fields without dots lead to one place, however they are written. When a descent along them
gives a value, the path of a filter leads to that value and to no other, and the path of a projection leads
to it; and this leads nowhere exactly when the descent fails. A value that was put at the path, whatever the
document was, is where all three lead then, and the document meets the filters for a value there and for
that value, if there is no NaN in it. -/
theorem paths_agree {names : List String} (hne : names ≠ [])
    (hdotless : ∀ name ∈ names, '.' ∉ name.toList) (document : Document) :
    (∀ value, (Value.document document).descend (names.map .field) = .ok value →
      document.resolve (Text.join '.' names) = [value] ∧
        document.lookup? (Text.join '.' names) = some value) ∧
    (document.lookup? (Text.join '.' names) = none ↔
      ∃ failure, (Value.document document).descend (names.map .field) = .error failure) ∧
    ∀ value changed, document.setAll [] [(Text.join '.' names, value)] = .ok changed →
      (Value.document changed).descend (names.map .field) = .ok value ∧
        changed.resolve (Text.join '.' names) = [value] ∧
        changed.lookup? (Text.join '.' names) = some value ∧
        (Filter.present (Text.join '.' names) true).accepts changed ∧
        (value.DistinctNames → value.FreeOfNaN →
          (Filter.compare (Text.join '.' names) .equal value).accepts changed) := by
  refine ⟨fun value hvalue => ?_, ?_, fun value changed hset => ?_⟩
  · exact resolve_and_lookup?_of_within? hne hdotless (Value.within?_eq_some_iff.mpr hvalue)
  · rw [lookup?, Text.split_join hne hdotless, valueAt?_eq_within? document hne, Value.within?,
      Value.look?]
    cases (Value.document document).descend (names.map .field) <;> simp [Except.toOption]
  · have hwithin := within?_of_setAll hne hdotless hset
    obtain ⟨hresolve, hlookup⟩ := resolve_and_lookup?_of_within? hne hdotless hwithin
    obtain ⟨hpresent, hequal⟩ := accepts_of_resolve hresolve
    exact ⟨Value.within?_eq_some_iff.mp hwithin, hresolve, hlookup, hpresent, hequal⟩

/-- A document with a list and a document in it. -/
def nested (value : Value) : Document :=
  [("list", .array [.document [("n", .int32 1)]]), ("inner", .document [("n", value)])]

/-- In the inner document a number is found and replaced by a text; no name leads into the list. -/
theorem paths_agree_nested :
    (nested (.int32 1)).resolve "inner.n" = [.int32 1] ∧
      (nested (.int32 1)).lookup? "list.n" = none ∧
      (nested (.int32 1)).setAll [] [("inner.n", .string "t")] = .ok (nested (.string "t")) ∧
      (Filter.compare "inner.n" .equal (.string "t")).accepts (nested (.string "t")) := by
  have hinner : ∀ name ∈ ["inner", "n"], '.' ∉ name.toList := by decide
  have hlist : ∀ name ∈ ["list", "n"], '.' ∉ name.toList := by decide
  obtain ⟨hreads, -, hputs⟩ := paths_agree (List.cons_ne_nil _ _) hinner (nested (.int32 1))
  obtain ⟨-, hfails, -⟩ := paths_agree (List.cons_ne_nil _ _) hlist (nested (.int32 1))
  have hset : (nested (.int32 1)).setAll [] [("inner.n", .string "t")] = .ok (nested (.string "t")) :=
    rfl
  obtain ⟨-, -, -, -, hequal⟩ := hputs (.string "t") _ hset
  have hdistinct : (Value.string "t").DistinctNames := .scalar trivial
  have hnan : (Value.string "t").FreeOfNaN := by
    refine (Value.throughout_iff_of_isPlain ?_).mpr ?_
    · trivial
    · rintro ⟨⟩
  exact ⟨(hreads _ rfl).1, hfails.mpr ⟨_, rfl⟩, hset, hequal hdistinct hnan⟩

end Document

end RestArchive
