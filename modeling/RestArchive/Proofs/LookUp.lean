import Mathlib.Data.List.Find
import RestArchive.Proofs.Denotation

/-! # Looking a document up by its identifier

A document that is fetched as it is stored is the first one that carries the identifier, as an
identifier or as a text that writes it. One that a projection shows is the first one that meets the
filter for the identifier, and a filter knows no texts for identifiers, but it looks into arrays. So a
text or an array in the identifier field can disguise the document for one of the two
(`fetch_disguised`). As long as no addition disguises a document, a fetch with a projection finds what
the fetch without one finds, and shows of it what the projection shows
(`fetch_projection_of_reachedBy`). -/

namespace RestArchive

namespace Value

/-- A filter takes nothing but an identifier for an identifier. -/
theorem alike_objectId_iff {value : Value} {id : ObjectId} :
    value.alike (.objectId id) ↔ value = .objectId id := by
  cases value <;> simp [alike, magnitude?, isNullLike]

/-- Whether a value in an identifier field can stand for an identifier in only one of two ways: a text
that writes it, which no filter takes for it, or an array, which may come to hold it. -/
def Disguises (id : ObjectId) : Value → Prop
  | .string text => ObjectId.ofHex? text = some id
  | .array _ => True
  | _ => False

/-- Whether a value disguises an identifier can be read off its outline. -/
theorem disguises_outline {id : ObjectId} {value : Value} :
    value.outline.Disguises id ↔ value.Disguises id := by
  cases value <;> rfl

/-- A value that is no disguise stands for an identifier when it is that identifier. -/
theorem denotedBy_iff_of_not_disguises {id : ObjectId} {value : Value}
    (h : ¬ value.Disguises id) : id.denotedBy value ↔ value = .objectId id := by
  cases value with
  | string text => simpa [ObjectId.denotedBy, Disguises] using h
  | _ => simp [ObjectId.denotedBy]

/-- Some candidate of a value that is no disguise is an identifier when the value is that. -/
theorem any_candidates_iff_of_not_disguises {id : ObjectId} {value : Value}
    (h : ¬ value.Disguises id) :
    (value.candidates.any fun candidate => candidate.alike (.objectId id)) ↔
      value = .objectId id := by
  cases value with
  | array items => exact absurd trivial h
  | _ => simp [candidates, alike_objectId_iff]

end Value

namespace Document

variable {document : Document} {id : ObjectId}

/-- The filter for an identifier looks at what stands in the identifier field. -/
theorem accepts_ofId_iff : (Filter.ofId id).accepts document ↔
    ∃ value, document.get? idField = some value ∧
      value.candidates.any fun candidate => candidate.alike (.objectId id) := by
  rw [Filter.ofId, Filter.accepts, Comparison.holdsAt, anyAt, resolve_idField, List.any_eq_true]
  simp only [Option.mem_toList]

/-- A document that is not disguised meets the filter for an identifier when it carries that. -/
theorem accepts_ofId_eq_names (h : ∀ value, document.get? idField = some value →
    ¬ value.Disguises id) : (Filter.ofId id).accepts document = id.names document := by
  rw [Bool.eq_iff_iff, accepts_ofId_iff]
  cases hvalue : document.get? idField with
  | none => simp [ObjectId.names, hvalue]
  | some value =>
    have hplain := h value hvalue
    simp only [ObjectId.names, hvalue, Option.some_inj, exists_eq_left',
      Value.any_candidates_iff_of_not_disguises hplain,
      Value.denotedBy_iff_of_not_disguises hplain]

end Document

namespace Documents

variable {documents : Documents} {id : ObjectId}

/-- To see one document that meets a filter is to see the first one. -/
theorem head?_find_one (filter : Filter) (projection : Projection) (documents : Documents) :
    (documents.find (some filter) (some projection) (some 1)).head? =
      (List.find? (fun document => filter.accepts document) documents).map projection.apply := by
  simp [find, List.head?_take]

/-- Among documents that are not disguised, the first one that meets the filter for an identifier is
the first one that carries it. -/
theorem find?_ofId_eq_get? (h : documents.KeyedBy fun key => ¬ key.Disguises id) :
    List.find? (fun document => (Filter.ofId id).accepts document) documents =
      documents.get? id := by
  refine List.find?_congr fun document hmem => Document.accepts_ofId_eq_names ?_
  intro value hvalue hdisguises
  obtain ⟨key, hkey, hplain⟩ := h document hmem
  rw [Document.key?, hvalue, Option.map_some, Option.some_inj] at hkey
  subst hkey
  exact hplain (Value.disguises_outline.mpr hdisguises)

end Documents

namespace Command

/-- Whether a command adds a document whose identifier field disguises an identifier. -/
def Disguises (id : ObjectId) : Command → Prop
  | .insert document => ∃ value, document.get? idField = some value ∧ value.Disguises id
  | _ => False

end Command

namespace Access

variable {validator : Validator} {collection : String} {archive : Archive} {id : ObjectId}

/-- Among documents that are not disguised, a fetch with a projection shows what the projection shows of
the document that the fetch without one finds, and finds none where that finds none. -/
theorem fetch_projection_of_keyedBy
    (h : (archive.store.documents collection).KeyedBy fun key => ¬ key.Disguises id)
    (projection : Projection) (path : List Segment) :
    ∃ found, (fetch id none path).run validator collection archive =
        (.ok (.document found), archive) ∧
      (fetch id (some projection) path).run validator collection archive =
        (.ok (.document (found.map projection.apply)), archive) := by
  refine ⟨(archive.store.documents collection).get? id, rfl, ?_⟩
  rw [run, Documents.head?_find_one, Documents.find?_ofId_eq_get? h]

end Access

namespace Archive

/-- Whatever was asked of a store, from one without documents, and whether it succeeded or failed: if no
addition that succeeded disguised an identifier, a fetch of it with a projection shows what the
projection shows of the document that the fetch without one finds, and finds none where that finds
none. -/
theorem fetch_projection_of_reachedBy {validator : Validator} {archive : Archive} {id : ObjectId}
    (h : Store.ReachedBy (fun _ asked => ¬ asked.Disguises id) validator archive.store)
    (collection : String) (projection : Projection) (path : List Segment) :
    ∃ found, (Access.fetch id none path).run validator collection archive =
        (.ok (.document found), archive) ∧
      (Access.fetch id (some projection) path).run validator collection archive =
        (.ok (.document (found.map projection.apply)), archive) := by
  refine Access.fetch_projection_of_keyedBy ?_ projection path
  refine h.induction (fun _ documents => documents.KeyedBy fun key => ¬ key.Disguises id)
    (fun _ _ hnone => absurd hnone List.not_mem_nil) ?_ collection
  intro name documents asked outcome rest hkeyed hallowed hperform
  refine Command.keyedBy_of_perform hkeyed (fun _ => not_false) ?_ hperform
  rintro document value rfl hvalue hdisguises
  exact hallowed ⟨value, hvalue, Value.disguises_outline.mp hdisguises⟩

/-- A document under a text that writes an identifier, and one under a value. -/
def filed (value : Value) : Archive :=
  let text : Value := .string (ObjectId.ofNat 8).toHex
  let first := (Store.empty.command .none "notes" (.insert [(idField, text)])).2
  let second := first.command .none "notes"
    (.insert [(idField, value), ("n", .int32 1), ("m", .int32 2)])
  ⟨second.2, .countingFrom 1⟩

/-- A projection that shows one field and the identifier. -/
def onlyNumber : Projection := ⟨[("n", true)]⟩

/-- The text writes one identifier, and the document under another one is found in both ways. -/
theorem fetch_projection_of_reachedBy_filed :
    (Access.fetch (.ofNat 7) (some onlyNumber) []).run .none "notes" (filed (.objectId (.ofNat 7))) =
      (.ok (.document (some [(idField, .objectId (.ofNat 7)), ("n", .int32 1)])),
        filed (.objectId (.ofNat 7))) := by
  have hreached : Store.ReachedBy (fun _ asked => ¬ asked.Disguises (.ofNat 7)) .none
      (filed (.objectId (.ofNat 7))).store := by
    refine .step "notes" _ (.step "notes" _ .start ?_) ?_
    · rintro - - ⟨value, hvalue, hdisguises⟩
      cases hvalue
      have hwrites : ObjectId.ofHex? (ObjectId.ofNat 8).toHex = some (.ofNat 7) := hdisguises
      rw [ObjectId.ofHex?_toHex] at hwrites
      exact absurd hwrites (by decide)
    · rintro - - ⟨value, hvalue, hdisguises⟩
      cases hvalue
      exact hdisguises
  obtain ⟨found, hplain, hshown⟩ := fetch_projection_of_reachedBy hreached "notes" onlyNumber []
  cases hplain
  exact hshown

/-- A text that writes the identifier disguises the document for the fetch with a projection, and an
array that holds it disguises the document for the fetch without one. -/
theorem fetch_disguised :
    (Store.Reached .none (filed (.string (ObjectId.ofNat 7).toHex)).store ∧
        ((Access.fetch (.ofNat 7) none []).run .none "notes"
            (filed (.string (ObjectId.ofNat 7).toHex))).1 =
          .ok (.document (some [(idField, .string (ObjectId.ofNat 7).toHex), ("n", .int32 1),
            ("m", .int32 2)])) ∧
        ((Access.fetch (.ofNat 7) (some onlyNumber) []).run .none "notes"
            (filed (.string (ObjectId.ofNat 7).toHex))).1 = .ok (.document none)) ∧
      Store.Reached .none (filed (.array [.objectId (.ofNat 7)])).store ∧
        ((Access.fetch (.ofNat 7) none []).run .none "notes"
            (filed (.array [.objectId (.ofNat 7)]))).1 = .ok (.document none) ∧
        ((Access.fetch (.ofNat 7) (some onlyNumber) []).run .none "notes"
            (filed (.array [.objectId (.ofNat 7)]))).1 =
          .ok (.document (some [(idField, .array [.objectId (.ofNat 7)]), ("n", .int32 1)])) := by
  refine ⟨⟨?_, by rfl, by rfl⟩, ?_, by rfl, by rfl⟩
  · exact .step "notes" _ (.step "notes" _ .start)
  · exact .step "notes" _ (.step "notes" _ .start)

end Archive

end RestArchive
