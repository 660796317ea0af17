import RestArchive.Path.Descent
import RestArchive.Proofs.Resolution

/-! # Locations inside a document

A location is described from the document down: a key of it, a key of the document under that key, or an
element of the array under that key, by an identifier that it is the first one to carry. Written one
behind the other with slashes between, the steps of a location are a path that leads to it
(`parse_of_location`), whatever the keys are, as long as none is read as an identifier or has a slash in
it: a key may be empty, have dots, or look like a placeholder. -/

namespace RestArchive

namespace Value

/-- Whether steps describe the location of a value inside another one: a key leads into a document, and
behind a key an identifier leads to the first element of an array that carries it. -/
inductive Location : Value → List Segment → Value → Prop
  /-- The value itself, by no step at all. -/
  | here (value : Value) : Location value [] value
  /-- Below the value under a key. -/
  | key {members : Document} {name : String} {below target : Value} {rest : List Segment}
      (held : members.get? name = some below) (behind : Location below rest target) :
      Location (.document members) (.field name :: rest) target
  /-- Below an element of the array under a key. -/
  | element {members : Document} {name : String} {before after : List Value} {item target : Value}
      {id : ObjectId} {rest : List Segment}
      (held : members.get? name = some (.array (before ++ item :: after)))
      (first : ∀ other ∈ before, id.namesElement other = false) (named : id.namesElement item)
      (behind : Location item rest target) :
      Location (.document members) (.field name :: .identifier id :: rest) target

variable {value target : Value} {segments : List Segment}

/-- Descent follows the steps of a location to the value there. -/
theorem Location.descend_eq (h : value.Location segments target) :
    value.descend segments = .ok target := by
  induction h with
  | here value => exact descend_nil value
  | key held _ ih =>
    rw [descend_cons, child, held]
    exact ih
  | @element members name before after item target id rest held first named _ ih =>
    have hfind : (before ++ item :: after).find? id.namesElement = some item :=
      List.find?_eq_some_iff_append.mpr ⟨named, before, after, rfl, by simpa using first⟩
    rw [descend_cons, child, held]
    show (Value.array (before ++ item :: after)).descend (.identifier id :: rest) = _
    rw [descend_cons, child, hfind]
    exact ih

/-- A location does not start with an identifier, as the array of the element would have no key. -/
theorem Location.not_identifier_cons {id : ObjectId} {rest : List Segment}
    (h : value.Location segments target) : segments ≠ .identifier id :: rest := by
  rintro rfl
  cases h

/-- Each identifier among the steps of a location directly follows a key. -/
theorem Location.follows (h : value.Location segments target) :
    Address.strayIdentifier? false segments = none := by
  induction h with
  | here value => rfl
  | @key members name below target rest held behind ih =>
    have hrest : ∀ id others, rest ≠ .identifier id :: others :=
      fun _ _ => behind.not_identifier_cons
    rw [Address.strayIdentifier?, Address.strayIdentifier?_of_not_identifier hrest, ih]
  | element held first named behind ih => exact ih

end Value

namespace Segment

/-- The texts that a step of a location may be written as: a key as it is, if this is not read as an
identifier and has no slash; an identifier in hexadecimal digits of either case. -/
inductive WrittenAs : Segment → String → Prop
  /-- A key. -/
  | key {name : String} (plain : ObjectId.isIdText name = false) (whole : '/' ∉ name.toList) :
      WrittenAs (.field name) name
  /-- An identifier. -/
  | identifier {id : ObjectId} {text : String} (lower : text.toLower = id.toHex) :
      WrittenAs (.identifier id) text

variable {segment : Segment} {text : String}

/-- What a step is written as is read as the step. -/
theorem WrittenAs.ofText_eq (h : segment.WrittenAs text) : ofText text = segment := by
  cases h with
  | key plain whole => exact ofText_of_not_isIdText plain
  | identifier lower => rw [ofText, ObjectId.ofHex?_eq_some_iff.mpr lower]

/-- What a step is written as has no slash. -/
theorem WrittenAs.slash_not_mem (h : segment.WrittenAs text) : '/' ∉ text.toList := by
  cases h with
  | key plain whole => exact whole
  | identifier lower =>
    have hid : ObjectId.isIdText text := by
      rw [← ObjectId.isSome_ofHex?, ObjectId.ofHex?_eq_some_iff.mpr lower]
      rfl
    exact ObjectId.not_mem_of_isIdText hid rfl

/-- Steps are read back from the texts that they are written as, none of which has a slash. -/
theorem map_ofText_of_writtenAs {segments : List Segment} {texts : List String}
    (h : List.Forall₂ WrittenAs segments texts) :
    texts.map ofText = segments ∧ ∀ text ∈ texts, '/' ∉ text.toList := by
  induction h with
  | nil => exact ⟨rfl, by simp⟩
  | cons hfirst _ ih =>
    obtain ⟨hread, hslash⟩ := ih
    refine ⟨?_, List.forall_mem_cons.mpr ⟨hfirst.slash_not_mem, hslash⟩⟩
    rw [List.map_cons, hfirst.ofText_eq, hread]

end Segment

namespace Address

/-- One slash in front and one at the end are taken away. -/
theorem pathPieces_between_slashes (text : String) :
    pathPieces ("/" ++ text ++ "/") = Text.split '/' text := by
  have hleading : Text.dropLeading '/' ("/" ++ text ++ "/") = text ++ "/" := by
    rw [String.append_assoc]
    exact Text.dropLeading_singleton_append '/' '/' (text ++ "/")
  have htrailing : Text.dropTrailing '/' (text ++ "/") = text :=
    Text.dropTrailing_append_mark '/' text
  rw [pathPieces, hleading, htrailing]

/-- Every location inside a document is reached by its path. The path of the steps is written with a
slash in front, between them and at the end, behind the text of any identifier; it is accepted, names
exactly the steps, and descent along them ends at the value there. -/
theorem parse_of_location {document : Document} {root : String} {segments : List Segment}
    {texts : List String} {target : Value} (hroot : ObjectId.isIdText root) (hne : segments ≠ [])
    (hlocation : (Value.document document).Location segments target)
    (hwritten : List.Forall₂ Segment.WrittenAs segments texts) :
    parse ("/" ++ root ++ "/" ++ Text.join '/' texts ++ "/") false =
        .ok ⟨some root, segments, false⟩ ∧
      (Value.document document).descend segments = .ok target := by
  refine ⟨?_, hlocation.descend_eq⟩
  obtain ⟨hread, hslash⟩ := Segment.map_ofText_of_writtenAs hwritten
  have htexts : texts ≠ [] := by
    rintro rfl
    cases hwritten
    exact hne rfl
  -- Between the outer slashes stand the root and the steps, joined by slashes that none of them has.
  have hjoined : "/" ++ root ++ "/" ++ Text.join '/' texts ++ "/" =
      "/" ++ Text.join '/' (root :: texts) ++ "/" := by
    rw [← String.toList_inj]
    simp [Text.toList_join_cons '/' root htexts]
  have hpieces : pathPieces ("/" ++ root ++ "/" ++ Text.join '/' texts ++ "/") = root :: texts := by
    rw [hjoined, pathPieces_between_slashes]
    refine Text.split_join (List.cons_ne_nil _ _) (List.forall_mem_cons.mpr ⟨?_, hslash⟩)
    exact ObjectId.not_mem_of_isIdText hroot rfl
  have hnamed : rootOf? (root :: texts) = some root :=
    if_neg fun hnone => htexts (List.tail_eq_of_cons_eq hnone)
  rw [parse_eq, hpieces, List.tail_cons, hread, hlocation.follows, hnamed]

/-- A document with odd keys: one is empty, one has dots and the shape of a placeholder. Its two rows carry
one identifier, the first of them as a text. -/
def oddlyKeyed : Document :=
  [("", .document [("$[a].b", .array [
    .document [(idField, .string "00000000000000000000000c"), ("n", .int32 1)],
    .document [(idField, .objectId (.ofNat 12)), ("n", .int32 2)]])])]

/-- The steps to what the first row holds. -/
def oddSteps : List Segment := [.field "", .field "$[a].b", .identifier (.ofNat 12), .field "n"]

/-- The value in the first row is reached, with the identifiers written in uppercase. -/
theorem parse_of_location_oddlyKeyed :
    ObjectId.isIdText "64F1F1F1F1F1F1F1F1F1F1F1" ∧ oddSteps ≠ [] ∧
      (Value.document oddlyKeyed).Location oddSteps (.int32 1) ∧
      List.Forall₂ Segment.WrittenAs oddSteps ["", "$[a].b", "00000000000000000000000C", "n"] ∧
      parse "/64F1F1F1F1F1F1F1F1F1F1F1//$[a].b/00000000000000000000000C/n/" false =
        .ok ⟨some "64F1F1F1F1F1F1F1F1F1F1F1", oddSteps, false⟩ ∧
      (Value.document oddlyKeyed).descend oddSteps = .ok (.int32 1) := by
  have hroot : ObjectId.isIdText "64F1F1F1F1F1F1F1F1F1F1F1" := by decide
  have hne : oddSteps ≠ [] := by decide
  have hlocation : (Value.document oddlyKeyed).Location oddSteps (.int32 1) := by
    have hnone : ∀ other ∈ ([] : List Value), (ObjectId.ofNat 12).namesElement other = false := by
      simp
    exact .key rfl (.element (by rfl) hnone (by decide) (.key rfl (.here _)))
  have hwritten : List.Forall₂ Segment.WrittenAs oddSteps
      ["", "$[a].b", "00000000000000000000000C", "n"] := by
    have hkey {name : String} (h : ObjectId.isIdText name = false ∧ '/' ∉ name.toList) :
        Segment.WrittenAs (.field name) name := .key h.1 h.2
    have hid : "00000000000000000000000C".toLower = ObjectId.toHex (.ofNat 12) :=
      ObjectId.ofHex?_eq_some_iff.mp (by decide)
    exact .cons (hkey (by decide)) (.cons (hkey (by decide))
      (.cons (.identifier hid) (.cons (hkey (by decide)) .nil)))
  obtain ⟨hparse, hdescend⟩ := parse_of_location hroot hne hlocation hwritten
  exact ⟨hroot, hne, hlocation, hwritten, hparse, hdescend⟩

end Address

end RestArchive
