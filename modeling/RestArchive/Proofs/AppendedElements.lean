import RestArchive.Proofs.Denotation
import RestArchive.Proofs.MergedElements
import RestArchive.Proofs.ReadAfterWrite
import RestArchive.Proofs.Resolution

/-! # Reading back what was appended

An object that is added to an array gets the identifier that it writes, or else the next one drawn, and
stands at the end. Behind the path of the array this identifier leads to the first element that carries
it (`get_of_appended`): that is the new one, unless an element in front has the same identifier already,
which nothing keeps a body from writing (`at_repeatedId`). -/

namespace RestArchive

/-! ## The path of an element -/

namespace Address

/-- The path that leads on from a path by one more piece. -/
def pathBehind (path piece : String) : String := Text.dropTrailing '/' path ++ "/" ++ piece

/-- The address of the elements of an array that carry an identifier, when the address is that of the
array. -/
def toElement (address : Address) (id : ObjectId) : Address :=
  { address with segments := address.segments ++ [.identifier id] }

/-- The path that leads on has one more piece, unless it leads on from the whole collection. -/
theorem pathPieces_pathBehind {path piece : String} (hpath : pathPieces path ≠ [""])
    (hpiece : '/' ∉ piece.toList) (hne : piece ≠ "") :
    pathPieces (pathBehind path piece) = pathPieces path ++ [piece] := by
  have htrimmed : Text.dropTrailing '/' (Text.dropLeading '/' path) ≠ "" := by
    intro hempty
    rw [pathPieces, hempty] at hpath
    exact hpath rfl
  rw [pathPieces, pathBehind, String.append_assoc,
    Text.dropLeading_dropTrailing_append htrimmed, ← String.append_assoc, pathPieces]
  generalize Text.dropTrailing '/' (Text.dropLeading '/' path) = trimmed
  -- The last character is one of the piece, so no slash is taken away behind it.
  have hlast : (trimmed ++ "/" ++ piece).toList.getLast? ≠ some '/' := by
    have hchars : piece.toList ≠ [] := by simpa using hne
    rw [String.toList_append, List.getLast?_append_of_ne_nil _ hchars]
    exact fun hslash => hpiece (List.mem_of_getLast? hslash)
  rw [Text.dropTrailing, if_neg hlast]
  exact (Text.split_append_mark '/' trimmed piece).trans (by rw [Text.split_of_not_mem hpiece])

/-- An identifier behind the name of a field is not stray. -/
theorem strayIdentifier?_append_identifier {segments : List Segment} {name : String}
    {afterField : Bool} (h : strayIdentifier? afterField segments = none)
    (hlast : segments.getLast? = some (.field name)) (id : ObjectId) :
    strayIdentifier? afterField (segments ++ [.identifier id]) = none := by
  induction segments generalizing afterField with
  | nil => cases hlast
  | cons segment rest ih =>
    have hrest : rest ≠ [] → rest.getLast? = some (.field name) := by
      intro hne
      rwa [List.getLast?_cons_of_ne_nil hne] at hlast
    cases segment with
    | field first =>
      by_cases hne : rest = []
      · subst hne
        rfl
      · exact ih h (hrest hne)
    | identifier first =>
      have hne : rest ≠ [] := by
        rintro rfl
        cases hlast
      cases afterField with
      | true => exact ih h (hrest hne)
      | false => cases h

/-- The path of an array leads on to its elements. -/
theorem parse_pathBehind {path : String} {omitsLast : Bool} {address : Address} {name : String}
    (h : parse path omitsLast = .ok address)
    (hlast : address.segments.getLast? = some (.field name)) (id : ObjectId) :
    parse (pathBehind path id.toHex) omitsLast = .ok (address.toElement id) := by
  rw [parse_eq] at h
  split at h
  · cases h
  case h_2 hfollows =>
    obtain rfl := Except.ok.inj h
    obtain ⟨root, rest, hpieces⟩ := List.exists_cons_of_ne_nil (Text.split_ne_nil '/' _)
    change pathPieces path = root :: rest at hpieces
    rw [hpieces, List.tail_cons] at hfollows hlast
    have hrest : rest ≠ [] := by
      rintro rfl
      cases hlast
    have hslash : '/' ∉ id.toHex.toList := ObjectId.not_mem_of_isIdText id.isIdText_toHex rfl
    have hbehind : pathPieces (pathBehind path id.toHex) = root :: (rest ++ [id.toHex]) := by
      rw [pathPieces_pathBehind (by simp [hpieces, hrest]) hslash id.toHex_ne_empty, hpieces,
        List.cons_append]
    have hmore : (rest ++ [id.toHex]).map Segment.ofText =
        rest.map Segment.ofText ++ [.identifier id] := by
      simp
    rw [parse_eq, hbehind, List.tail_cons, hmore,
      strayIdentifier?_append_identifier hfollows hlast id]
    simp [toElement, rootOf?, hpieces, hrest]

end Address

/-! ## The end of an array -/

namespace Value

variable {value : Value} {items : List Value} {segments : List Segment} {id : ObjectId}

/-- What an identifier leads to carries it. -/
theorem namesElement_of_child {below : Value} (h : value.child (.identifier id) = .ok below) :
    id.namesElement below := by
  cases value with
  | array items =>
    rw [child] at h
    split at h
    case h_1 hfind =>
      cases h
      exact List.find?_some hfind
    case h_2 => cases h
  | _ => cases h

/-- Segments that lead to an array end with the name of a field, as an array carries no identifier. -/
theorem exists_getLast?_of_descend_array (hne : segments ≠ [])
    (h : value.descend segments = .ok (.array items)) :
    ∃ name, segments.getLast? = some (.field name) := by
  obtain hnil | ⟨front, last, rfl⟩ := List.eq_nil_or_concat' segments
  · exact absurd hnil hne
  · rw [descend_append] at h
    obtain ⟨below, -, hlast⟩ := bind_eq_ok_iff.mp h
    cases last with
    | field name => exact ⟨name, List.getLast?_concat⟩
    | identifier id =>
      rw [descend_cons] at hlast
      obtain ⟨found, hfound, hitems⟩ := bind_eq_ok_iff.mp hlast
      rw [descend_nil] at hitems
      cases hitems
      cases namesElement_of_child hfound

/-- An identifier behind the segments of an array leads to the first element that carries it. -/
theorem descend_append_identifier {found : Value} (h : value.descend segments = .ok (.array items))
    (hfind : items.find? id.namesElement = some found) :
    value.descend (segments ++ [.identifier id]) = .ok found := by
  rw [descend_append, h]
  show (Value.array items).descend [.identifier id] = .ok found
  rw [descend_cons, child, hfind]
  exact descend_nil found

end Value

/-! ## The identifier of an element -/

namespace Body

/-- The identifier that an object gets as an element of an array: the one that it writes, or else the next
one drawn. -/
def elementId? (supply : IdSupply) (members : List (String × Json)) : Option ObjectId :=
  match Entries.get? members idField with
  | some (.string text) => ObjectId.ofHex? text
  | some _ => none
  | none => some supply.take.1

/-- An object that is read and stamped has that identifier. -/
theorem exists_hasId_of_membersAt {path : Option String} {members : List (String × Json)}
    {stored : Document} (h : membersAt path members = .ok stored) (supply : IdSupply) :
    ∃ id, elementId? supply members = some id ∧ (stored.stamp supply).1.HasId id := by
  rcases hasId_of_membersAt h with ⟨hnone, hstored⟩ | ⟨text, id, hsome, htext, hid⟩
  · exact ⟨supply.take.1, by rw [elementId?, hnone], Document.hasId_stamp_of_none hstored supply⟩
  · exact ⟨id, by rw [elementId?, hsome]; exact htext, hid.stamp supply⟩

end Body

/-! ## Requests inside a document -/

/-- What is read at a place inside a document is the value there. -/
theorem Outcome.replyToRead_eq_ok_iff {address : Address} {found : Option Document} {reply : Reply}
    (hleads : address.isCollection = false) :
    replyToRead address (.document found) = .ok reply ↔ ∃ held value, found = some held ∧
      (Value.document held).descend address.segments = .ok value ∧
      .data 200 value.toJson = reply := by
  cases found with
  | none => simp [replyToRead, hleads]
  | some held => simp [replyToRead, hleads]

namespace Archive

variable {validator : Validator} {collection : String} {archive after : Archive} {address : Address}
  {path : String} {parameters : Entries String} {body : Json} {reply : Reply} {id : ObjectId}

/-- A request to see something is answered only if its parameters can be read. -/
theorem exists_selection_of_handle
    (h : (archive.handle validator collection ⟨.get, path, parameters, body⟩).1 = .ok reply) :
    ∃ selection, Selection.ofParameters parameters = .ok selection := by
  cases hselection : Selection.ofParameters parameters with
  | ok selection => exact ⟨selection, rfl⟩
  | error error =>
    simp only [handle, Request.action, hselection] at h
    cases h

/-- A request to see a place inside a document reads the document, whatever the parameters select, and
changes nothing. -/
theorem handle_place {selection : Selection} (hparse : Address.parse path false = .ok address)
    (hnested : address.isNested) (hleads : address.LeadsTo id)
    (hselection : Selection.ofParameters parameters = .ok selection) :
    archive.handle validator collection ⟨.get, path, parameters, body⟩ =
      (Outcome.replyToRead address (.document ((archive.store.documents collection).get? id)),
        archive) := by
  obtain ⟨text, hroot, hid⟩ := hleads
  simp [handle, Request.action, hselection, Except.map, Action.omitsLast, hparse, act, Action.accessAt,
    hroot, hid, hnested, Action.onPlace, Access.run, Outcome.replyTo]

/-- It is answered with the value there. -/
theorem handle_place_of_descend {selection : Selection} {held : Document} {value : Value}
    (hparse : Address.parse path false = .ok address) (hnested : address.isNested)
    (hleads : address.LeadsTo id) (hselection : Selection.ofParameters parameters = .ok selection)
    (hheld : (archive.store.documents collection).get? id = some held)
    (hvalue : (Value.document held).descend address.segments = .ok value) :
    archive.handle validator collection ⟨.get, path, parameters, body⟩ =
      (.ok (.data 200 value.toJson), archive) := by
  rw [handle_place hparse hnested hleads hselection,
    (Outcome.replyToRead_eq_ok_iff hleads.isCollection_eq).mpr ⟨held, value, hheld, hvalue, rfl⟩]

/-- An object that is posted to a place inside a document is read, stamped as an element and put at the end
of the array there. -/
theorem exists_push_of_handle {members : List (String × Json)}
    (hparse : Address.parse path false = .ok address) (hnested : address.isNested)
    (h : (archive.handle validator collection ⟨.post, path, parameters, .object members⟩).1 =
      .ok reply) :
    ∃ (id : ObjectId) (stored document changed : Document) (before following : List Document),
      address.LeadsTo id ∧ Body.membersAt (some address.fieldPath) members = .ok stored ∧
      archive.store.documents collection = before ++ document :: following ∧
      (archive.handle validator collection
        ⟨.post, path, parameters, .object members⟩).2.store.documents collection =
          before ++ changed :: following ∧
      (∀ other ∈ before, id.names other = false) ∧ id.names document ∧
      ((Terminal.push (.document (stored.stamp archive.supply).1)).updateAt address).apply document =
        .ok changed ∧
      reply = .data 201 changed.toJson := by
  obtain ⟨⟨action, place, access⟩, asked, outcome, rest, hplan, hissues, hperform, hstore, hreply⟩ :=
    exists_command_of_handle (by simp) h
  obtain ⟨haction, haddress, haccess⟩ := Request.plan_eq_ok_iff.mp hplan
  dsimp only at haction haddress haccess hissues hreply
  cases haction
  obtain rfl : address = place := Except.ok.inj (hparse.symm.trans haddress)
  cases Action.becomes_of_accessAt haccess with
  | create whole =>
    rw [Address.isNested_of_parse hparse whole] at hnested
    cases hnested
  | @push _ value id leads nested read =>
    obtain ⟨stored, hstored, rfl⟩ := map_eq_ok_iff.mp (mapError_eq_ok_iff.mp read)
    cases hissues
    obtain ⟨changed, rfl, hupdate⟩ := Command.exists_of_perform_update leads.root_ne_none
      (by simp [Action.verb]) hperform hreply
    obtain ⟨before, document, following, hbefore, rfl, hothers, hnames, happly⟩ :=
      Documents.exists_of_update_some hupdate
    rw [Value.stamp_true_document] at happly
    refine ⟨id, stored, document, changed, before, following, leads, hstored, hbefore, ?_, hothers,
      hnames, happly, ?_⟩
    · rw [hstore, Store.documents_put_self]
    · simpa [Outcome.replyTo, Outcome.replyToAppend, leads.isCollection_eq] using hreply.symm

/-- An object that is posted to an array that can be seen is put at the end of what is seen, with the
identifier that it gets as an element. -/
theorem exists_appended_of_handle {others : Entries String} {shown : List Json}
    {members : List (String × Json)} (hparse : Address.parse path false = .ok address)
    (hnested : address.isNested) (hwell : Segment.WellFormed address.segments)
    (hget : (archive.handle validator collection ⟨.get, path, parameters, body⟩).1 =
      .ok (.data 200 (.array shown)))
    (hpost : archive.handle validator collection ⟨.post, path, others, .object members⟩ =
      (.ok reply, after)) :
    ∃ (root id : ObjectId) (items : List Value) (element changed : Document),
      address.LeadsTo root ∧ shown = Value.itemsToJson items ∧ reply = .data 201 changed.toJson ∧
      (after.store.documents collection).get? root = some changed ∧
      (Value.document changed).descend address.segments =
        .ok (.array (items ++ [.document element])) ∧
      element.HasId id ∧ Body.elementId? archive.supply members = some id := by
  obtain ⟨root, stored, document, changed, before, following, hleads, hstored, hbefore, hafter,
    hothers, hnames, happly, hreply⟩ :=
    exists_push_of_handle hparse hnested (congrArg Prod.fst hpost)
  rw [hpost] at hafter
  have hfirst (here : Document) (hhere : root.names here) :
      Documents.get? root (before ++ here :: following) = some here :=
    List.find?_eq_some_iff_append.mpr ⟨hhere, before, following, rfl, by simpa using hothers⟩
  -- What was seen is read in the document that is changed.
  obtain ⟨selection, hselection⟩ := exists_selection_of_handle hget
  rw [handle_place hparse hnested hleads hselection] at hget
  obtain ⟨held, value, hheld, hvalue, hshown⟩ :=
    (Outcome.replyToRead_eq_ok_iff hleads.isCollection_eq).mp hget
  rw [hbefore, hfirst document hnames] at hheld
  cases hheld
  rw [← Address.retained_of_parse hparse] at hwell hvalue
  obtain ⟨field, result, hresult, hread⟩ := exists_onValue_of_apply_updateAt hwell
    (Terminal.keepsIds_push _ _) hvalue happly
  rw [Address.retained_of_parse hparse] at hread
  cases value with
  | array items =>
    cases hresult
    obtain ⟨id, hgiven, hid⟩ := Body.exists_hasId_of_membersAt hstored archive.supply
    have hsame : shown = Value.itemsToJson items := by
      simpa [Reply.data, Value.toJson] using hshown.symm
    refine ⟨root, id, items, _, changed, hleads, hsame, hreply, ?_, hread, hid, hgiven⟩
    rw [hafter]
    exact hfirst changed (Document.names_of_apply hnames happly)
  | _ => cases hresult

/-- Whatever the archive holds: if an array can be seen at a place inside a document, and an object is
posted there and answered, the array in the document of the answer has the new element behind all that was
seen, and this has the identifier that the object writes, or else the next one drawn. The path of the
array leads on by this identifier. Any path that leads there is answered with the new element if no
element carried the identifier before, and with the first one that did otherwise. -/
theorem get_of_appended {others : Entries String} {shown : List Json}
    {members : List (String × Json)} (hparse : Address.parse path false = .ok address)
    (hne : address.segments ≠ []) (hwell : Segment.WellFormed address.segments)
    (hget : (archive.handle validator collection ⟨.get, path, parameters, body⟩).1 =
      .ok (.data 200 (.array shown)))
    (hpost : archive.handle validator collection ⟨.post, path, others, .object members⟩ =
      (.ok reply, after)) :
    ∃ (items : List Value) (element changed : Document) (id : ObjectId),
      shown = Value.itemsToJson items ∧ reply = .data 201 changed.toJson ∧
      (Value.document changed).descend address.segments =
        .ok (.array (items ++ [.document element])) ∧
      element.HasId id ∧ Body.elementId? archive.supply members = some id ∧
      Address.parse (Address.pathBehind path id.toHex) false = .ok (address.toElement id) ∧
      ∀ next asked, Address.parse next false = .ok (address.toElement id) →
        ((∀ item ∈ items, id.namesElement item = false) →
          after.handle validator collection ⟨.get, next, parameters, asked⟩ =
            (.ok (.data 200 element.toJson), after)) ∧
        ∀ item, items.find? id.namesElement = some item →
          after.handle validator collection ⟨.get, next, parameters, asked⟩ =
            (.ok (.data 200 item.toJson), after) := by
  have hnested : address.isNested := by simpa [Address.isNested] using hne
  obtain ⟨root, id, items, element, changed, hleads, hshown, hreply, hheld, hread, hid, hgiven⟩ :=
    exists_appended_of_handle hparse hnested hwell hget hpost
  obtain ⟨name, hlast⟩ := Value.exists_getLast?_of_descend_array hne hread
  obtain ⟨selection, hselection⟩ := exists_selection_of_handle hget
  refine ⟨items, element, changed, id, hshown, hreply, hread, hid, hgiven,
    Address.parse_pathBehind hparse hlast id, fun next asked hnext => ?_⟩
  -- The first element that carries the identifier is what is seen behind the array.
  have hseen {found : Value}
      (hfind : (items ++ [Value.document element]).find? id.namesElement = some found) :
      after.handle validator collection ⟨.get, next, parameters, asked⟩ =
        (.ok (.data 200 found.toJson), after) := by
    have hbehind : (address.toElement id).LeadsTo root := hleads
    have hdescend : (Value.document changed).descend (address.toElement id).segments = .ok found :=
      Value.descend_append_identifier hread hfind
    exact handle_place_of_descend hnext (by simp [Address.toElement, Address.isNested]) hbehind
      hselection hheld hdescend
  constructor
  · intro hnew
    have hnone : items.find? id.namesElement = none :=
      List.find?_eq_none.mpr (by simpa using hnew)
    have hnamed : id.namesElement (.document element) := hid.names_iff.mpr rfl
    have hfind : (items ++ [Value.document element]).find? id.namesElement =
        some (.document element) := by
      rw [List.find?_append, hnone, Option.none_or, List.find?_cons_of_pos hnamed]
    rw [hseen hfind, Value.toJson, Document.toJson]
  · intro item hitem
    exact hseen (by rw [List.find?_append, hitem, Option.some_or])

/-- The first element of an array. -/
def firstElement : Document := [(idField, .objectId (.ofNat 8))]

/-- A document with the array. -/
def elementHolder : Document :=
  [("items", .array [.document firstElement]), (idField, .objectId (.ofNat 7))]

/-- An archive with the document. -/
def oneElement : Archive := ⟨⟨[("notes", [elementHolder])]⟩, ⟨.ofNat, 9⟩⟩

/-- One request leads there. -/
theorem reached_oneElement : Reached .none "notes" oneElement := by
  have hput : (fromEight.handle .none "notes" putItems).2 = oneElement := by
    rw [handle_of_plan_ok plan_putItems]
    rfl
  rw [← hput]
  exact .step putItems (.start _)

/-- The address of the array. -/
def arrayAddress : Address := ⟨some sevenText, [.field "items"], false⟩

/-- It is in the document. -/
theorem leadsTo_arrayAddress : arrayAddress.LeadsTo (.ofNat 7) := ⟨sevenText, rfl, ofHex?_sevenText⟩

/-- A request to see a place inside the document. -/
def seePlace (place : String) : Request := ⟨.get, sevenText ++ place, [], .object []⟩

/-- The array is seen. -/
theorem handle_seePlace_items :
    oneElement.handle .none "notes" (seePlace "/items") =
      (.ok (.data 200 (.array [firstElement.toJson])), oneElement) := by
  have hselection : Selection.ofParameters [] = .ok ⟨none, none, false⟩ := rfl
  have hitems : Value.toJson (.array [.document firstElement]) = .array [firstElement.toJson] := by
    simp [Value.toJson, Value.itemsToJson, Document.toJson]
  rw [← hitems]
  exact handle_place_of_descend parse_postItem rfl leadsTo_arrayAddress hselection rfl rfl

/-- An empty object that is posted to the array gets the next identifier, and is read back under it. -/
theorem get_of_appended_postItem :
    ∃ reply after, oneElement.handle .none "notes" postItem = (.ok reply, after) ∧
      ∃ (items : List Value) (element changed : Document) (id : ObjectId),
        [firstElement.toJson] = Value.itemsToJson items ∧ reply = .data 201 changed.toJson ∧
        (Value.document changed).descend arrayAddress.segments =
          .ok (.array (items ++ [.document element])) ∧
        element.HasId id ∧ Body.elementId? oneElement.supply [] = some id ∧
        Address.parse (Address.pathBehind (seePlace "/items").path id.toHex) false =
          .ok (arrayAddress.toElement id) ∧
        ∀ next asked, Address.parse next false = .ok (arrayAddress.toElement id) →
          ((∀ item ∈ items, id.namesElement item = false) →
            after.handle .none "notes" ⟨.get, next, [], asked⟩ =
              (.ok (.data 200 element.toJson), after)) ∧
          ∀ item, items.find? id.namesElement = some item →
            after.handle .none "notes" ⟨.get, next, [], asked⟩ =
              (.ok (.data 200 item.toJson), after) := by
  have hparse : Address.parse (seePlace "/items").path false = .ok arrayAddress := parse_postItem
  have hget : (oneElement.handle .none "notes" (seePlace "/items")).1 =
      .ok (.data 200 (.array [firstElement.toJson])) := by
    rw [handle_seePlace_items]
  obtain ⟨reply, hreply⟩ :
      ∃ reply, (oneElement.handle .none "notes" postItem).1 = .ok reply := by
    rw [handle_of_plan_ok plan_postItem]
    exact ⟨_, rfl⟩
  have hpost : oneElement.handle .none "notes" postItem =
      (.ok reply, (oneElement.handle .none "notes" postItem).2) := by
    rw [← hreply]
  exact ⟨reply, _, hpost, get_of_appended hparse (by decide) (by decide) hget hpost⟩

/-- The identifier of the element, and another member. -/
def twinMembers : List (String × Json) :=
  [(idField, .string (ObjectId.toHex (.ofNat 8))), ("n", .integer 2)]

/-- A request to add an object that writes the identifier of the element. -/
def postTwin : Request := ⟨.post, sevenText ++ "/items", [], .object twinMembers⟩

/-- The element that is added. -/
def twinElement : Document := [(idField, .objectId (.ofNat 8)), ("n", .int32 2)]

/-- What the request comes to. -/
theorem plan_postTwin : postTwin.plan = .ok ⟨.append (.object twinMembers), arrayAddress,
    .push (.ofNat 7) "items" (.document twinElement) []⟩ := by
  rw [Request.plan_eq_ok_iff]
  refine ⟨rfl, parse_postItem, ?_⟩
  have hread : Action.valueOf arrayAddress.fieldPath (.object twinMembers) =
      .ok (.document twinElement) := by
    have hid (path : String) : Body.castId path (.string (ObjectId.toHex (.ofNat 8))) =
        .ok (.objectId (.ofNat 8)) := by
      simp [Body.castId]
    have hne : "n" ≠ idField := by decide
    simp only [Action.valueOf, Body.valueAt, twinMembers, Body.membersAt, if_true, if_neg hne, hid]
    rfl
  have hplace : Action.accessAt arrayAddress (.append (.object twinMembers)) =
      (Action.valueOf arrayAddress.fieldPath (.object twinMembers)).bind fun value =>
        .ok (.push (.ofNat 7) arrayAddress.fieldPath value arrayAddress.scopes) := by
    simp only [Action.accessAt, arrayAddress, ofHex?_sevenText]
    rfl
  rw [hplace, hread]
  rfl

/-- The document with both elements. -/
def twinHolder : Document :=
  [("items", .array [.document firstElement, .document twinElement]),
    (idField, .objectId (.ofNat 7))]

/-- The archive with that document. -/
def twoElements : Archive := ⟨⟨[("notes", [twinHolder])]⟩, ⟨.ofNat, 9⟩⟩

/-- An object that writes the identifier of the element is answered as the last element, but it is the
element in front that is read under the identifier. -/
theorem at_repeatedId :
    Reached .none "notes" oneElement ∧
      Address.parse (seePlace "/items").path false = .ok arrayAddress ∧
      (oneElement.handle .none "notes" (seePlace "/items")).1 =
        .ok (.data 200 (.array [firstElement.toJson])) ∧
      oneElement.handle .none "notes" postTwin =
        (.ok (.data 201 twinHolder.toJson), twoElements) ∧
      (Value.document twinHolder).descend arrayAddress.segments =
        .ok (.array [.document firstElement, .document twinElement]) ∧
      twinElement.HasId (.ofNat 8) ∧
      Address.parse (seePlace ("/items/" ++ eightText)).path false =
        .ok (arrayAddress.toElement (.ofNat 8)) ∧
      (twoElements.handle .none "notes" (seePlace ("/items/" ++ eightText))).1 =
        .ok (.data 200 firstElement.toJson) ∧
      firstElement.toJson ≠ twinElement.toJson := by
  have hparse : Address.parse (seePlace ("/items/" ++ eightText)).path false =
      .ok (arrayAddress.toElement (.ofNat 8)) := by
    rw [← toOption_eq_some_iff]
    decide +kernel
  have hselection : Selection.ofParameters [] = .ok ⟨none, none, false⟩ := rfl
  have hbehind : (arrayAddress.toElement (.ofNat 8)).LeadsTo (.ofNat 7) := leadsTo_arrayAddress
  have hheld : (twoElements.store.documents "notes").get? (.ofNat 7) = some twinHolder := rfl
  have hfirst : (Value.document twinHolder).descend (arrayAddress.toElement (.ofNat 8)).segments =
      .ok (.document firstElement) := rfl
  have hseen : twoElements.handle .none "notes" (seePlace ("/items/" ++ eightText)) =
      (.ok (.data 200 (Value.toJson (.document firstElement))), twoElements) :=
    handle_place_of_descend hparse rfl hbehind hselection hheld hfirst
  refine ⟨reached_oneElement, parse_postItem, ?_, ?_, rfl, rfl, hparse, ?_, ?_⟩
  · rw [handle_seePlace_items]
  · rw [handle_of_plan_ok plan_postTwin]
    rfl
  · rw [hseen, Value.toJson, Document.toJson]
  · simp [firstElement, twinElement, Document.toJson, Value.membersToJson]

end Archive

end RestArchive
