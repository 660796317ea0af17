import RestArchive.Proofs.LawfulLibrary
import RestArchive.Proofs.PercentEncoding

/-! # Where collections are mounted

A name is spelled in a path with percent signs or without. Each spelling of the name of a collection, with
a slash behind it or not, takes a route to the collection as a whole: what is answered, and what becomes
of the archive, is what the collection makes of the method, the query string and the body
(`respond_mounted`). Without the slash, two spellings are taken: the health check has the path
`/health`, and `/` takes no route (`respond_takenPaths`). Every other name has a spelling that is free.
All of this holds on top of every HTTP library that keeps the laws of `HttpLibrary.Lawful`. -/

namespace RestArchive

/-- Whether a text in a path spells the name of a collection: it is a whole segment, and stands for the
name. -/
structure SpellsName (written name : String) : Prop where
  /-- No character ends the segment, or the path. -/
  inSegment : ∀ c ∈ written.toList, c ≠ '/' ∧ c ≠ '?' ∧ c ≠ '#'
  /-- The text stands for the name. -/
  decoded : Text.percentDecoded? written = some name

/-- A name with all its bytes percent-encoded spells it. -/
theorem spellsName_percentEncoded (name : String) : SpellsName (Text.percentEncoded name) name where
  inSegment c hc := by
    have hdigit : ∀ n < 16, Nat.digitChar n ≠ '/' ∧ Nat.digitChar n ≠ '?' ∧ Nat.digitChar n ≠ '#' := by
      decide
    rcases Text.mem_percentEncoded hc with rfl | ⟨n, hn, rfl⟩
    · decide
    · exact hdigit n hn
  decoded := Text.percentDecoded?_percentEncoded name

/-! ## Which route a path takes -/

namespace PatternPart

variable {parts : List PatternPart} {segments : List String} {values : Entries String}

/-- A pattern without parts matches no segments. -/
@[simp] theorem matches_nil_iff : Matches [] segments values ↔ segments = [] ∧ values = [] := by
  constructor
  · rintro ⟨⟩
    exact ⟨rfl, rfl⟩
  · rintro ⟨rfl, rfl⟩
    exact .nil

/-- A text in a pattern matches itself in front. -/
@[simp] theorem matches_literal_iff {text : String} : Matches (.literal text :: parts) segments values ↔
    ∃ behind, segments = text :: behind ∧ Matches parts behind values := by
  constructor
  · rintro (_ | ⟨_, hbehind⟩)
    exact ⟨_, rfl, hbehind⟩
  · rintro ⟨behind, rfl, hbehind⟩
    exact .literal text hbehind

/-- A parameter in a pattern takes the segment in front. -/
@[simp] theorem matches_parameter_iff {name : String} :
    Matches (.parameter name :: parts) segments values ↔
      ∃ segment behind others, segments = segment :: behind ∧ values = (name, segment) :: others ∧
        ¬ (segment = "" ∧ behind = []) ∧ Matches parts behind others := by
  constructor
  · rintro (_ | _ | ⟨_, segment, hne, hbehind⟩)
    exact ⟨segment, _, _, rfl, rfl, hne, hbehind⟩
  · rintro ⟨segment, behind, others, rfl, rfl, hne, hbehind⟩
    exact .parameter name segment hne hbehind

/-- The rest of a path takes all segments. -/
@[simp] theorem matches_rest_iff {name : String} : Matches [.rest name] segments values ↔
    Text.join '/' segments ≠ "" ∧ values = [(name, Text.join '/' segments)] := by
  constructor
  · rintro (_ | _ | _ | ⟨_, hne⟩)
    exact ⟨hne, rfl⟩
  · rintro ⟨hne, rfl⟩
    exact .rest name hne

end PatternPart

namespace Route

variable {route : Route} {values : Entries String} {written : String}

/-- A route matches a path when its pattern matches what stands behind the first slash. -/
theorem matches_slash_iff {below : String} : route.Matches ("/" ++ below) values ↔
    PatternPart.Matches route.pattern (Text.split '/' below) values := by
  constructor
  · rintro ⟨_, hpath, hmatches⟩
    rwa [(String.append_right_inj "/").mp hpath]
  · exact fun hmatches => ⟨below, rfl, hmatches⟩

/-- A segment with a slash behind it is matched by one route, with the segment as the collection. -/
theorem matches_all_slash_iff (h : '/' ∉ written.toList) (hroute : route ∈ all) :
    route.Matches ("/" ++ (written ++ "/")) values ↔
      route = collectionSlash ∧ values = [(collectionParameter, written)] := by
  have hsplit : Text.split '/' (written ++ "/") = [written, ""] := by
    have hboth := Text.split_append_mark '/' written ""
    rwa [Text.split_of_not_mem h, String.append_empty] at hboth
  rw [matches_slash_iff, hsplit]
  simp only [all, List.mem_cons, List.not_mem_nil, or_false] at hroute
  rcases hroute with rfl | rfl | rfl | rfl
  · simp [health, collectionSlash]
  · simp [collection, collectionSlash]
  · simp [collectionSlash]
  · simp [below, collectionSlash, Text.join]

/-- A segment alone is matched by the route of the health check, if it is that one, and by one route with the
segment as the collection, unless it is empty. -/
theorem matches_all_bare_iff (h : '/' ∉ written.toList) (hroute : route ∈ all) :
    route.Matches ("/" ++ written) values ↔
      route = health ∧ written = "health" ∧ values = [] ∨
        route = collection ∧ written ≠ "" ∧ values = [(collectionParameter, written)] := by
  rw [matches_slash_iff, Text.split_of_not_mem h]
  simp only [all, List.mem_cons, List.not_mem_nil, or_false] at hroute
  rcases hroute with rfl | rfl | rfl | rfl
  · simp [health, collection]
  · simp [health, collection, and_comm]
  · simp [health, collection, collectionSlash]
  · simp [health, collection, below, Text.join, Text.joined]

end Route

namespace HttpLibrary.Lawful

variable {library : HttpLibrary} {routes : List Route} {path written : String} {route : Route}
  {values : Entries String}

/-- A path that matches with one route only, in one way, takes that route. -/
theorem route?_eq_some (h : library.Lawful) (hroute : route ∈ routes)
    (hmatches : route.Matches path values)
    (honly : ∀ other ∈ routes, ∀ others, other.Matches path others → other = route ∧ others = values) :
    library.route? routes path = some (route, values) := by
  obtain ⟨⟨taken, others⟩, htaken⟩ := Option.ne_none_iff_exists'.mp (h.route?_ne_none hroute hmatches)
  obtain ⟨hmem, htakenMatches⟩ := h.matches_of_route? htaken
  obtain ⟨rfl, rfl⟩ := honly taken hmem others htakenMatches
  exact htaken

/-- A segment with a slash behind it takes the route with a slash at its end. -/
theorem route?_slash (h : library.Lawful) (hwritten : '/' ∉ written.toList) :
    library.route? Route.all ("/" ++ (written ++ "/")) =
      some (.collectionSlash, [(Route.collectionParameter, written)]) := by
  have hmem : Route.collectionSlash ∈ Route.all := by simp [Route.all]
  refine h.route?_eq_some hmem ((Route.matches_all_slash_iff hwritten hmem).mpr ⟨rfl, rfl⟩) ?_
  exact fun other hother others => (Route.matches_all_slash_iff hwritten hother).mp

/-- A segment alone takes the route without it, unless it is empty or the path of the health check. -/
theorem route?_bare (h : library.Lawful) (hwritten : '/' ∉ written.toList) (hhealth : written ≠ "health")
    (hne : written ≠ "") : library.route? Route.all ("/" ++ written) =
      some (.collection, [(Route.collectionParameter, written)]) := by
  have hmem : Route.collection ∈ Route.all := by simp [Route.all]
  refine h.route?_eq_some hmem
    ((Route.matches_all_bare_iff hwritten hmem).mpr (Or.inr ⟨rfl, hne, rfl⟩)) ?_
  intro other hother others hmatches
  rcases (Route.matches_all_bare_iff hwritten hother).mp hmatches with hcheck | ⟨rfl, -, rfl⟩
  · exact absurd hcheck.2.1 hhealth
  · exact ⟨rfl, rfl⟩

/-- The path of the health check takes its route, for the other one that matches has a parameter. -/
theorem route?_health (h : library.Lawful) :
    library.route? Route.all "/health" = some (.health, []) := by
  have hsegment : '/' ∉ "health".toList := by decide
  have hpath : "/health" = "/" ++ "health" := rfl
  have hmem : Route.health ∈ Route.all := by simp [Route.all]
  have hmatches : Route.health.Matches "/health" [] :=
    (Route.matches_all_bare_iff hsegment hmem).mpr (Or.inl ⟨rfl, rfl, rfl⟩)
  obtain ⟨⟨taken, others⟩, htaken⟩ := Option.ne_none_iff_exists'.mp (h.route?_ne_none hmem hmatches)
  obtain ⟨htakenMem, htakenMatches⟩ := h.matches_of_route? htaken
  rw [hpath] at htakenMatches
  rcases (Route.matches_all_bare_iff hsegment htakenMem).mp htakenMatches with
    ⟨rfl, -, rfl⟩ | ⟨rfl, -, rfl⟩
  · exact htaken
  · exact absurd (h.static_first hmem rfl hmatches htaken) (by decide)

/-- The path without a segment takes no route. -/
theorem route?_root (h : library.Lawful) : library.route? Route.all "/" = none := by
  by_contra hsome
  obtain ⟨⟨taken, others⟩, htaken⟩ := Option.ne_none_iff_exists'.mp hsome
  obtain ⟨hmem, hmatches⟩ := h.matches_of_route? htaken
  have hpath : "/" = "/" ++ "" := rfl
  rw [hpath] at hmatches
  rcases (Route.matches_all_bare_iff (by simp) hmem).mp hmatches with ⟨-, hempty, -⟩ | ⟨-, hne, -⟩
  · exact absurd hempty (by decide)
  · exact hne rfl

end HttpLibrary.Lawful

/-! ## What is answered -/

namespace Router

/-- What the collection of a name makes of a method, the parameters of a query string and a body, as a whole,
or why it is not asked. -/
def ask (validator : Validator) (archive : Archive) (name method : String)
    (query : Except String (Entries String)) (body : List UInt8) :
    Except RequestError Reply × Archive :=
  match Verb.ofText? method, query, bodyOf body with
  | none, _, _ => (.error (.methodRefused method), archive)
  | some _, .error reason, _ => (.error (.queryRejected reason), archive)
  | some _, .ok _, .error error => (.error error, archive)
  | some verb, .ok parameters, .ok value =>
    archive.handle validator name ⟨verb, "", parameters, value⟩

/-- The response of the collection of a name as a whole, or that of the library to a body that it refuses; to
`HEAD` without its body. -/
def atCollection (library : HttpLibrary) (validator : Validator) (archive : Archive)
    (name method query : String) (body : List UInt8) : HttpResponse × Archive :=
  let (response, archive) :=
    match library.refusal? body with
    | some response => (response, archive)
    | none =>
      let (answer, archive) := ask validator archive name method (library.query query) body
      (.ofAnswer answer, archive)
  (if method = "HEAD" then response.headOnly else response, archive)

variable {library : HttpLibrary} {router : Router} {validator : Validator} {archive : Archive}
  {name written path : String} {route : Route}

/-- A served name is refused for nothing but the method, the query string and the body. -/
theorem dispatch_of_mem (hname : name ∈ router.collections) (method : String)
    (query : Except String (Entries String)) (body : List UInt8) :
    router.dispatch validator archive method [(Route.collectionParameter, name)] query body =
      ask validator archive name method query body := by
  have hcollection : Entries.get? [(Route.collectionParameter, name)] Route.collectionParameter =
      some name := by simp [Entries.get?]
  have hpath : Entries.get? [(Route.collectionParameter, name)] Route.pathParameter = none := by
    simp [Entries.get?, Route.collectionParameter, Route.pathParameter]
  simp only [dispatch, requestTo, hcollection, hpath, Option.getD_some, Option.getD_none, hname,
    not_true_eq_false, if_false, ask]
  cases Verb.ofText? method with
  | none => rfl
  | some verb => cases query <;> cases bodyOf body <;> rfl

/-- A request that takes a route to a collection as a whole is answered by it, if it is served. -/
theorem respondWith_of_route? (hlawful : library.Lawful) (hname : name ∈ router.collections)
    (hdecoded : Text.percentDecoded? written = some name)
    (hroute : library.route? Route.all path = some (route, [(Route.collectionParameter, written)]))
    (hmethods : route.methods = .any) (hendpoint : route.endpoint = .dispatch)
    (method query : String) (body : List UInt8) :
    router.respondWith library validator archive ⟨method, path, query, body⟩ =
      atCollection library validator archive name method query body := by
  have hparameters : library.parameters [(Route.collectionParameter, written)] =
      .ok [(Route.collectionParameter, name)] :=
    hlawful.parameters_eq (.cons ⟨rfl, hdecoded⟩ .nil)
  have hsent (response : HttpResponse) : library.sent method response =
      if method = "HEAD" then response.headOnly else response := by
    split
    case isTrue hhead => rw [hhead, hlawful.sent_head]
    case isFalse hother => rw [hlawful.sent_of_ne hother]
  cases hrefusal : library.refusal? body <;>
    simp only [respondWith, hroute, hmethods, hendpoint, hlawful.takes_any, if_true, answer,
      hparameters, hrefusal, dispatch_of_mem hname, hsent, atCollection]

/-- The path of the health check is answered for `GET` and `HEAD`, and refused for other methods, whatever is
served. -/
theorem respondWith_health (hlawful : library.Lawful) (method query : String) (body : List UInt8) :
    router.respondWith library validator archive ⟨method, "/health", query, body⟩ =
      (library.sent method (if method = "GET" ∨ method = "HEAD" then
          .json 200 false (.object [("status", .string "ok")])
        else library.methodNotAllowed .get), archive) := by
  by_cases htaken : method = "GET" ∨ method = "HEAD"
  · simp only [respondWith, hlawful.route?_health, Route.health,
      (hlawful.takes_get method).mpr htaken, if_true, htaken, answer]
  · simp only [respondWith, hlawful.route?_health, Route.health,
      mt (hlawful.takes_get method).mp htaken, if_false, htaken]
    rfl

/-- A method that the health check does not take is refused with 405, also where a collection has its name. -/
theorem status_respondWith_health (hlawful : library.Lawful) {method : String} (hget : method ≠ "GET")
    (hhead : method ≠ "HEAD") (query : String) (body : List UInt8) :
    (router.respondWith library validator archive ⟨method, "/health", query, body⟩).1.status = 405 := by
  have hother : ¬ (method = "GET" ∨ method = "HEAD") := not_or.mpr ⟨hget, hhead⟩
  rw [respondWith_health hlawful, if_neg hother, hlawful.sent_of_ne hhead]
  exact hlawful.status_methodNotAllowed .get

/-- The path without a segment leads nowhere, whatever is served. -/
theorem respondWith_root (hlawful : library.Lawful) (method query : String) (body : List UInt8) :
    router.respondWith library validator archive ⟨method, "/", query, body⟩ =
      (library.sent method (.json 404 false RequestError.unknownRoute.toJson), archive) := by
  simp only [respondWith, hlawful.route?_root]
  rfl

/-- On top of every lawful library, and whatever the archive holds: a request to the path of a collection,
however its name is spelled, is answered by the collection as a whole, whatever the method, the query
string and the body are. That holds of the path with a slash at its end, and of the path without one
unless this is the path of the health check or has no name in it. Every name but the empty one has a
spelling that is neither. -/
theorem respond_mounted {library : HttpLibrary} (hlawful : library.Lawful) (router : Router)
    (validator : Validator) (archive : Archive) {name : String} (hname : name ∈ router.collections)
    (method query : String) (body : List UInt8) :
    (∀ written, SpellsName written name →
      router.respondWith library validator archive ⟨method, "/" ++ (written ++ "/"), query, body⟩ =
        atCollection library validator archive name method query body ∧
      (written ≠ "health" → written ≠ "" →
        router.respondWith library validator archive ⟨method, "/" ++ written, query, body⟩ =
          atCollection library validator archive name method query body)) ∧
    (name ≠ "" → ∃ written, SpellsName written name ∧ written ≠ "health" ∧ written ≠ "") ∧
    ∀ omitsLast, Address.parse "" omitsLast = .ok ⟨none, [], omitsLast⟩ := by
  refine ⟨fun written hspells => ?_, fun hne => ?_, fun omitsLast => rfl⟩
  · have hslash : '/' ∉ written.toList := fun hmem => (hspells.inSegment _ hmem).1 rfl
    refine ⟨?_, fun hhealth hne => ?_⟩
    · exact respondWith_of_route? hlawful hname hspells.decoded (hlawful.route?_slash hslash) rfl rfl
        method query body
    · exact respondWith_of_route? hlawful hname hspells.decoded
        (hlawful.route?_bare hslash hhealth hne) rfl rfl method query body
  · obtain ⟨rest, hrest⟩ := Text.exists_percentEncoded_eq hne
    refine ⟨_, spellsName_percentEncoded name, fun heq => ?_, fun heq => ?_⟩
    all_goals
      rw [heq] at hrest
      simp at hrest

/-- A router that serves a collection with a name of two words, one with the name of the health check, and
one without a name. -/
def threeNames : Router := ⟨["old notes", "health", ""]⟩

/-- The name of two words is spelled with a percent sign. -/
theorem spellsName_oldNotes : SpellsName "old%20notes" "old notes" where
  inSegment := by simp
  decoded := by
    rw [Text.percentDecoded?, Text.bytesOf_eq]
    decide

/-- An archive without documents. -/
def blank : Archive := ⟨Store.empty, .countingFrom 1⟩

/-- With a slash behind this spelling or without, the collection answers. -/
theorem respond_mounted_oldNotes : HttpLibrary.standard.Lawful ∧
    "old notes" ∈ threeNames.collections ∧
    threeNames.respond .none blank ⟨"GET", "/old%20notes/", "multiplicity=one", []⟩ =
      atCollection .standard .none blank "old notes" "GET" "multiplicity=one" [] ∧
    threeNames.respond .none blank ⟨"GET", "/old%20notes", "multiplicity=one", []⟩ =
      atCollection .standard .none blank "old notes" "GET" "multiplicity=one" [] := by
  have hname : "old notes" ∈ threeNames.collections := List.mem_cons_self
  obtain ⟨hslash, hbare⟩ := (respond_mounted HttpLibrary.standard_lawful threeNames .none blank hname
    "GET" "multiplicity=one" []).1 _ spellsName_oldNotes
  exact ⟨HttpLibrary.standard_lawful, hname, hslash, hbare (by decide) (by decide)⟩

/-- The path of the health check answers no collection of that name, and the path without a name none
without one; with a slash at the end the collections answer. -/
theorem respond_takenPaths : "health" ∈ threeNames.collections ∧ "" ∈ threeNames.collections ∧
    (threeNames.respond .none blank ⟨"GET", "/health", "", []⟩).1 =
      .json 200 false (.object [("status", .string "ok")]) ∧
    (threeNames.respond .none blank ⟨"GET", "/health/", "", []⟩).1 =
      .json 200 true (.object [("data", .array [])]) ∧
    (threeNames.respond .none blank ⟨"GET", "/", "", []⟩).1 =
      .json 404 false RequestError.unknownRoute.toJson ∧
    (threeNames.respond .none blank ⟨"GET", "//", "", []⟩).1 =
      .json 200 true (.object [("data", .array [])]) := by
  have hlawful := HttpLibrary.standard_lawful
  have hget : "GET" ≠ "HEAD" := by decide
  -- With a slash at the end, the name decides, and there are no documents under it.
  have hcollection (name : String) (hname : name ∈ threeNames.collections)
      (hdecoded : Text.percentDecoded? name = some name) (hsegment : '/' ∉ name.toList) :
      threeNames.respond .none blank ⟨"GET", "/" ++ (name ++ "/"), "", []⟩ =
        atCollection .standard .none blank name "GET" "" [] :=
    respondWith_of_route? hlawful hname hdecoded (hlawful.route?_slash hsegment) rfl rfl "GET" "" []
  refine ⟨by decide, by decide, ?_, ?_, ?_, ?_⟩
  · rw [respond, respondWith_health hlawful, hlawful.sent_of_ne hget]
    rfl
  · have hanswer := hcollection "health" (by decide) (by decide +kernel) (by decide)
    exact (congrArg Prod.fst hanswer).trans rfl
  · rw [respond, respondWith_root hlawful, hlawful.sent_of_ne hget]
  · have hanswer := hcollection "" (by decide) (by decide +kernel) (by decide)
    exact (congrArg Prod.fst hanswer).trans rfl

end Router

end RestArchive
