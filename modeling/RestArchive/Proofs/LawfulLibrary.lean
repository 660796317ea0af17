import Mathlib.Data.List.Forall2
import RestArchive.Http.Router

/-! # What is assumed of the HTTP library

The router relies on a few laws of the library under it, `HttpLibrary.Lawful`: a path takes a route whose
pattern matches it, one without parameters if there is such a route, and some route if there is any; a
route for `GET` takes `HEAD` too and refuses other methods with 405; parameters are percent-decoded; and
`HEAD` is answered without a body. What the library makes of query strings, and which bodies it refuses,
is left open. The library that the program runs with keeps the laws (`HttpLibrary.standard_lawful`). -/

namespace RestArchive

/-- The parts of a pattern match the segments of a path, with these values of the parameters. -/
inductive PatternPart.Matches : List PatternPart → List String → Entries String → Prop
  /-- No part and no segment is left. -/
  | nil : Matches [] [] []
  /-- A text matches itself. -/
  | literal {parts : List PatternPart} {segments : List String} {values : Entries String}
      (text : String) (behind : Matches parts segments values) :
      Matches (.literal text :: parts) (text :: segments) values
  /-- A parameter matches one segment, which is not empty where the path ends with it. -/
  | parameter {parts : List PatternPart} {segments : List String} {values : Entries String}
      (name segment : String) (notEmpty : ¬ (segment = "" ∧ segments = []))
      (behind : Matches parts segments values) :
      Matches (.parameter name :: parts) (segment :: segments) ((name, segment) :: values)
  /-- The rest of a path is all segments that are left, unless that is nothing. -/
  | rest {segments : List String} (name : String) (notEmpty : Text.join '/' segments ≠ "") :
      Matches [.rest name] segments [(name, Text.join '/' segments)]

/-- A route matches a path, with these values of the parameters. -/
def Route.Matches (route : Route) (path : String) (values : Entries String) : Prop :=
  ∃ below, path = "/" ++ below ∧
    PatternPart.Matches route.pattern (Text.split '/' below) values

/-- A parameter with what it stands for: its value, percent-decoded. -/
structure Decodes (written read : String × String) : Prop where
  /-- The name of a parameter is not encoded. -/
  name_eq : written.1 = read.1
  /-- Its value is. -/
  value_eq : Text.percentDecoded? written.2 = some read.2

namespace HttpLibrary

/-- What the router assumes of the library under it. -/
structure Lawful (library : HttpLibrary) : Prop where
  /-- The route that a path takes is one of those given, and matches it. -/
  matches_of_route? : ∀ {routes : List Route} {path : String} {route : Route}
    {values : Entries String}, library.route? routes path = some (route, values) →
      route ∈ routes ∧ route.Matches path values
  /-- A path that a route matches takes one. -/
  route?_ne_none : ∀ {routes : List Route} {path : String} {route : Route}
    {values : Entries String}, route ∈ routes → route.Matches path values →
      library.route? routes path ≠ none
  /-- Where a route without parameters matches, no route with parameters is taken. -/
  static_first : ∀ {routes : List Route} {path : String} {route taken : Route}
    {values written : Entries String}, route ∈ routes → route.isStatic → route.Matches path values →
      library.route? routes path = some (taken, written) → taken.isStatic
  /-- A route for all methods takes each. -/
  takes_any : ∀ method, library.takes .any method
  /-- A route for `GET` takes `HEAD` too. -/
  takes_get : ∀ method, library.takes .get method ↔ method = "GET" ∨ method = "HEAD"
  /-- Other methods are answered by 405. -/
  status_methodNotAllowed : ∀ methods, (library.methodNotAllowed methods).status = 405
  /-- Parameters are percent-decoded. -/
  parameters_eq : ∀ {written read : Entries String}, List.Forall₂ Decodes written read →
    library.parameters written = .ok read
  /-- `HEAD` is answered without a body. -/
  sent_head : ∀ response, library.sent "HEAD" response = response.headOnly
  /-- Other responses are sent as they are. -/
  sent_of_ne : ∀ {method : String}, method ≠ "HEAD" → ∀ response, library.sent method response = response

end HttpLibrary

/-! ## The library that the program runs with -/

namespace PatternPart

/-- The parameters that a pattern gets are those with which it matches. -/
theorem match?_eq_some_iff {parts : List PatternPart} {segments : List String}
    {values : Entries String} : match? parts segments = some values ↔ Matches parts segments values := by
  constructor
  · intro h
    fun_induction match? parts segments generalizing values with
    | case1 =>
      cases h
      exact .nil
    | case2 parts segment segments ih => exact .literal segment (ih h)
    | case3 => cases h
    | case4 => cases h
    | case5 name parts segment segments hne ih =>
      obtain ⟨behind, hbehind, rfl⟩ := Option.map_eq_some_iff.mp h
      exact .parameter name segment hne (ih hbehind)
    | case6 => cases h
    | case7 name segments hne =>
      cases h
      exact .rest name hne
    | case8 => cases h
  · intro h
    induction h with
    | nil => rfl
    | literal text _ ih => rw [match?, if_pos rfl, ih]
    | parameter name segment hne _ ih => rw [match?, if_neg hne, ih, Option.map_some]
    | rest name hne => rw [match?, if_neg hne]

end PatternPart

/-- The parameters that a route gets are those with which it matches. -/
theorem Route.match?_eq_some_iff {route : Route} {path : String} {values : Entries String} :
    route.match? path = some values ↔ route.Matches path values := by
  rw [match?]
  constructor
  · intro h
    split at h
    case h_1 below hpath =>
      refine ⟨String.ofList below, ?_, PatternPart.match?_eq_some_iff.mp h⟩
      rw [← String.toList_inj, hpath]
      simp
    case h_2 => cases h
  · rintro ⟨below, rfl, hmatches⟩
    have hpath : ("/" ++ below).toList = '/' :: below.toList := by simp
    simpa [hpath] using PatternPart.match?_eq_some_iff.mpr hmatches

namespace HttpLibrary

/-- The routes among which the library chooses are those that match. -/
theorem mem_filterMap_match?_iff {routes : List Route} {path : String} {route : Route}
    {values : Entries String} :
    (route, values) ∈ routes.filterMap (fun route =>
        (route.match? path).map fun values => (route, values)) ↔
      route ∈ routes ∧ route.Matches path values := by
  simp only [List.mem_filterMap, Option.map_eq_some_iff, Route.match?_eq_some_iff, Prod.mk.injEq]
  constructor
  · rintro ⟨_, hroute, _, hmatches, rfl, rfl⟩
    exact ⟨hroute, hmatches⟩
  · exact fun ⟨hroute, hmatches⟩ => ⟨route, hroute, values, hmatches, rfl, rfl⟩

/-- Parameters that are percent-encoded texts are decoded, one by one. -/
theorem decodedParameters_eq {written read : Entries String} (h : List.Forall₂ Decodes written read) :
    decodedParameters written = .ok read := by
  induction h with
  | nil => rfl
  | @cons first decoded _ _ hfirst _ ih =>
    obtain ⟨name, text⟩ := first
    obtain ⟨_, value⟩ := decoded
    obtain ⟨rfl, hvalue⟩ := hfirst
    rw [decodedParameters, hvalue, ih]
    rfl

/-- The library that the program runs with keeps the laws. -/
theorem standard_lawful : standard.Lawful where
  matches_of_route? h := by
    refine mem_filterMap_match?_iff.mp ?_
    rcases Option.or_eq_some_iff.mp h with hstatic | ⟨-, hfirst⟩
    · exact List.mem_of_find?_eq_some hstatic
    · exact List.mem_of_head? hfirst
  route?_ne_none hroute hmatches hnone := by
    have hmem := mem_filterMap_match?_iff.mpr ⟨hroute, hmatches⟩
    have hempty := List.head?_eq_none_iff.mp (Option.or_eq_none_iff.mp hnone).2
    rw [hempty] at hmem
    cases hmem
  static_first hroute hstatic hmatches h := by
    have hmem := mem_filterMap_match?_iff.mpr ⟨hroute, hmatches⟩
    rcases Option.or_eq_some_iff.mp h with htaken | ⟨hnone, -⟩
    · have hfound := List.find?_some htaken
      exact hfound
    · exact absurd hstatic (List.find?_eq_none.mp hnone _ hmem)
  takes_any _ := rfl
  takes_get method := by simp [standard]
  status_methodNotAllowed _ := rfl
  parameters_eq := decodedParameters_eq
  sent_head _ := rfl
  sent_of_ne hne _ := if_neg hne

end HttpLibrary

end RestArchive
