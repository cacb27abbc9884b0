import Mathlib.Data.List.Pairwise
import PlannerBackend.Layers
import PlannerBackend.PathRegexp
import PlannerBackend.Routes
import PlannerBackend.Uri

set_option autoImplicit false

namespace Planner

open Docs Resume PathRegexp Uri Layers

-- The path of a route as app.get and its siblings are given it, and by parts.
def Segment.pattern : Segment → List Char
  | .literal name => name.toList
  | .param name => ':' :: name.toList

def Segment.part : Segment → Part
  | .literal name => .literal name.toList
  | .param name => .param name.toList

def Route.pattern (route : Route) : List Char := route.path.flatMap fun segment => '/' :: segment.pattern

def Route.parts (route : Route) : List Part := route.path.map Segment.part

theorem routes_compile : ∀ route ∈ routes, pathtoRegexp route.pattern = tokensOf route.parts := by decide +kernel

instance (part : Part) : Decidable part.Plain := by
  cases part with
  | literal name => exact inferInstanceAs (Decidable (name ≠ [] ∧ '/' ∉ name))
  | param key => exact inferInstanceAs (Decidable True)

theorem routes_plain : ∀ route ∈ routes, ∀ part ∈ route.parts, part.Plain := by decide +kernel

def Route.Apart (a b : Route) : Prop := overlaps a.parts b.parts = false ∧ overlaps b.parts a.parts = false

instance : DecidableRel Route.Apart := fun a b =>
  inferInstanceAs (Decidable (overlaps a.parts b.parts = false ∧ overlaps b.parts a.parts = false))

instance : Std.Symm Route.Apart := ⟨fun _ _ apart => ⟨apart.2, apart.1⟩⟩

theorem routes_apart : routes.Pairwise Route.Apart := by decide +kernel

theorem others_apart (a b : Route) (first : a ∈ routes) (second : b ∈ routes) (differ : a ≠ b) : Route.Apart a b :=
  routes_apart.forall first second differ

-- What matches segment by segment matches piece by piece.
theorem match_path_pieces (segments : List Segment) (parts : List String) (params : List (String × String))
    (matched : matchPath segments parts = some params) :
    ∃ found, matchPieces (segments.map Segment.part) ([] :: parts.map String.toList) = some found := by
  induction segments generalizing parts params with
  | nil =>
      cases parts with
      | nil => exact ⟨[], rfl⟩
      | cons part rest => cases matched
  | cons segment segments ih =>
      cases parts with
      | nil => cases segment <;> cases matched
      | cons part rest =>
          cases segment with
          | literal name =>
              simp only [matchPath, Option.ite_none_right_eq_some] at matched
              obtain ⟨found, deeper⟩ := ih rest params matched.2
              have same : part.toList.map Char.toLower = name.toList.map Char.toLower := by
                simpa [toLowerCase] using congrArg String.toList matched.1
              exact ⟨found, by simp [matchPieces, Segment.part, Part.take, same, deeper]⟩
          | param name =>
              simp only [matchPath, Option.ite_none_left_eq_some] at matched
              obtain ⟨inner, later, _⟩ := Option.map_eq_some_iff.mp matched.2
              obtain ⟨found, deeper⟩ := ih rest inner later
              have present : part.toList ≠ [] := by simpa using matched.1
              exact ⟨(name.toList, part.toList) :: found, by simp [matchPieces, Segment.part, Part.take, present, deeper]⟩

theorem apart_excludes (a b : Route) (first : a ∈ routes) (second : b ∈ routes) (apart : Route.Apart a b) (all : List (List Char))
    (p q : List (List Char × List Char)) (one : matchPieces a.parts all = some p)
    (other : matchPieces b.parts all = some q) : False := by
  have overlap := matched_overlap a.parts b.parts (routes_plain a first) (routes_plain b second) all p q one other
  rw [apart.1] at overlap
  cases overlap

theorem matched_alone (route other : Route) (member : route ∈ routes) (another : other ∈ routes) (differ : other ≠ route)
    (parts : List String) (params : List (String × String)) (matched : matchPath route.path parts = some params) :
    matchPath other.path parts = none := by
  cases there : matchPath other.path parts with
  | none => rfl
  | some others =>
      obtain ⟨_, here⟩ := match_path_pieces route.path parts params matched
      obtain ⟨_, there⟩ := match_path_pieces other.path parts others there
      exact (apart_excludes other route another member (others_apart other route another member differ) _ _ _ there here).elim

-- No path fits two routes of the table, whatever their methods.
def Unambiguous (table : List Route) : Prop :=
  table.Pairwise fun a b => ∀ parts p q, matchPath a.path parts = some p → matchPath b.path parts = some q → False

theorem routes_unambiguous : Unambiguous routes := by
  refine routes_apart.imp_of_mem ?_
  intro a b first second apart parts p q one other
  obtain ⟨_, one⟩ := match_path_pieces a.path parts p one
  obtain ⟨_, other⟩ := match_path_pieces b.path parts q other
  exact apart_excludes a b first second apart _ _ _ one other

theorem unambiguous_perm (table other : List Route) (same : table.Perm other)
    (unambiguous : Unambiguous other) : Unambiguous table := by
  refine (same.pairwise_iff ?_).mpr unambiguous
  intro a b apart parts p q first second
  exact apart parts q p second first

theorem match_route (route : Route) (http : HttpRequest) (params : List (String × String)) :
    route.match? http = some params ↔ route.method = http.method ∧ matchPath route.path http.path = some params := by
  simp [Route.match?]

theorem unambiguous_found (table : List Route) (unambiguous : Unambiguous table) (http : HttpRequest) (route : Route)
    (member : route ∈ table) (params : List (String × String)) (matched : route.match? http = some params) :
    findRoute http table = some (route.endpoint, params) := by
  induction table with
  | nil => cases member
  | cons first rest ih =>
      obtain ⟨here, later⟩ := List.pairwise_cons.mp unambiguous
      rcases List.mem_cons.mp member with rfl | deeper
      · simp only [findRoute, matched]
      · cases seen : first.match? http with
        | none => simpa only [findRoute, seen] using ih later deeper
        | some other =>
            have fits := ((match_route first http other).mp seen).2
            exact (here route deeper http.path other params fits ((match_route route http params).mp matched).2).elim

theorem find_route_none (http : HttpRequest) (table : List Route) :
    findRoute http table = none ↔ ∀ route ∈ table, route.match? http = none := by
  induction table with
  | nil => simp [findRoute]
  | cons route rest ih =>
      cases seen : route.match? http with
      | none => simp [findRoute, seen, ih]
      | some params => simp [findRoute, seen]

theorem find_route_some (http : HttpRequest) (table : List Route) (endpoint : Endpoint) (params : List (String × String))
    (found : findRoute http table = some (endpoint, params)) : ∃ route ∈ table, route.endpoint = endpoint ∧
    route.match? http = some params := by
  induction table with
  | nil => cases found
  | cons route rest ih =>
      cases seen : route.match? http with
      | none =>
          simp only [findRoute, seen] at found
          obtain ⟨other, member, rest⟩ := ih found
          exact ⟨other, List.mem_cons_of_mem _ member, rest⟩
      | some given =>
          simp only [findRoute, seen] at found
          cases found
          exact ⟨route, List.mem_cons_self, rfl, seen⟩

-- The order in which readdirSync lists the route files, and the order of the
-- routes within them, decides nothing.
theorem dispatch_ignores_order (table : List Route) (same : table.Perm routes) :
    Unambiguous table ∧ ∀ http, findRoute http table = findRoute http routes := by
  have unambiguous := unambiguous_perm table routes same routes_unambiguous
  refine ⟨unambiguous, ?_⟩
  intro http
  cases found : findRoute http routes with
  | none =>
      refine (find_route_none http table).mpr ?_
      intro route member
      exact (find_route_none http routes).mp found route (same.mem_iff.mp member)
  | some answer =>
      obtain ⟨endpoint, params⟩ := answer
      obtain ⟨route, member, rfl, matched⟩ := find_route_some http routes endpoint params found
      exact unambiguous_found table unambiguous http route (same.mem_iff.mpr member) params matched

theorem reference_dispatch_ignores_order :
    Unambiguous routes.reverse ∧ ∀ http, findRoute http routes.reverse = findRoute http routes :=
  dispatch_ignores_order routes.reverse (List.reverse_perm routes)

end Planner
