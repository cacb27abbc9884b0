import Mathlib.Data.List.Forall2
import PlannerBackend.Dispatch

set_option autoImplicit false

namespace Planner

open Docs Resume PathRegexp Uri Layers

structure HttpError where
  status : Nat
  message : String
deriving DecidableEq

structure ParsedUrl where
  pathname : Option (List Char)
  query : Option (List Char)

-- The characters at which parseurl leaves the URL to url.parse of node.
def breaks (c : Char) : Bool := [0x09, 0x0a, 0x0c, 0x0d, 0x20, 0x23, 0xa0, 0xfeff].contains c.toNat

-- parse is url.parse, which may throw.
def fastparse (parse : List Char → Option ParsedUrl) : List Char → Option ParsedUrl
  | '/' :: rest =>
      if rest.any breaks then parse ('/' :: rest)
      else
        match rest.dropWhile (· != '?') with
        | [] => some ⟨some ('/' :: rest), none⟩
        | _ :: query => some ⟨some ('/' :: rest.takeWhile (· != '?')), some query⟩
  | str => parse str

-- decode_param, for every group of the pattern
def decodeParams : List (List Char × List Char) → Except HttpError (List (String × String))
  | [] => .ok []
  | (key, val) :: rest =>
      match decodeURIComponent val with
      | none => .error ⟨400, "Failed to decode param '" ++ String.ofList val ++ "'"⟩
      | some text => (decodeParams rest).map ((String.ofList key, String.ofList text) :: ·)

-- Layer.prototype.match: the methods of the route are asked for later.
def Route.layerMatch (route : Route) (pathname : List Char) : Except HttpError (Option (List (String × String))) :=
  match exec (pathtoRegexp route.pattern) pathname with
  | none => .ok none
  | some captures => (decodeParams captures).map some

-- The path of a request for this route and these parameters.
def pathOf : List Segment → List (String × String) → List String
  | [], _ => []
  | .literal name :: segments, params => name :: pathOf segments params
  | .param _ :: segments, params => ((params.head?.map Prod.snd).getD "") :: pathOf segments params.tail

-- How a URL becomes the segments of a request: by the one route whose pattern
-- it fits, its literals in the spelling of the route and its parameters
-- decoded. A path that fits no route is as good as an empty one.
def readPath (pathname : List Char) : Except HttpError (List String) :=
  (firstOf (fun route => (route.layerMatch pathname).map (Option.map (pathOf route.path))) routes).map (Option.getD · [])

theorem layer_match_pieces (route : Route) (member : route ∈ routes) (pathname : List Char) :
    route.layerMatch pathname =
      match matchPieces route.parts (pieces pathname) with
      | none => .ok none
      | some captures => (decodeParams captures).map some := by
  rw [Route.layerMatch, routes_compile route member, exec_pieces route.parts (routes_plain route member)]

theorem decoded_params (captures : List (List Char × List Char)) (present : ∀ capture ∈ captures, capture.2 ≠ [])
    (params : List (String × String)) (read : decodeParams captures = .ok params) :
    params.map Prod.fst = captures.map (fun capture => String.ofList capture.1) ∧ ∀ param ∈ params, param.2 ≠ "" := by
  induction captures generalizing params with
  | nil =>
      cases read
      simp
  | cons capture rest ih =>
      obtain ⟨key, val⟩ := capture
      simp only [decodeParams] at read
      split at read
      · cases read
      · next text decoded =>
          cases later : decodeParams rest with
          | error err =>
              rw [later] at read
              cases read
          | ok others =>
              rw [later] at read
              cases read
              obtain ⟨keys, filled⟩ := ih (fun other member => present other (List.mem_cons_of_mem _ member)) others later
              have full := decode_nonempty val text decoded (present _ List.mem_cons_self)
              simpa [keys, full] using filled

def Segment.name? : Segment → Option String
  | .literal _ => none
  | .param name => some name

theorem path_matches (segments : List Segment) (params : List (String × String))
    (keys : params.map Prod.fst = segments.filterMap Segment.name?) (present : ∀ param ∈ params, param.2 ≠ "") :
    matchPath segments (pathOf segments params) = some params := by
  induction segments generalizing params with
  | nil =>
      have empty : params = [] := by simpa using keys
      rw [empty]
      rfl
  | cons segment segments ih =>
      cases segment with
      | literal name =>
          rw [pathOf, matchPath, if_pos rfl]
          exact ih params (by simpa [List.filterMap_cons, Segment.name?] using keys) present
      | param name =>
          cases params with
          | nil => simp [Segment.name?] at keys
          | cons param rest =>
              obtain ⟨key, value⟩ := param
              simp only [List.map_cons, List.filterMap_cons, Segment.name?, List.cons.injEq] at keys
              have later := ih rest keys.2 fun other member => present other (List.mem_cons_of_mem _ member)
              have full : value ≠ "" := present _ List.mem_cons_self
              simp [pathOf, matchPath, full, later, keys.1]

-- The path that is read for a route matches it, with the parameters decoded.
theorem read_matches (route : Route) (member : route ∈ routes) (pathname : List Char) (params : List (String × String))
    (matched : route.layerMatch pathname = .ok (some params)) :
    matchPath route.path (pathOf route.path params) = some params := by
  rw [layer_match_pieces route member] at matched
  split at matched
  · cases matched
  · next captures found =>
      cases read : decodeParams captures with
      | error err =>
          rw [read] at matched
          cases matched
      | ok decoded =>
          rw [read] at matched
          cases matched
          obtain ⟨groups, present⟩ := matched_captures route.parts _ captures found
          obtain ⟨keys, full⟩ := decoded_params captures present params read
          refine path_matches route.path params ?_ full
          rw [keys, show (fun capture : List Char × List Char => String.ofList capture.1) = String.ofList ∘ Prod.fst from rfl,
            ← List.map_map, groups, Route.parts, List.filterMap_map, List.map_filterMap]
          congr 1
          funext segment
          cases segment <;> simp [Segment.part, Part.key?, Segment.name?]

-- At most one route takes a path, by the order of the table or any other.
theorem other_routes (route other : Route) (member : route ∈ routes) (another : other ∈ routes) (differ : other ≠ route)
    (pathname : List Char) (taken : route.layerMatch pathname ≠ .ok none) : other.layerMatch pathname = .ok none := by
  rw [layer_match_pieces route member] at taken
  rw [layer_match_pieces other another]
  cases here : matchPieces route.parts (pieces pathname) with
  | none => simp [here] at taken
  | some captures =>
      cases there : matchPieces other.parts (pieces pathname) with
      | none => rfl
      | some others =>
          have apart := others_apart other route another member differ
          exact (apart_excludes other route another member apart _ _ _ there here).elim

theorem read_path_only (route : Route) (member : route ∈ routes) (pathname : List Char)
    (taken : route.layerMatch pathname ≠ .ok none) :
    readPath pathname = (route.layerMatch pathname).map fun found => (found.map (pathOf route.path)).getD [] := by
  rw [readPath, first_of_only _ routes route member]
  · cases route.layerMatch pathname <;> rfl
  · intro other another differ
    simp only [other_routes route other member another differ pathname taken, Except.map, Option.map_none]

-- A path as a client writes it for these parameters: the literals in any case,
-- the parameters as encodeURIComponent makes them.
def Spelt (values : String → String) : Segment → List Char → Prop
  | .literal name, text => text.map Char.toLower = name.toList.map Char.toLower
  | .param name, text => values name ≠ "" ∧ text = encodeURIComponent (values name).toList

-- The path may end in a slash, and a query may follow.
def urlPath (texts : List (List Char)) (closing : Bool) : List Char := texts.flatMap ('/' :: ·) ++ if closing then ['/'] else []

def urlOf (texts : List (List Char)) (closing : Bool) (search : Option (List Char)) : List Char :=
  urlPath texts closing ++ (search.map ('?' :: ·)).getD []

def separates (c : Char) : Bool := breaks c || c == '?' || c == '/'

theorem unreserved_joins (c : Char) (plain : isUnreserved c = true ∨ c = '%') : separates c = false := by
  have reserved : ∀ n ∈ [0x09, 0x0a, 0x0c, 0x0d, 0x20, 0x23, 0xa0, 0xfeff, 0x3f, 0x2f], isUnreserved (Char.ofNat n) = false ∧
      Char.ofNat n ≠ '%' := by
    decide
  cases parted : separates c with
  | false => rfl
  | true =>
      have listed : c.toNat ∈ [0x09, 0x0a, 0x0c, 0x0d, 0x20, 0x23, 0xa0, 0xfeff, 0x3f, 0x2f] := by
        simp only [separates, breaks, Bool.or_eq_true, beq_iff_eq, List.contains_iff_mem] at parted
        rcases parted with (listed | rfl) | rfl
        · exact List.mem_append_left [0x3f, 0x2f] listed
        · decide
        · decide
      have both := reserved _ listed
      rw [Char.ofNat_toNat] at both
      rcases plain with plain | rfl
      · exact absurd (plain.symm.trans both.1) (by decide)
      · exact absurd rfl both.2

theorem literals_join (route : Route) (member : route ∈ routes) :
    ∀ segment ∈ route.path, ∀ c ∈ segment.pattern, separates c = false := by
  have checked : (routes.all fun route => route.path.all fun segment => segment.pattern.all fun c => !separates c) =
      true := by decide +kernel
  simp only [List.all_eq_true, Bool.not_eq_true'] at checked
  exact checked route member

theorem spelt_joins (values : String → String) (segment : Segment) (literal : ∀ c ∈ segment.pattern, separates c = false)
    (text : List Char) (spelt : Spelt values segment text) : ∀ c ∈ text, separates c = false := by
  intro c member
  cases segment with
  | param name =>
      obtain ⟨_, rfl⟩ := spelt
      exact unreserved_joins c (encoded_plain _ c member)
  | literal name =>
      have lowered := Regex.lower_respects separates (by decide)
      have inside : c.toLower ∈ name.toList.map Char.toLower := by
        rw [← show text.map Char.toLower = name.toList.map Char.toLower from spelt]
        exact List.mem_map_of_mem member
      obtain ⟨letter, written, same⟩ := List.mem_map.mp inside
      rw [← lowered c, ← same, lowered letter]
      exact literal letter written

theorem texts_join (values : String → String) (segments : List Segment) (texts : List (List Char))
    (spelt : List.Forall₂ (Spelt values) segments texts)
    (literals : ∀ segment ∈ segments, ∀ c ∈ segment.pattern, separates c = false) :
    ∀ text ∈ texts, ∀ c ∈ text, separates c = false := by
  induction spelt with
  | nil => simp
  | @cons segment text segments texts here _ ih =>
      have first := spelt_joins values segment (literals segment List.mem_cons_self) text here
      have later := ih fun other member => literals other (List.mem_cons_of_mem _ member)
      exact List.forall_mem_cons.mpr ⟨first, later⟩

def captured (values : String → String) (segments : List Segment) : List (List Char × List Char) :=
  (segments.filterMap Segment.name?).map fun name => (name.toList, encodeURIComponent (values name).toList)

def filled (values : String → String) (segments : List Segment) : List (String × String) :=
  (segments.filterMap Segment.name?).map fun name => (name, values name)

theorem spelt_matches (values : String → String) (segments : List Segment) (texts : List (List Char))
    (spelt : List.Forall₂ (Spelt values) segments texts) (tail : List (List Char)) (ended : tail = [] ∨ tail = [[]]) :
    matchPieces (segments.map Segment.part) ([] :: (texts ++ tail)) = some (captured values segments) := by
  induction spelt with
  | nil => rcases ended with rfl | rfl <;> rfl
  | @cons segment text segments texts here _ ih =>
      cases segment with
      | literal name =>
          have same : text.map Char.toLower = name.toList.map Char.toLower := here
          simp [matchPieces, Segment.part, Part.take, same, ih, captured, List.filterMap_cons, Segment.name?]
      | param name =>
          obtain ⟨present, rfl⟩ := here
          have full : encodeURIComponent (values name).toList ≠ [] := by
            have longer := length_encoded (values name).toList
            intro empty
            rw [empty] at longer
            exact present (by simpa using longer)
          simp [matchPieces, Segment.part, Part.take, full, ih, captured, Segment.name?]

theorem path_joins (texts : List (List Char)) (joins : ∀ text ∈ texts, ∀ c ∈ text, separates c = false) (closing : Bool) :
    ∀ c ∈ urlPath texts closing, breaks c = false ∧ (c != '?') = true := by
  intro c member
  have slash : breaks '/' = false ∧ ('/' != '?') = true := by decide
  rcases List.mem_append.mp member with inside | ending
  · obtain ⟨text, given, inside⟩ := List.mem_flatMap.mp inside
    rcases List.mem_cons.mp inside with rfl | inside
    · exact slash
    · have joined := joins text given c inside
      simp only [separates, Bool.or_eq_false_iff] at joined
      exact ⟨joined.1.1, by simpa using joined.1.2⟩
  · cases closing with
    | false => cases ending
    | true =>
        cases List.mem_singleton.mp ending
        exact slash

-- parseurl cuts such a URL at the question mark.
theorem url_parsed (parse : List Char → Option ParsedUrl) (texts : List (List Char)) (present : texts ≠ [])
    (joins : ∀ text ∈ texts, ∀ c ∈ text, separates c = false) (closing : Bool) (search : Option (List Char))
    (clean : ∀ query ∈ search, query.any breaks = false) :
    fastparse parse (urlOf texts closing search) = some ⟨some (urlPath texts closing), search⟩ := by
  obtain ⟨rest, shape⟩ : ∃ rest, urlPath texts closing = '/' :: rest := by
    cases texts with
    | nil => exact absurd rfl present
    | cons first more => exact ⟨_, rfl⟩
  have plain := path_joins texts joins closing
  rw [urlOf, shape] at *
  have unbroken : rest.any breaks = false := by simpa using fun c member => (plain c (List.mem_cons_of_mem _ member)).1
  have kept : ∀ c ∈ rest, (c != '?') = true := fun c member => (plain c (List.mem_cons_of_mem _ member)).2
  cases search with
  | none =>
      have ended : rest.dropWhile (· != '?') = [] :=
        by rw [← List.append_nil rest, List.dropWhile_append_of_pos kept, List.dropWhile_nil]
      simp [fastparse, unbroken, ended]
  | some query =>
      have whole : (rest ++ '?' :: query).any breaks = false := by
        rw [List.any_append, unbroken, List.any_cons, clean query rfl]
        decide
      have cut : (rest ++ '?' :: query).dropWhile (· != '?') = '?' :: query := by rw [List.dropWhile_append_of_pos kept]; rfl
      have front : (rest ++ '?' :: query).takeWhile (· != '?') = rest := by rw [List.takeWhile_append_of_pos kept]; simp
      simp only [Option.map_some, Option.getD_some, List.cons_append, fastparse, whole, cut, front, Bool.false_eq_true, if_false]

theorem captured_decodes (values : String → String) (segments : List Segment) :
    decodeParams (captured values segments) = .ok (filled values segments) := by
  unfold captured filled
  induction segments.filterMap Segment.name? with
  | nil => rfl
  | cons name rest ih =>
      rw [List.map_cons, List.map_cons, decodeParams, decode_encode]
      simp only [ih, Except.map, String.ofList_toList]

-- The URL a client writes for a route fits the route, which decodes what was
-- encoded.
theorem spelt_layer_match (route : Route) (member : route ∈ routes) (values : String → String) (texts : List (List Char))
    (spelt : List.Forall₂ (Spelt values) route.path texts)
    (joins : ∀ text ∈ texts, ∀ c ∈ text, separates c = false) (closing : Bool) :
    route.layerMatch (urlPath texts closing) = .ok (some (filled values route.path)) := by
  have clear : ∀ text ∈ texts, '/' ∉ text := by
    intro text given inside
    exact absurd (joins text given '/' inside) (by decide)
  have matched : matchPieces route.parts (pieces (urlPath texts closing)) = some (captured values route.path) := by
    cases closing with
    | false =>
        rw [urlPath, if_neg Bool.false_ne_true, pieces_joined texts clear [] [] (.inl rfl) rfl]
        exact spelt_matches values route.path texts spelt [] (.inl rfl)
    | true =>
        rw [urlPath, if_pos rfl, pieces_joined texts clear ['/'] [[]] (.inr ⟨[], rfl⟩) rfl]
        exact spelt_matches values route.path texts spelt [[]] (.inr rfl)
  rw [layer_match_pieces route member, matched]
  simp only [captured_decodes, Except.map]

theorem filled_lookup (values : String → String) (segments : List Segment) (name : String) (named : .param name ∈ segments) :
    (filled values segments).lookup name = some (values name) := by
  have listed : name ∈ segments.filterMap Segment.name? := List.mem_filterMap.mpr ⟨_, named, rfl⟩
  unfold filled
  generalize segments.filterMap Segment.name? = names at listed
  induction names with
  | nil => cases listed
  | cons other rest ih =>
      by_cases same : name = other
      · simp [same]
      · simpa [List.lookup_cons, beq_eq_false_iff_ne.mpr same] using ih (by simpa [same] using listed)

end Planner
