import PlannerBackend.Reference
import PlannerBackend.Urls

set_option autoImplicit false

namespace Planner

open Docs Resume PathRegexp Uri Layers

-- Methods as they arrive; the names other than these are answered alike.
inductive Verb where
  | method (m : Method)
  | head
  | options
  | other (name : String)
deriving DecidableEq, Repr

-- A route without a handler for HEAD takes it as GET.
def Verb.handledAs : Verb → Option Method
  | .method m => some m
  | .head => some .get
  | _ => none

-- The body by its content type, as far as a parser takes it.
inductive Entity where
  | absent
  | urlencoded (text : String)
  | json (text : String)
  | unknown

structure Arrival where
  verb : Verb
  url : List Char
  header : String → Option String
  entity : Entity

-- url.parse of node, qs and body-parser.
structure Parsers where
  url : List Char → Option ParsedUrl
  query : Option (List Char) → Except HttpError Js.Value
  urlencoded : String → Except HttpError Js.Value
  json : String → Except HttpError Js.Value

-- A request on its way through the layers: search is what its URL has behind
-- the question mark, prepared whether res has the methods of Express, body and
-- parsed are req.body and req._body, headers what logIp has set.
structure Exchange where
  verb : Verb
  pathname : List Char
  search : Option (List Char)
  header : String → Option String
  entity : Entity
  query : Js.Value
  prepared : Bool
  body : Js.Value
  parsed : Bool
  headers : List (String × String)

-- Unhandled requests go to finalhandler, which answers 404 or with the status
-- of the error.
inductive Served where
  | preflight (headers : List (String × String))
  | handled (headers : List (String × String)) (process : Process)
  | unhandled (err : Option HttpError)

abbrev Step := Outcome Exchange HttpError Served

-- The middlewares that come as packages.
structure Middlewares where
  morgan : Exchange → Step
  helmet : Exchange → Step

-- What a package logs and sets is read by no handler.
def PassesOn (layer : Exchange → Step) : Prop := ∀ exchange, layer exchange = .next exchange

def parseQuery (parsers : Parsers) (exchange : Exchange) : Step :=
  match parsers.query exchange.search with
  | .error err => .fail err exchange
  | .ok query => .next { exchange with query := query }

def expressInit (exchange : Exchange) : Step := .next { exchange with prepared := true }

def preflightHeaders : List (String × String) :=
  [("Access-Control-Allow-Origin", "*"), ("Access-Control-Allow-Methods", "POST, GET, PUT, DELETE, OPTIONS"),
    ("Access-Control-Allow-Credentials", "false"), ("Access-Control-Max-Age", "86400"),
    ("Access-Control-Allow-Headers", "X-Requested-With, X-HTTP-Method-Override, Content-Type, Accept")]

def corsHeaders : List (String × String) :=
  [("Access-Control-Allow-Origin", "*"), ("Access-Control-Allow-Methods", "GET, PUT, POST, DELETE, OPTIONS"),
    ("Access-Control-Allow-Headers", "Origin, X-Requested-With, Content-Type, Accept")]

def requestIpLogger (exchange : Exchange) : Step :=
  if exchange.verb = .options then .answer (.preflight preflightHeaders)
  else .next { exchange with headers := exchange.headers ++ corsHeaders }

-- The exception that res.send is on a response that expressInit has not seen.
def sendMissing : HttpError := ⟨500, "res.send is not a function"⟩

def errorHandler (_ : HttpError) (exchange : Exchange) : Step :=
  if exchange.prepared
    then .answer (.handled exchange.headers (send (generate true "Some error occured at global level" 500 .null)))
  else .fail sendMissing exchange

-- The frame of the two parsers of body-parser.
def parseBody (takes : Entity → Option String) (parse : String → Except HttpError Js.Value) (exchange : Exchange) : Step :=
  if exchange.parsed then .next exchange
  else
    let exchange := { exchange with body := Js.orElse exchange.body (.obj []) }
    match takes exchange.entity with
    | none => .next exchange
    | some text =>
        match parse text with
        | .error err => .fail err { exchange with parsed := true }
        | .ok body => .next { exchange with body := body, parsed := true }

def Entity.form : Entity → Option String
  | .urlencoded text => some text
  | _ => none

def Entity.jsonText : Entity → Option String
  | .json text => some text
  | _ => none

def runRoute (pkg : Packages) (route : Route) (exchange : Exchange) : Except HttpError (Option Served) :=
  (route.layerMatch exchange.pathname).map fun found => found.bind fun params =>
    if exchange.verb.handledAs = some route.method then
      some (.handled exchange.headers
        (handle pkg ⟨fun name => params.lookup name, exchange.query, exchange.body, exchange.header⟩ route.endpoint))
    else none

-- The layers in their order: the two of Express, then those of index.js.
def earlyLayers (parsers : Parsers) (packages : Middlewares) : List (Layer Exchange HttpError Served) :=
  [.plain (parseQuery parsers), .plain expressInit, .plain packages.morgan, .plain requestIpLogger, .onError errorHandler]

def bodyLayers (parsers : Parsers) (packages : Middlewares) : List (Layer Exchange HttpError Served) :=
  [.plain (parseBody Entity.form parsers.urlencoded), .plain (parseBody Entity.jsonText parsers.json), .plain packages.helmet]

def routeLayers (pkg : Packages) : List (Layer Exchange HttpError Served) :=
  routes.map (fun route => answering (runRoute pkg route)) ++
    [.plain fun exchange => .answer (.handled exchange.headers notFoundHandler)]

def finalhandler (err : Option HttpError) (_ : Exchange) : Served := .unhandled err

-- Without a pathname the router is done at once.
def serve (pkg : Packages) (parsers : Parsers) (packages : Middlewares) (arrival : Arrival) : Served :=
  match fastparse parsers.url arrival.url with
  | some ⟨some pathname, search⟩ =>
      dispatch finalhandler (earlyLayers parsers packages ++ (bodyLayers parsers packages ++ routeLayers pkg)) none
        ⟨arrival.verb, pathname, search, arrival.header, arrival.entity, .undefined, false, .undefined, false, []⟩
  | _ => .unhandled none

-- The whole stack as one decision.
def readBody (parsers : Parsers) : Entity → Except HttpError Js.Value
  | .urlencoded text => parsers.urlencoded text
  | .json text => parsers.json text
  | _ => .ok (.obj [])

def answered (pkg : Packages) (verb : Verb) (path : List String) (query : Js.Value) (header : String → Option String)
    (body : Js.Value) : Process :=
  match verb.handledAs with
  | some method => app pkg ⟨method, path, query, body, header⟩
  | none => notFoundHandler

def routed (pkg : Packages) (verb : Verb) (pathname : List Char) (query : Js.Value) (header : String → Option String)
    (body : Js.Value) : Served :=
  match readPath pathname with
  | .error err => .unhandled (some err)
  | .ok path => .handled corsHeaders (answered pkg verb path query header body)

section Stack

variable (pkg : Packages) (parsers : Parsers) (packages : Middlewares)

theorem answered_other (verb : Verb) (path : List String) (query : Js.Value) (header : String → Option String) (body : Js.Value)
    (unfit : ∀ route ∈ routes, verb.handledAs = some route.method → matchPath route.path path = none) :
    answered pkg verb path query header body = notFoundHandler := by
  unfold answered
  cases handled : verb.handledAs with
  | none => rfl
  | some method =>
      have missing : findRoute ⟨method, path, query, body, header⟩ routes = none := by
        refine (find_route_none _ routes).mpr ?_
        intro route member
        unfold Route.match?
        split
        · next same => exact unfit route member (by rw [handled, same])
        · rfl
      simp [app, endpointOf, missing]

theorem answered_found (verb : Verb) (path : List String) (query : Js.Value) (header : String → Option String) (body : Js.Value)
    (route : Route) (member : route ∈ routes) (handled : verb.handledAs = some route.method) (params : List (String × String))
    (matched : matchPath route.path path = some params) :
    answered pkg verb path query header body =
    handle pkg ⟨fun name => params.lookup name, query, body, header⟩ route.endpoint := by
  have found := unambiguous_found routes routes_unambiguous ⟨route.method, path, query, body, header⟩ route member params
    ((match_route route _ params).mpr ⟨rfl, matched⟩)
  simp [answered, handled, app, endpointOf, requestOf, found]

theorem route_served (exchange : Exchange) (route : Route) (member : route ∈ routes) (params : List (String × String))
    (matched : route.layerMatch exchange.pathname = .ok (some params)) :
    (if exchange.verb.handledAs = some route.method then
        handle pkg ⟨fun name => params.lookup name, exchange.query, exchange.body, exchange.header⟩ route.endpoint
      else notFoundHandler) =
      answered pkg exchange.verb (pathOf route.path params) exchange.query exchange.header exchange.body := by
  have fits := read_matches route member exchange.pathname params matched
  split
  · next handled => exact (answered_found pkg _ _ _ _ _ route member handled params fits).symm
  · next unhandled =>
      refine (answered_other pkg _ _ _ _ _ ?_).symm
      intro other another handled
      refine matched_alone route other member another ?_ _ params fits
      rintro rfl
      exact unhandled handled

-- The routes of the table and the handler behind them.
theorem routes_served (exchange : Exchange) :
    dispatch finalhandler (routeLayers pkg) none exchange =
      match readPath exchange.pathname with
      | .error err => .unhandled (some err)
      | .ok path => .handled exchange.headers (answered pkg exchange.verb path exchange.query exchange.header exchange.body) := by
  have last : ∀ layer ∈ [Layer.plain fun exchange => Outcome.answer (Served.handled exchange.headers notFoundHandler)],
      takesErrors (layer : Layer Exchange HttpError Served) = false := by simp [takesErrors]
  rw [routeLayers, dispatch_routes finalhandler (runRoute pkg) routes _ last]
  by_cases unfit : ∀ route ∈ routes, route.layerMatch exchange.pathname = .ok none
  · have untaken : firstOf (fun route => runRoute pkg route exchange) routes = .ok none :=
      first_of_none _ routes fun route member => by simp only [runRoute, unfit route member, Except.map, Option.bind_none]
    have unread : readPath exchange.pathname = .ok [] := by
      rw [readPath, first_of_none _ routes fun route member => by simp only [unfit route member, Except.map, Option.map_none]]
      rfl
    have nowhere : ∀ route ∈ routes, matchPath route.path [] = none := by decide
    simp only [untaken, unread, dispatch, Outcome.follow]
    rw [answered_other pkg exchange.verb [] exchange.query exchange.header exchange.body fun route member _ =>
        nowhere route member]
  · simp only [not_forall] at unfit
    obtain ⟨route, member, taken⟩ := unfit
    have alone := fun other another differ => other_routes route other member another differ exchange.pathname taken
    have first : firstOf (fun route => runRoute pkg route exchange) routes = runRoute pkg route exchange :=
      first_of_only _ routes route member fun other another differ => by
        simp only [runRoute, alone other another differ, Except.map, Option.bind_none]
    rw [first, read_path_only route member exchange.pathname taken]
    cases matched : route.layerMatch exchange.pathname with
    | error err => simp only [runRoute, matched, Except.map, finalhandler]
    | ok found =>
        cases found with
        | none => exact absurd matched taken
        | some params =>
            have served := route_served pkg exchange route member params matched
            by_cases handled : exchange.verb.handledAs = some route.method
            · simp only [runRoute, matched, Except.map, Option.bind_some, Option.map_some,
                Option.getD_some, ← served, if_pos handled]
            · simp only [runRoute, matched, Except.map, Option.bind_some, Option.map_some, Option.getD_some, ← served,
                if_neg handled, dispatch, Outcome.follow]

section Parsing

variable (takes : Entity → Option String) (parse : String → Except HttpError Js.Value) (exchange : Exchange)

theorem parse_skips (other : takes exchange.entity = none) (fresh : exchange.parsed = false) :
    parseBody takes parse exchange = .next { exchange with body := Js.orElse exchange.body (.obj []) } := by
  simp [parseBody, fresh, other]

theorem parse_reads (text : String) (taken : takes exchange.entity = some text) (body : Js.Value) (read : parse text = .ok body)
    (fresh : exchange.parsed = false) :
    parseBody takes parse exchange = .next { exchange with body := body, parsed := true } := by
  simp [parseBody, fresh, taken, read]

theorem parse_fails (text : String) (taken : takes exchange.entity = some text) (err : HttpError) (read : parse text = .error err)
    (fresh : exchange.parsed = false) :
    parseBody takes parse exchange = .fail err { exchange with body := Js.orElse exchange.body (.obj []), parsed := true } := by
  simp [parseBody, fresh, taken, read]

end Parsing

theorem late_passing : ∀ layer ∈ bodyLayers parsers packages ++ routeLayers pkg, takesErrors layer = false := by
  simp only [bodyLayers, routeLayers, List.mem_append, List.mem_map, List.mem_cons, List.not_mem_nil, or_false]
  rintro layer ((rfl | rfl | rfl) | ⟨route, _, rfl⟩ | rfl) <;> rfl

-- An error behind the handler for errors reaches finalhandler.
theorem late_error (passed left : List (Layer Exchange HttpError Served))
    (cut : bodyLayers parsers packages ++ routeLayers pkg = passed ++ left) (err : HttpError) (exchange : Exchange) :
    dispatch finalhandler left (some err) exchange = .unhandled (some err) := by
  have skipped := dispatch_error finalhandler left [] (fun layer member =>
    late_passing pkg parsers packages layer (by rw [cut]; exact List.mem_append_right _ member)) err exchange
  rwa [List.append_nil] at skipped

-- The two parsers leave the body of the request, or their error.
theorem parsed_served (passes : PassesOn packages.helmet) (exchange : Exchange) (unread : exchange.body = .undefined)
    (fresh : exchange.parsed = false) (headed : exchange.headers = corsHeaders) :
    dispatch finalhandler (bodyLayers parsers packages ++ routeLayers pkg) none exchange =
      match readBody parsers exchange.entity with
      | .error err => .unhandled (some err)
      | .ok body => routed pkg exchange.verb exchange.pathname exchange.query exchange.header body := by
  have skipped : ∀ takes parse, takes exchange.entity = none → parseBody takes parse exchange =
      .next { exchange with body := .obj [] } := by
    intro takes parse other
    rw [parse_skips takes parse exchange other fresh, unread]
    rfl
  have finish : ∀ body parsed,
      dispatch finalhandler (.plain packages.helmet :: routeLayers pkg) none { exchange with body := body, parsed := parsed } =
      routed pkg exchange.verb exchange.pathname exchange.query exchange.header body := by
    intro body parsed
    rw [dispatch_next _ _ _ _ _ (passes _), routes_served, routed, headed]
  have late := late_error pkg parsers packages
  cases entity : exchange.entity with
  | absent | unknown =>
      have form := skipped Entity.form parsers.urlencoded (by rw [entity]; rfl)
      have json := parse_skips Entity.jsonText parsers.json { exchange with body := .obj [] } (by simp only [entity]; rfl) fresh
      rw [bodyLayers, List.cons_append, dispatch_next _ _ _ _ _ form, List.cons_append, dispatch_next _ _ _ _ _ json]
      exact finish (.obj []) exchange.parsed
  | urlencoded text =>
      have taken : Entity.form exchange.entity = some text := by rw [entity]; rfl
      cases read : parsers.urlencoded text with
      | error err =>
          have form := parse_fails Entity.form parsers.urlencoded exchange text taken err read fresh
          rw [bodyLayers, List.cons_append, dispatch_fail _ _ _ _ _ _ form]
          simp only [readBody, read]
          exact late [_] _ rfl err _
      | ok body =>
          have form := parse_reads Entity.form parsers.urlencoded exchange text taken body read fresh
          rw [bodyLayers, List.cons_append, dispatch_next _ _ _ _ _ form]
          simp only [readBody, read]
          exact finish body true
  | json text =>
      have form := skipped Entity.form parsers.urlencoded (by rw [entity]; rfl)
      have taken : Entity.jsonText exchange.entity = some text := by rw [entity]; rfl
      cases read : parsers.json text with
      | error err =>
          have json := parse_fails Entity.jsonText parsers.json { exchange with body := .obj [] } text taken err read fresh
          rw [bodyLayers, List.cons_append, dispatch_next _ _ _ _ _ form, List.cons_append, dispatch_fail _ _ _ _ _ _ json]
          simp only [readBody, read]
          exact late [_, _] _ rfl err _
      | ok body =>
          have json := parse_reads Entity.jsonText parsers.json { exchange with body := .obj [] } text taken body read fresh
          rw [bodyLayers, List.cons_append, dispatch_next _ _ _ _ _ form, List.cons_append, dispatch_next _ _ _ _ _ json]
          simp only [readBody, read]
          exact finish body true

-- A request for a pathname, as one decision.
def verdict (verb : Verb) (pathname : List Char) (search : Option (List Char)) (header : String → Option String)
    (entity : Entity) : Served :=
  match parsers.query search with
  | .error _ => .unhandled (some sendMissing)
  | .ok query =>
      if verb = .options then .preflight preflightHeaders
      else
        match readBody parsers entity with
        | .error err => .unhandled (some err)
        | .ok body => routed pkg verb pathname query header body

theorem early_served (logs : PassesOn packages.morgan) (passes : PassesOn packages.helmet) (verb : Verb) (pathname : List Char)
    (search : Option (List Char)) (header : String → Option String) (entity : Entity) :
    dispatch finalhandler (earlyLayers parsers packages ++ (bodyLayers parsers packages ++ routeLayers pkg)) none
        ⟨verb, pathname, search, header, entity, .undefined, false, .undefined, false, []⟩ =
      verdict pkg parsers verb pathname search header entity := by
  unfold verdict earlyLayers
  cases asked : parsers.query search with
  | error err =>
      have failed : ∀ exchange : Exchange, exchange.search = search → parseQuery parsers exchange = .fail err exchange := by
        intro exchange same
        rw [parseQuery, same, asked]
      simp only [List.cons_append, List.nil_append, dispatch, failed, Outcome.follow, errorHandler, Bool.false_eq_true, if_false]
      exact late_error pkg parsers packages [] _ rfl sendMissing _
  | ok query =>
      have read : ∀ exchange : Exchange, exchange.search = search → parseQuery parsers exchange =
          .next { exchange with query := query } := by
        intro exchange same
        rw [parseQuery, same, asked]
      by_cases preflight : verb = .options
      · simp only [List.cons_append, List.nil_append, dispatch, read, Outcome.follow, expressInit,
          logs _, requestIpLogger, if_pos preflight]
      · simp only [List.cons_append, List.nil_append, dispatch, read, Outcome.follow, expressInit,
            logs _, requestIpLogger, if_neg preflight]
        exact parsed_served pkg parsers packages passes _ rfl rfl rfl

theorem serve_path (logs : PassesOn packages.morgan) (passes : PassesOn packages.helmet) (arrival : Arrival)
    (pathname : List Char) (search : Option (List Char))
    (parsed : fastparse parsers.url arrival.url = some ⟨some pathname, search⟩) :
    serve pkg parsers packages arrival = verdict pkg parsers arrival.verb pathname search arrival.header arrival.entity := by
  simp only [serve, parsed]
  exact early_served pkg parsers packages logs passes _ _ _ _ _

-- What becomes of every request: without a path it is not found, its query
-- must parse, a preflight is answered, its body must parse, the parameters in
-- its path must decode, and then it is served as the table of routes says.
theorem stack_serves_app (logs : PassesOn packages.morgan) (passes : PassesOn packages.helmet) (arrival : Arrival) :
    serve pkg parsers packages arrival =
      match fastparse parsers.url arrival.url with
      | some ⟨some pathname, search⟩ => verdict pkg parsers arrival.verb pathname search arrival.header arrival.entity
      | _ => .unhandled none := by
  split
  · next pathname search parsed => exact serve_path pkg parsers packages logs passes arrival pathname search parsed
  · next unparsed =>
      unfold serve
      split
      · next pathname search parsed => exact absurd parsed (unparsed pathname search)
      · rfl

theorem routes_rooted : ∀ route ∈ routes, route.path ≠ [] := by decide

-- The URL a client writes for an endpoint reaches that endpoint through the
-- whole stack, and the endpoint reads the parameters it was written for.
theorem urls_reach_their_endpoint (logs : PassesOn packages.morgan) (passes : PassesOn packages.helmet) (route : Route)
    (member : route ∈ routes) (values : String → String) (texts : List (List Char))
    (spelt : List.Forall₂ (Spelt values) route.path texts) (closing : Bool) (search : Option (List Char))
    (clean : ∀ query ∈ search, query.any breaks = false) (verb : Verb) (handled : verb.handledAs = some route.method)
    (header : String → Option String) (entity : Entity) (query : Js.Value) (asked : parsers.query search = .ok query)
    (body : Js.Value) (read : readBody parsers entity = .ok body) :
    ∃ req : Request, serve pkg parsers packages ⟨verb, urlOf texts closing search, header, entity⟩ =
    .handled corsHeaders (handle pkg req route.endpoint) ∧
      req.query = query ∧ req.body = body ∧ req.header = header ∧ ∀ name, .param name ∈ route.path →
      req.param name = .str (values name) := by
  have joins := texts_join values route.path texts spelt (literals_join route member)
  have matched := spelt_layer_match route member values texts spelt joins closing
  have path : readPath (urlPath texts closing) = .ok (pathOf route.path (filled values route.path)) := by
    rw [read_path_only route member _ (by simp [matched]), matched]
    rfl
  have fits := read_matches route member _ _ matched
  have known : verb ≠ .options := by
    rintro rfl
    cases handled
  refine ⟨⟨fun name => (filled values route.path).lookup name, query, body, header⟩, ?_, rfl, rfl, rfl, ?_⟩
  · have present : texts ≠ [] := by
      rintro rfl
      exact routes_rooted route member (List.forall₂_nil_right_iff.mp spelt)
    have parsed := url_parsed parsers.url texts present joins closing search clean
    rw [serve_path pkg parsers packages logs passes _ _ search parsed]
    simp only [verdict, asked, if_neg known, read, routed, path,
      answered_found pkg verb _ query header body route member handled _ fits]
  · intro name named
    simp [Request.param, filled_lookup values route.path name named, stringValue]

end Stack

def Reference.parsers : Parsers where
  url := fun _ => none
  query := fun _ => .ok (.obj [])
  urlencoded := fun _ => .ok (.obj [])
  json := fun _ => .error ⟨400, "Unexpected token"⟩

def Reference.middlewares : Middlewares := ⟨.next, .next⟩

-- A request for the user with the id %.
def Reference.undecodable : Arrival := ⟨.method .get, "/api/v1/user/%/view".toList, fun _ => none, .absent⟩

theorem reference_undecodable : readPath Reference.undecodable.url = .error ⟨400, "Failed to decode param '%'"⟩ := by
  decide +kernel

theorem reference_stack_serves_app :
    serve Reference.packages Reference.parsers Reference.middlewares Reference.undecodable =
    .unhandled (some ⟨400, "Failed to decode param '%'"⟩) := by
  refine (stack_serves_app Reference.packages Reference.parsers Reference.middlewares (fun _ => rfl)
      (fun _ => rfl) Reference.undecodable).trans ?_
  have parsed : fastparse Reference.parsers.url Reference.undecodable.url = some ⟨some Reference.undecodable.url, none⟩ := by rfl
  rw [parsed]
  change routed Reference.packages (.method .get) Reference.undecodable.url (.obj []) (fun _ => none) (.obj []) = _
  rw [routed, reference_undecodable]

-- The meeting m/1 is deleted with POST /API/v1/meeting/m%2F1/deleteMEETING/?x=1.
theorem reference_urls_reach_their_endpoint :
    ∃ req : Request, serve Reference.packages Reference.parsers Reference.middlewares
        ⟨.method .post, "/API/v1/meeting/m%2F1/deleteMEETING/?x=1".toList, fun _ => none, .absent⟩ =
          .handled corsHeaders (handle Reference.packages req .deleteMeeting) ∧ req.param "meetingId" = .str "m/1" := by
  have spelt : List.Forall₂ (Spelt fun _ => "m/1") (meetingBase ++ [.param "meetingId", .literal "deleteMeeting"])
      ["API".toList, "v1".toList, "meeting".toList, "m%2F1".toList, "deleteMEETING".toList] := by
    refine .cons ?_ (.cons ?_ (.cons ?_ (.cons ⟨by decide, by decide +kernel⟩ (.cons ?_ .nil))))
    all_goals
      change List.map Char.toLower _ = List.map Char.toLower _
      decide +kernel
  obtain ⟨req, served, _, _, _, params⟩ :=
    urls_reach_their_endpoint Reference.packages Reference.parsers Reference.middlewares (fun _ => rfl) (fun _ => rfl)
    ⟨.post, meetingBase ++ [.param "meetingId", .literal "deleteMeeting"], .deleteMeeting⟩ (by simp [routes])
    (fun _ => "m/1") _ spelt true
    (some "x=1".toList) (by decide +kernel) (.method .post) rfl (fun _ => none) .absent (.obj []) rfl (.obj []) rfl
  exact ⟨req, served, params "meetingId" (by simp)⟩

end Planner
