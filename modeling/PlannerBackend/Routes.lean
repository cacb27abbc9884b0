import PlannerBackend.Invariant
import PlannerBackend.MeetingController

set_option autoImplicit false

namespace Planner

open Docs Resume

inductive Endpoint where
  | signUpUser | logInUser | logout | getAllUsers | getUserById | deleteUserById | editUser | recoverForgotPassword
  | addMeeting | updateMeeting | deleteMeeting | getAllMeetingsOfUser | getMeetingByMeetingId
deriving DecidableEq, Repr

inductive Method where
  | get | post | put | delete
deriving DecidableEq, Repr

inductive Segment where
  | literal (name : String)
  | param (name : String)
deriving DecidableEq, Repr

structure Route where
  method : Method
  path : List Segment
  endpoint : Endpoint

def userBase : List Segment := [.literal "api", .literal "v1", .literal "user"]

def meetingBase : List Segment := [.literal "api", .literal "v1", .literal "meeting"]

-- readdirSync lists meeting.js before user.js.
def routes : List Route :=
  [ ⟨.post, meetingBase ++ [.literal "addMeeting"], .addMeeting⟩,
    ⟨.put, meetingBase ++ [.param "meetingId", .literal "updateMeeting"], .updateMeeting⟩,
    ⟨.post, meetingBase ++ [.param "meetingId", .literal "deleteMeeting"], .deleteMeeting⟩,
    ⟨.get, meetingBase ++ [.param "userId", .literal "view", .literal "all"], .getAllMeetingsOfUser⟩,
    ⟨.get, meetingBase ++ [.param "meetingId", .literal "view"], .getMeetingByMeetingId⟩,
    ⟨.post, userBase ++ [.literal "signup"], .signUpUser⟩,
    ⟨.post, userBase ++ [.literal "login"], .logInUser⟩,
    ⟨.post, userBase ++ [.literal "logout"], .logout⟩,
    ⟨.get, userBase ++ [.literal "view", .literal "all"], .getAllUsers⟩,
    ⟨.get, userBase ++ [.param "userId", .literal "view"], .getUserById⟩,
    ⟨.post, userBase ++ [.param "userId", .literal "delete"], .deleteUserById⟩,
    ⟨.put, userBase ++ [.param "userId", .literal "edit"], .editUser⟩,
    ⟨.get, userBase ++ [.param "email", .literal "recoverPassword"], .recoverForgotPassword⟩ ]

def guarded : Endpoint → Bool
  | .signUpUser => false
  | .logInUser => false
  | .recoverForgotPassword => false
  | _ => true

-- userId is req.user.userId as isAuthorized sets it.
def controller (pkg : Packages) (req : Request) (userId : Option String) : Endpoint → Process
  | .signUpUser => signUpUser pkg req
  | .logInUser => logInUser pkg req
  | .logout => logout userId
  | .getAllUsers => getAllUsers
  | .getUserById => getUserById req
  | .deleteUserById => deleteUserById req
  | .editUser => editUser pkg req
  | .recoverForgotPassword => recoverForgotPassword pkg req
  | .addMeeting => addMeeting pkg req
  | .updateMeeting => updateMeeting pkg req
  | .deleteMeeting => deleteMeeting pkg req
  | .getAllMeetingsOfUser => getAllMeetingsOfUser req
  | .getMeetingByMeetingId => getMeetingByMeetingId req

def handle (pkg : Packages) (req : Request) (endpoint : Endpoint) : Process :=
  if guarded endpoint then isAuthorized pkg req fun userId => controller pkg req userId endpoint
  else controller pkg req none endpoint

-- Express compares literal segments without case; a parameter is never empty.
def matchPath : List Segment → List String → Option (List (String × String))
  | [], [] => some []
  | .literal name :: segments, part :: parts =>
      if toLowerCase part = toLowerCase name then matchPath segments parts else none
  | .param name :: segments, part :: parts =>
      if part = "" then none else (matchPath segments parts).map fun rest => (name, part) :: rest
  | _, _ => none

-- The path is the segments of the URL once it is split and decoded, with no
-- piece for a closing slash (readPath, in Urls).
structure HttpRequest where
  method : Method
  path : List String
  query : Js.Value
  body : Js.Value
  header : String → Option String

def Route.match? (route : Route) (http : HttpRequest) : Option (List (String × String)) :=
  if route.method = http.method then matchPath route.path http.path else none

def findRoute (http : HttpRequest) : List Route → Option (Endpoint × List (String × String))
  | [] => none
  | route :: rest =>
      match route.match? http with
      | some params => some (route.endpoint, params)
      | none => findRoute http rest

def endpointOf (http : HttpRequest) : Option Endpoint := (findRoute http routes).map Prod.fst

def requestOf (http : HttpRequest) : Request where
  params := fun name => ((findRoute http routes).map Prod.snd).bind (List.lookup name)
  query := http.query
  body := http.body
  header := http.header

def app (pkg : Packages) (http : HttpRequest) : Process :=
  match endpointOf http with
  | some endpoint => handle pkg (requestOf http) endpoint
  | none => notFoundHandler

abbrev server (pkg : Packages) : Machine sig where
  Job := HttpRequest
  Store := Store
  Choice := Choice
  handler := app pkg
  exec := execute pkg

theorem match_path_params (segments : List Segment) (parts : List String) (params : List (String × String)) (name : String)
    (matched : matchPath segments parts = some params) (named : .param name ∈ segments) : ∃ s, params.lookup name = some s := by
  induction segments generalizing parts params with
  | nil => cases named
  | cons segment rest ih =>
      cases parts with
      | nil => cases segment <;> cases matched
      | cons part parts =>
          cases segment with
          | literal other =>
              simp only [matchPath] at matched
              split at matched
              · exact ih parts params matched (by simpa using named)
              · cases matched
          | param other =>
              simp only [matchPath] at matched
              split at matched
              · cases matched
              · obtain ⟨inner, deeper, rfl⟩ := Option.map_eq_some_iff.mp matched
                rw [List.lookup_cons]
                by_cases same : name = other
                · exact ⟨part, by simp [same]⟩
                · rw [beq_eq_false_iff_ne.mpr same]
                  exact ih parts inner deeper (by simpa [same] using named)

theorem find_route_match (http : HttpRequest) (table : List Route) (endpoint : Endpoint) (params : List (String × String))
    (found : findRoute http table = some (endpoint, params)) :
    ∃ route ∈ table, route.endpoint = endpoint ∧ matchPath route.path http.path = some params := by
  induction table with
  | nil => cases found
  | cons route rest ih =>
      simp only [findRoute] at found
      split at found
      · next params matched =>
          cases found
          refine ⟨route, List.mem_cons_self, rfl, ?_⟩
          unfold Route.match? at matched
          split at matched
          · exact matched
          · cases matched
      · obtain ⟨other, member, same⟩ := ih found
        exact ⟨other, List.mem_cons_of_mem _ member, same⟩

-- Express gives every parameter of the matched route as a string.
theorem param_given (http : HttpRequest) (endpoint : Endpoint) (route : endpointOf http = some endpoint) (name : String)
    (always : ∀ route ∈ routes, route.endpoint = endpoint → .param name ∈ route.path) :
    ∃ s, (requestOf http).param name = .str s := by
  obtain ⟨⟨_, params⟩, found, rfl⟩ := Option.map_eq_some_iff.mp route
  obtain ⟨matched, member, same, path⟩ := find_route_match http routes _ params found
  obtain ⟨s, looked⟩ := match_path_params matched.path http.path params name path (always matched member same)
  exact ⟨s, by simp [Request.param, requestOf, found, looked, stringValue]⟩

end Planner
