import PlannerBackend.Libs

set_option autoImplicit false

namespace Planner

open Docs Resume

structure Request where
  params : String → Option String
  query : Js.Value
  body : Js.Value
  header : String → Option String

def stringValue : Option String → Js.Value
  | none => .undefined
  | some s => .str s

def Request.param (req : Request) (name : String) : Js.Value := stringValue (req.params name)

def UserModel.call (cmd : Cmd UserField) (callback : Docs.Ans cmd → Process) : Process := .call (.users cmd) callback

def authModel.call (cmd : Cmd AuthField) (callback : Docs.Ans cmd → Process) : Process := .call (.auths cmd) callback

def meetingModel.call (cmd : Cmd MeetingField) (callback : Docs.Ans cmd → Process) : Process := .call (.meetings cmd) callback

def send (response : Response) : Process := .emit (.send 200 (.api response)) .halt

-- A path the constructor is given no value for takes its default.
def castPath (cast : Js.Value → Except String Scalar) (preset : Scalar) (value : Js.Value) : Except String Scalar :=
  match value with
  | .undefined => .ok preset
  | given => cast given

def presentedToken (req : Request) : Js.Value :=
  Js.orElse (req.param "authToken")
    (Js.orElse (req.query.get "authToken") (Js.orElse (req.body.get "authToken") (stringValue (req.header "authToken"))))

-- The token verified is the one of the record found, not the one presented.
def isAuthorized (pkg : Packages) (req : Request) (next : Option String → Process) : Process :=
  if Js.truthy (presentedToken req) then
    authModel.call (.findOne .authToken (presentedToken req)) fun
      | .error _ => send (generate true "failed to authorize" 500 .null)
      | .ok found =>
          whenFound found documentValue (send (generate true "invalid or expired auth token" 404 .null)) fun authDetails =>
            .sample fun at_ =>
              match verifyClaim pkg (text (authDetails.row .authToken)) (text (authDetails.row .tokenSecret)) at_.now with
              | none => send (generate true "failed to authorize" 500 .null)
              | some decoded => .emit (.authorised (text (decoded.data .userId))) (next (text (decoded.data .userId)))
  else send (generate true "auth token is missing" 400 .null)

def notFoundHandler : Process :=
  .emit (.send 404 (.api (generate true "Route not found in the application" 404 .null))) .halt

end Planner
