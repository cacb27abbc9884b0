import PlannerBackend.Middleware

set_option autoImplicit false

namespace Planner

open Docs Resume

-- apiResponse is never declared in logInUser and recoverForgotPassword: the
-- assignment goes to the one global, and reject is given what it then holds.
def rejectShared (reject : Body → Process) (response : Response) : Process :=
  .assign (.api response) (.fetch reject)

namespace SignUpUser

def validateUserInput (req : Request) : Async Unit := fun resolve reject =>
  if Js.truthy (req.body.get "email") then
    match Email (req.body.get "email") with
    | .error thrown => reject (.thrown thrown)
    | .ok false => reject (.api (generate true "email does not met the requirement" 400 .null))
    | .ok true =>
        match isEmpty (req.body.get "password") with
        | .error thrown => reject (.thrown thrown)
        | .ok true => reject (.api (generate true "password is empty" 400 .null))
        | .ok false => resolve ()
  else reject (.api (generate true "one or more parameter is missing" 400 .null))

def newUser (pkg : Packages) (req : Request) (userId email hash : String) (createdOn : Scalar) :
    Except String (Row UserField) := do
  let firstName ← castPath pkg.castString (userDefault .firstName) (req.body.get "firstName")
  let lastName ← castPath pkg.castString (userDefault .lastName) (Js.orElse (req.body.get "lastName") (.str ""))
  let userName ← castPath pkg.castString (userDefault .userName) (req.body.get "userName")
  let mobileNumber ← castPath pkg.castNumber (userDefault .mobileNumber) (req.body.get "mobileNumber")
  return fun
    | .userId => some (.str userId)
    | .firstName => some firstName
    | .lastName => some lastName
    | .userName => some userName
    | .mobileNumber => some mobileNumber
    | .password => some (.str hash)
    | .email => some (.str email)
    | .createdOn => some createdOn

-- hashPassword runs inside the findOne callback: what it throws is caught by
-- no promise.
def createUser (pkg : Packages) (req : Request) : Async (Doc UserField) := fun resolve reject =>
  UserModel.call (.findOne .email (req.body.get "email")) fun
    | .error _ => reject (.api (generate true "Failed To Create User" 500 .null))
    | .ok retrievedUserDetails =>
        whenFound retrievedUserDetails documentValue
          (.sample fun id =>
            match req.body.get "email" with
            | .str email =>
                .sample fun random =>
                  match hashPassword pkg (req.body.get "password") random.salt with
                  | .error _ => .crash
                  | .ok hash =>
                      .sample fun at_ =>
                        UserModel.call (.insert (newUser pkg req id.shortid (toLowerCase email) hash (timeNow at_))) fun
                          | .error _ => reject (.api (generate true "Failed to create new User" 500 .null))
                          | .ok newUserDetail => resolve newUserDetail
            | _ => .crash)
          fun _ => reject (.api (generate true "User Already Present With this Email" 403 .null))

end SignUpUser

def signUpUser (pkg : Packages) (req : Request) : Process :=
  Promise.finish (Promise.andThen (SignUpUser.validateUserInput req) fun _ => SignUpUser.createUser pkg req)
    (fun newUserDetail => send (generate false "user created" 200 (.details (without newUserDetail.row [.password]))))
    (fun error => send (generate true error.message 500 .null))

namespace LogInUser

def findUser (req : Request) : Async (Doc UserField) := fun resolve reject =>
  if Js.truthy (req.body.get "email") then
    UserModel.call (.findOne .email (req.body.get "email")) fun
      | .error _ => rejectShared reject (generate true "failed to find user detail" 500 .null)
      | .ok userDetails =>
          whenFound userDetails documentValue (rejectShared reject (generate true "no user details found" 404 .null)) resolve
  else rejectShared reject (generate true "email is missing" 400 .null)

def validatePassword (req : Request) (retrievedUserDetails : Doc UserField) : Async (Row UserField) := fun resolve reject =>
  .call (.compare (req.body.get "password") (hydrateUser retrievedUserDetails.row .password)) fun
    | .error _ => rejectShared reject (generate true "login failed" 500 .null)
    | .ok true => resolve (without (hydrateUser retrievedUserDetails.row) [.password, .createdOn])
    | .ok false => rejectShared reject (generate true "wrong password.login failed" 400 .null)

structure Session where
  tokenDetails : TokenDetails
  userDetails : Row UserField

def generateToken (pkg : Packages) (userDetails : Row UserField) : Async Session := fun resolve reject =>
  Planner.generateToken pkg userDetails fun
    | .error _ => rejectShared reject (generate true "failed to generate token" 500 .null)
    | .ok tokenDetails => resolve ⟨tokenDetails, userDetails⟩

def Session.userId (session : Session) : Option String := text (session.userDetails .userId)

def idScalar : Option String → Scalar
  | none => .null
  | some s => .str s

def tokenPaths (session : Session) (at_ : Ambient) : Row AuthField
  | .userId => none
  | .authToken => some (.str session.tokenDetails.token)
  | .tokenSecret => some (.str session.tokenDetails.tokenSecret)
  | .tokenGenerationTime => some (timeNow at_)

def newAuth (session : Session) (at_ : Ambient) : Row AuthField
  | .userId => some (idScalar session.userId)
  | path => tokenPaths session at_ path

structure Granted where
  authToken : Option String
  userDetails : Row UserField

def saveToken (session : Session) : Async Granted := fun resolve reject =>
  authModel.call (.findOne .userId (idScalar session.userId).value) fun
    | .error err => rejectShared reject (generate true err 500 .null)
    | .ok retrievedTokenDetails =>
        whenFound retrievedTokenDetails documentValue
          (.sample fun at_ =>
            authModel.call (.insert (.ok (newAuth session at_))) fun
              | .error err => rejectShared reject (generate true err 500 .null)
              | .ok newTokenDetails => resolve ⟨text (newTokenDetails.row .authToken), session.userDetails⟩)
          fun retrieved =>
            .sample fun at_ =>
              authModel.call (.resave retrieved (tokenPaths session at_)) fun
                | .error _ => rejectShared reject (generate true "error while updating auth token" 500 .null)
                | .ok newTokenDetails => resolve ⟨text (newTokenDetails.row .authToken), session.userDetails⟩

-- A rejection without a status makes res.send throw in the catch handler.
def respondError : Body → Process
  | .thrown _ => .crash
  | .api error =>
      .assign (.api (generate true error.message error.status .null)) (.fetch fun body => .emit (.send error.status body) .halt)

end LogInUser

def logInUser (pkg : Packages) (req : Request) : Process :=
  Promise.finish
    (Promise.andThen (Promise.andThen (Promise.andThen (LogInUser.findUser req) (LogInUser.validatePassword req))
      (LogInUser.generateToken pkg)) LogInUser.saveToken)
    (fun granted =>
      .assign (.api (generate false "login successfull" 200 (.session granted.authToken granted.userDetails)))
        (.fetch fun body => .emit (.send 200 body) .halt))
    LogInUser.respondError

def logout (userId : Option String) : Process :=
  authModel.call (.findOneAndRemove .userId (LogInUser.idScalar userId).value) fun
    | .error err => send (generate true ("error occurred: " ++ err) 500 .null)
    | .ok result =>
        whenFound result documentValue (send (generate true "Already Logged Out or Invalid UserId" 404 .null))
          fun _ => send (generate false "Logged Out Successfully" 200 .null)

def getAllUsers : Process :=
  UserModel.call (.find none) fun
    | .error _ => send (generate true "Failed To Find User Details" 500 .null)
    | .ok docs =>
        let result := docs.map fun doc => without doc.row [.password]
        match isEmpty (.arr (result.map leanValue)) with
        | .error _ => .crash
        | .ok true => send (generate true "No User Found" 404 .null)
        | .ok false => send (generate false "All User Details Found" 200 (.users result))

def getUserById (req : Request) : Process :=
  UserModel.call (.findOne .userId (req.param "userId")) fun
    | .error _ => send (generate true "Failed To Find User Details" 500 .null)
    | .ok found =>
        whenFound (found.map fun doc => without doc.row [.password]) leanValue (send (generate true "No User Found" 404 .null))
          fun result => send (generate false "User Details Found" 200 (.details result))

def deleteUserById (req : Request) : Process :=
  UserModel.call (.findOneAndRemove .userId (req.param "userId")) fun
    | .error _ => send (generate true "Failed To delete user" 500 .null)
    | .ok found =>
        whenFound found documentValue (send (generate false "No User Found" 404 .null)) fun result =>
          send (generate false "Deleted the user successfully" 200
            (.user ⟨result.id, without (hydrateUser result.row) [.password]⟩))

def editUser (pkg : Packages) (req : Request) : Process :=
  UserModel.call (.update .userId (req.param "userId") (pkg.userChange req.body)) fun
    | .error _ => send (generate true "Failed To edit user details" 500 .null)
    | .ok result =>
        whenFound (some result) replyValue (send (generate true "No User Found" 404 .null))
          fun reply => send (generate false "User details edited" 200 (.reply reply))

namespace RecoverForgotPassword

def validateUserInput (req : Request) : Async Unit := fun resolve reject =>
  if Js.truthy (req.param "email") then
    match Email (req.param "email") with
    | .error thrown => reject (.thrown thrown)
    | .ok false => rejectShared reject (generate true "email does not met the requirement" 400 .null)
    | .ok true => resolve ()
  else rejectShared reject (generate true "Email is missing" 400 .null)

def findUser (req : Request) : Async (Row UserField) := fun resolve reject =>
  UserModel.call (.findOne .email (req.param "email")) fun
    | .error _ => reject (.api (generate true "Failed To Find User Details" 500 .null))
    | .ok found =>
        whenFound (found.map Doc.row) leanValue
          (reject (.api (generate true "No User Found with given email" 404 .null))) resolve

def html (userName newPassword : String) : String :=
  "<h5> Hi " ++ userName ++ "</h5>
                                <pre>
-----It seems you have forgot your password of Meeting-planner------
No worries , You have been provided a new password in replace to your
old password.
    
Your new password is -->" ++ newPassword ++ "<--
    
***** Keep visiting Meeting-planner****                                
</pre>"

def withPassword (userDetail : Row UserField) (hash : String) : Row UserField
  | .password => some (.str hash)
  | path => userDetail path

def mail (pkg : Packages) (req : Request) (userDetail : Row UserField) (newPassword : String) : Mail where
  email := (req.params "email").map Scalar.str
  subject := "Reset Password for Meeting-Planner "
  html := html (scalarText pkg (userDetail .userName)) newPassword

-- The whole record read before is written back, under the requested email.
def generateAndSaveNewPassword (pkg : Packages) (req : Request) (found : Row UserField) : Async Response := fun resolve reject =>
  .sample fun random => .sample fun salted =>
    match hashPassword pkg (.str random.password) salted.salt with
    | .error thrown => reject (.thrown thrown)
    | .ok hash =>
        let userDetail := withPassword found hash
        UserModel.call (.update .email (req.param "email") (.apply (overlay userDetail))) fun
          | .error _ => reject (.api (generate true "Failed To reset Password" 500 .null))
          | .ok result =>
              whenFound (some result) replyValue (reject (.api (generate true "No User with email Found" 404 .null))) fun reply =>
                .emit (.mail (mail pkg req userDetail random.password))
                  (resolve (generate false "reset password successfull" 200 (.reply reply)))

end RecoverForgotPassword

def recoverForgotPassword (pkg : Packages) (req : Request) : Process :=
  Promise.finish
    (Promise.andThen (Promise.andThen (RecoverForgotPassword.validateUserInput req) fun _ => RecoverForgotPassword.findUser req)
      (RecoverForgotPassword.generateAndSaveNewPassword pkg req))
    (fun response => .emit (.send 200 (.api response)) .halt)
    (fun error => .emit (.send 200 error) .halt)

end Planner
