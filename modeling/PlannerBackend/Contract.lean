import PlannerBackend.UserRules
import PlannerBackend.MeetingRules

set_option autoImplicit false

namespace Planner

open Docs Resume

def isSend : Note sig → Bool
  | .said (.send _ _) => true
  | _ => false

def isMail : Note sig → Bool
  | .said (.mail _) => true
  | _ => false

def isWritten : Note sig → Bool
  | .asked op ans => wrote op ans
  | .said _ => false

-- So far the request has neither answered nor left anything behind.
def Clean (h : History sig) : Prop := ∀ note ∈ h, isSend note = false ∧ isMail note = false ∧ isWritten note = false

def Authorised (h : History sig) : Prop := ∃ userId, .said (.authorised userId) ∈ h

-- The request found a user record and bcrypt accepted the submitted password
-- against the hash stored in it.
def Checked (req : Request) (h : History sig) (userId : Option String) : Prop :=
  ∃ doc : Doc UserField, .asked (.users (.findOne .email (req.body.get "email"))) (.ok (some doc)) ∈ h ∧
    .asked (.compare (req.body.get "password") (hydrateUser doc.row .password)) (.ok true) ∈ h ∧ userIdOf doc.row = userId

def checkedBy (req : Request) (doc : Doc UserField) : History sig :=
  [.asked (.compare (req.body.get "password") (hydrateUser doc.row .password)) (.ok true),
    .asked (.users (.findOne .email (req.body.get "email"))) (.ok (some doc))]

structure Issued (pkg : Packages) (req : Request) (h : History sig) (session : LogInUser.Session) : Prop where
  checked : ∃ doc, h = checkedBy req doc ∧ session.userDetails = without (hydrateUser doc.row) [.password, .createdOn]
  signed : ∃ id iat exp, pkg.jwtSign (claimsFor id iat exp session.userDetails) secretKey = .ok session.tokenDetails.token
  secret : session.tokenDetails.tokenSecret = secretKey

def lookupByUserId (userId : Option String) (found : Option (Doc AuthField)) : Note sig :=
  .asked (.auths (.findOne .userId (LogInUser.idScalar userId).value)) (.ok found)

-- The whole history of a request at the moment isAuthorized has let it through.
def Passed (pkg : Packages) (http : HttpRequest) (userId : Option String) (h : History sig) : Prop :=
  ∃ (auth : Doc AuthField) (now : Nat) (decoded : Claims),
    h = [.said (.authorised userId), .asked (.auths (.findOne .authToken (presentedToken (requestOf http)))) (.ok (some auth))] ∧
    verifyClaim pkg (text (auth.row .authToken)) (text (auth.row .tokenSecret)) now = some decoded ∧
    text (decoded.data .userId) = userId

def recoveredRow (pkg : Packages) (doc : Doc UserField) (password salt : String) : Row UserField :=
  RecoverForgotPassword.withPassword doc.row (pkg.bcryptHash password salt)

def mayAsk (pkg : Packages) (http : HttpRequest) (h : History sig) : Op → Prop
  | .users (.insert _) => endpointOf http = some .signUpUser
  | .users (.update _ _ _) => endpointOf http = some .recoverForgotPassword ∨ endpointOf http = some .editUser ∧ Authorised h
  | .users (.findOneAndRemove _ _) => endpointOf http = some .deleteUserById ∧ Authorised h
  | .users (.resave _ _) => False
  | .meetings cmd => isWrite cmd = true → Authorised h
  | .auths (.insert row) => endpointOf http = some .logInUser ∧ ∃ session at_ rest, row = .ok (LogInUser.newAuth session at_) ∧
      h = lookupByUserId session.userId none :: rest ∧ Issued pkg (requestOf http) rest session
  | .auths (.resave doc paths) => endpointOf http = some .logInUser ∧ ∃ session at_ rest,
      paths = LogInUser.tokenPaths session at_ ∧ h = lookupByUserId session.userId (some doc) :: rest ∧
      Issued pkg (requestOf http) rest session
  | .auths (.findOneAndRemove path value) => endpointOf http = some .logout ∧ path = .userId ∧
      ∃ userId, Passed pkg http userId h ∧ value = (LogInUser.idScalar userId).value
  | .auths (.update _ _ _) => False
  | _ => True

def reads : Endpoint → Bool
  | .getAllUsers => true
  | .getUserById => true
  | .getAllMeetingsOfUser => true
  | .getMeetingByMeetingId => true
  | _ => false

-- What a request has done by the time it reports success.
inductive Effect (pkg : Packages) (http : HttpRequest) : History sig → Response → Prop where
  | created (row : Except String (Row UserField)) (doc : Doc UserField) (rest : History sig)
      (route : endpointOf http = some .signUpUser) (clean : Clean rest) :
      Effect pkg http (.asked (.users (.insert row)) (.ok doc) :: rest)
        (generate false "user created" 200 (.details (without doc.row [.password])))
  | granted (session : LogInUser.Session) (at_ : Ambient) (doc : Doc AuthField) (rest : History sig)
      (route : endpointOf http = some .logInUser) (issued : Issued pkg (requestOf http) rest session) :
      Effect pkg http
        (.asked (.auths (.insert (.ok (LogInUser.newAuth session at_)))) (.ok doc) :: lookupByUserId session.userId none :: rest)
        (generate false "login successfull" 200 (.session (text (doc.row .authToken)) session.userDetails))
  | renewed (session : LogInUser.Session) (at_ : Ambient) (auth doc : Doc AuthField) (rest : History sig)
      (route : endpointOf http = some .logInUser) (issued : Issued pkg (requestOf http) rest session) :
      Effect pkg http
        (.asked (.auths (.resave auth (LogInUser.tokenPaths session at_))) (.ok doc) ::
          lookupByUserId session.userId (some auth) :: rest)
        (generate false "login successfull" 200 (.session (text (doc.row .authToken)) session.userDetails))
  | loggedOut (userId : Option String) (doc : Doc AuthField) (rest : History sig)
      (route : endpointOf http = some .logout) (passed : Passed pkg http userId rest) :
      Effect pkg http
        (.asked (.auths (.findOneAndRemove .userId (LogInUser.idScalar userId).value)) (.ok (some doc)) :: rest)
        (generate false "Logged Out Successfully" 200 .null)
  | userDeleted (doc : Doc UserField) (rest : History sig) (route : endpointOf http = some .deleteUserById) (clean : Clean rest) :
      Effect pkg http
        (.asked (.users (.findOneAndRemove .userId ((requestOf http).param "userId"))) (.ok (some doc)) :: rest)
        (generate false "Deleted the user successfully" 200 (.user ⟨doc.id, without (hydrateUser doc.row) [.password]⟩))
  | userEdited (reply : UpdateReply) (rest : History sig) (route : endpointOf http = some .editUser) (clean : Clean rest) :
      Effect pkg http
        (.asked (.users (.update .userId ((requestOf http).param "userId") (pkg.userChange http.body))) (.ok reply) :: rest)
        (generate false "User details edited" 200 (.reply reply))
  | recovered (doc : Doc UserField) (password hash : String) (reply : UpdateReply) (rest : History sig)
      (route : endpointOf http = some .recoverForgotPassword) (clean : Clean rest) :
      Effect pkg http
        (.said (.mail
            (RecoverForgotPassword.mail pkg (requestOf http) (RecoverForgotPassword.withPassword doc.row hash) password)) ::
          .asked (.users (.update .email ((requestOf http).param "email")
            (.apply (overlay (RecoverForgotPassword.withPassword doc.row hash))))) (.ok reply) ::
          .asked (.users (.findOne .email ((requestOf http).param "email"))) (.ok (some doc)) :: rest)
        (generate false "reset password successfull" 200 (.reply reply))
  | meetingAdded (row : Except String (Row MeetingField)) (doc : Doc MeetingField) (rest : History sig)
      (route : endpointOf http = some .addMeeting) (clean : Clean rest) :
      Effect pkg http (.said (.mail (AddMeeting.mail pkg doc.row)) :: .asked (.meetings (.insert row)) (.ok doc) :: rest)
        (generate false "Meeting Created" 200 (.meetingDetails doc.row))
  | meetingUpdated (found : Doc MeetingField) (mail : Mail) (reply : UpdateReply) (rest : History sig)
      (route : endpointOf http = some .updateMeeting) (clean : Clean rest)
      (printed : UpdateMeeting.mail pkg found.row http.body = .ok mail) :
      Effect pkg http
        (.said (.mail mail) ::
          .asked (.meetings (.update .meetingId ((requestOf http).param "meetingId") (pkg.meetingChange http.body)))
            (.ok reply) ::
          .asked (.meetings (.findOne .meetingId ((requestOf http).param "meetingId"))) (.ok (some found)) :: rest)
        (generate false "Meeting Updated" 200 (.reply reply))
  | meetingDeleted (found doc : Doc MeetingField) (rest : History sig)
      (route : endpointOf http = some .deleteMeeting) (clean : Clean rest) :
      Effect pkg http
        (.said (.mail (DeleteMeeting.mail pkg found.row)) ::
          .asked (.meetings (.findOneAndRemove .meetingId ((requestOf http).param "meetingId"))) (.ok (some doc)) ::
          .asked (.meetings (.findOne .meetingId ((requestOf http).param "meetingId"))) (.ok (some found)) :: rest)
        (generate false "Deleted Meeting successfully" 200 (.meeting ⟨doc.id, hydrateMeeting doc.row⟩))
  | shown (endpoint : Endpoint) (h : History sig) (message : String) (data : Data) (route : endpointOf http = some endpoint)
      (reading : reads endpoint = true) (clean : Clean h) : Effect pkg http h (generate false message 200 data)

inductive Reply (pkg : Packages) (http : HttpRequest) (h : History sig) : Body → Prop where
  | refused (response : Response) (bad : Refused response) (clean : Clean h) : Reply pkg http h (.api response)
  | nobody (route : endpointOf http = some .deleteUserById) (clean : Clean h) :
      Reply pkg http h (.api (generate false "No User Found" 404 .null))
  | done (response : Response) (effect : Effect pkg http h response) : Reply pkg http h (.api response)

-- The two places where an exception leaves a database callback.
inductive Escape (pkg : Packages) (http : HttpRequest) : History sig → Prop where
  | hashing (rest : History sig) (route : endpointOf http = some .signUpUser)
      (odd : Js.isString (http.body.get "password") = false) (clean : Clean rest) :
      Escape pkg http (.asked (.users (.findOne .email (http.body.get "email"))) (.ok none) :: rest)
  | printing (found : Doc MeetingField) (thrown : Js.Thrown) (reply : UpdateReply) (rest : History sig)
      (route : endpointOf http = some .updateMeeting) (odd : UpdateMeeting.mail pkg found.row http.body = .error thrown)
      (clean : Clean rest) :
      Escape pkg http
        (.asked (.meetings (.update .meetingId ((requestOf http).param "meetingId") (pkg.meetingChange http.body))) (.ok reply) ::
          .asked (.meetings (.findOne .meetingId ((requestOf http).param "meetingId"))) (.ok (some found)) :: rest)

def mayTell (pkg : Packages) (http : HttpRequest) (h : History sig) : Out → Prop
  | .authorised userId => Clean h ∧ ∃ (auth : Doc AuthField) (now : Nat) (decoded : Claims),
      .asked (.auths (.findOne .authToken (presentedToken (requestOf http)))) (.ok (some auth)) ∈ h ∧
      verifyClaim pkg (text (auth.row .authToken)) (text (auth.row .tokenSecret)) now = some decoded ∧
      text (decoded.data .userId) = userId
  | .mail _ => ∃ write rest, h = write :: rest ∧ isWritten write = true ∧ Clean rest
  | .send _ body => Reply pkg http h body

def contract (pkg : Packages) (http : HttpRequest) : Spec sig where
  asks := fun h op => Clean h ∧ mayAsk pkg http h op
  tells := mayTell pkg http
  ends := fun h => ∃ status body past, h = .said (.send status body) :: past ∧ Reply pkg http past body
  breaks := Escape pkg http

-- Every command that a request can ask, with all that it has done before.
inductive Asks (pkg : Packages) (http : HttpRequest) : History sig → Op → Prop where
  | token (endpoint : Endpoint) (route : endpointOf http = some endpoint) (isGuarded : guarded endpoint = true) :
      Asks pkg http [] (.auths (.findOne .authToken (presentedToken (requestOf http))))
  | account (endpoint : Endpoint) (route : endpointOf http = some endpoint)
      (enters : endpoint = .signUpUser ∨ endpoint = .logInUser) :
      Asks pkg http [] (.users (.findOne .email (http.body.get "email")))
  | signUp (row : Except String (Row UserField)) (route : endpointOf http = some .signUpUser)
      (made : SignUpRow pkg (requestOf http) row) :
      Asks pkg http [.asked (.users (.findOne .email (http.body.get "email"))) (.ok none)] (.users (.insert row))
  | password (doc : Doc UserField) (route : endpointOf http = some .logInUser) :
      Asks pkg http [.asked (.users (.findOne .email (http.body.get "email"))) (.ok (some doc))]
        (.compare (http.body.get "password") (hydrateUser doc.row .password))
  | session (session : LogInUser.Session) (h : History sig) (route : endpointOf http = some .logInUser)
      (issued : Issued pkg (requestOf http) h session) :
      Asks pkg http h (.auths (.findOne .userId (LogInUser.idScalar session.userId).value))
  | grant (session : LogInUser.Session) (at_ : Ambient) (rest : History sig) (route : endpointOf http = some .logInUser)
      (issued : Issued pkg (requestOf http) rest session) :
      Asks pkg http (lookupByUserId session.userId none :: rest) (.auths (.insert (.ok (LogInUser.newAuth session at_))))
  | renew (session : LogInUser.Session) (at_ : Ambient) (auth : Doc AuthField) (rest : History sig)
      (route : endpointOf http = some .logInUser) (issued : Issued pkg (requestOf http) rest session) :
      Asks pkg http (lookupByUserId session.userId (some auth) :: rest) (.auths (.resave auth (LogInUser.tokenPaths session at_)))
  | logOut (userId : Option String) (h : History sig) (route : endpointOf http = some .logout)
      (passed : Passed pkg http userId h) :
      Asks pkg http h (.auths (.findOneAndRemove .userId (LogInUser.idScalar userId).value))
  | listUsers (userId : Option String) (h : History sig) (route : endpointOf http = some .getAllUsers)
      (passed : Passed pkg http userId h) :
      Asks pkg http h (.users (.find none))
  | showUser (userId : Option String) (h : History sig) (route : endpointOf http = some .getUserById)
      (passed : Passed pkg http userId h) :
      Asks pkg http h (.users (.findOne .userId ((requestOf http).param "userId")))
  | removeUser (userId : Option String) (h : History sig) (route : endpointOf http = some .deleteUserById)
      (passed : Passed pkg http userId h) : Asks pkg http h (.users (.findOneAndRemove .userId ((requestOf http).param "userId")))
  | editUser (userId : Option String) (h : History sig) (route : endpointOf http = some .editUser)
      (passed : Passed pkg http userId h) :
      Asks pkg http h (.users (.update .userId ((requestOf http).param "userId") (pkg.userChange http.body)))
  | recover (route : endpointOf http = some .recoverForgotPassword) :
      Asks pkg http [] (.users (.findOne .email ((requestOf http).param "email")))
  | reset (doc : Doc UserField) (password salt : String) (route : endpointOf http = some .recoverForgotPassword) :
      Asks pkg http [.asked (.users (.findOne .email ((requestOf http).param "email"))) (.ok (some doc))]
        (.users (.update .email ((requestOf http).param "email") (.apply (overlay (recoveredRow pkg doc password salt)))))
  | addMeeting (userId : Option String) (h : History sig) (id : String) (createdOn : Scalar)
      (route : endpointOf http = some .addMeeting)
      (passed : Passed pkg http userId h) (complete : Complete (requestOf http)) :
      Asks pkg http h (.meetings (.insert (AddMeeting.newMeeting pkg (requestOf http) id createdOn)))
  | findMeeting (userId : Option String) (h : History sig) (endpoint : Endpoint) (route : endpointOf http = some endpoint)
      (passed : Passed pkg http userId h)
      (looks : endpoint = .updateMeeting ∨ endpoint = .deleteMeeting ∨ endpoint = .getMeetingByMeetingId) :
      Asks pkg http h (.meetings (.findOne .meetingId ((requestOf http).param "meetingId")))
  | updateMeeting (userId : Option String) (h : History sig) (found : Doc MeetingField)
      (route : endpointOf http = some .updateMeeting)
      (passed : Passed pkg http userId h) :
      Asks pkg http (.asked (.meetings (.findOne .meetingId ((requestOf http).param "meetingId"))) (.ok (some found)) :: h)
        (.meetings (.update .meetingId ((requestOf http).param "meetingId") (pkg.meetingChange http.body)))
  | removeMeeting (userId : Option String) (h : History sig) (found : Doc MeetingField)
      (route : endpointOf http = some .deleteMeeting)
      (passed : Passed pkg http userId h) :
      Asks pkg http (.asked (.meetings (.findOne .meetingId ((requestOf http).param "meetingId"))) (.ok (some found)) :: h)
        (.meetings (.findOneAndRemove .meetingId ((requestOf http).param "meetingId")))
  | listMeetings (userId : Option String) (h : History sig) (route : endpointOf http = some .getAllMeetingsOfUser)
      (passed : Passed pkg http userId h) :
      Asks pkg http h (.meetings (.find (some (.participantId, (requestOf http).param "userId"))))

-- Everything that a request can tell, with all that it has done before.
inductive Tells (pkg : Packages) (http : HttpRequest) : History sig → Out → Prop where
  | authorised (auth : Doc AuthField) (now : Nat) (decoded : Claims)
      (checked : verifyClaim pkg (text (auth.row .authToken)) (text (auth.row .tokenSecret)) now = some decoded) :
      Tells pkg http [.asked (.auths (.findOne .authToken (presentedToken (requestOf http)))) (.ok (some auth))]
        (.authorised (text (decoded.data .userId)))
  | recovered (doc : Doc UserField) (password salt : String) (reply : UpdateReply)
      (route : endpointOf http = some .recoverForgotPassword) :
      Tells pkg http
        [.asked (.users (.update .email ((requestOf http).param "email")
            (.apply (overlay (recoveredRow pkg doc password salt))))) (.ok reply),
          .asked (.users (.findOne .email ((requestOf http).param "email"))) (.ok (some doc))]
        (.mail (RecoverForgotPassword.mail pkg (requestOf http) (recoveredRow pkg doc password salt) password))
  | scheduled (userId : Option String) (h : History sig) (row : Except String (Row MeetingField)) (doc : Doc MeetingField)
      (route : endpointOf http = some .addMeeting) (passed : Passed pkg http userId h) :
      Tells pkg http (.asked (.meetings (.insert row)) (.ok doc) :: h) (.mail (AddMeeting.mail pkg doc.row))
  | updated (userId : Option String) (h : History sig) (found : Doc MeetingField) (reply : UpdateReply) (mail : Mail)
      (route : endpointOf http = some .updateMeeting) (passed : Passed pkg http userId h)
      (printed : UpdateMeeting.mail pkg found.row http.body = .ok mail) :
      Tells pkg http
        (.asked (.meetings (.update .meetingId ((requestOf http).param "meetingId") (pkg.meetingChange http.body))) (.ok reply) ::
          .asked (.meetings (.findOne .meetingId ((requestOf http).param "meetingId"))) (.ok (some found)) :: h)
        (.mail mail)
  | canceled (userId : Option String) (h : History sig) (found doc : Doc MeetingField)
      (route : endpointOf http = some .deleteMeeting)
      (passed : Passed pkg http userId h) :
      Tells pkg http
        (.asked (.meetings (.findOneAndRemove .meetingId ((requestOf http).param "meetingId"))) (.ok (some doc)) ::
          .asked (.meetings (.findOne .meetingId ((requestOf http).param "meetingId"))) (.ok (some found)) :: h)
        (.mail (DeleteMeeting.mail pkg found.row))
  | answered (status : Nat) (body : Body) (h : History sig) (reply : Reply pkg http h body) : Tells pkg http h (.send status body)

-- The one walk over the endpoints; the other specifications follow from it.
def script (pkg : Packages) (http : HttpRequest) : Spec sig where
  asks := Asks pkg http
  tells := Tells pkg http
  ends := fun h => ∃ status body past, h = .said (.send status body) :: past ∧ Reply pkg http past body
  breaks := Escape pkg http

theorem clean_nil : Clean [] := by
  intro note member
  cases member

theorem clean_asked (op : Op) (ans : Answer op) (h : History sig) (idle : wrote op ans = false) (clean : Clean h) :
    Clean (.asked op ans :: h) := by
  intro note member
  rcases List.mem_cons.mp member with rfl | older
  · exact ⟨rfl, rfl, idle⟩
  · exact clean note older

theorem clean_authorised (userId : Option String) (h : History sig) (clean : Clean h) :
    Clean (.said (.authorised userId) :: h) := by
  intro note member
  rcases List.mem_cons.mp member with rfl | older
  · exact ⟨rfl, rfl, rfl⟩
  · exact clean note older

theorem clean_quiet (past h : History sig) (quiet : Quiet past h) (clean : Clean past) : Clean h := by
  induction quiet with
  | here => exact clean
  | asked op ans h quiet idle ih => exact clean_asked op ans h idle ih

section Endpoints

variable (pkg : Packages) (http : HttpRequest)

theorem passed_told (userId : Option String) (h : History sig) (passed : Passed pkg http userId h) :
    .said (.authorised userId) ∈ h := by
  obtain ⟨auth, now, decoded, rfl, _⟩ := passed
  simp

theorem passed_clean (userId : Option String) (h : History sig) (passed : Passed pkg http userId h) : Clean h := by
  obtain ⟨auth, now, decoded, rfl, _⟩ := passed
  exact clean_authorised userId _ (clean_asked _ _ [] rfl clean_nil)

theorem issued_clean (req : Request) (h : History sig) (session : LogInUser.Session) (issued : Issued pkg req h session) :
    Clean h := by
  obtain ⟨doc, rfl, _⟩ := issued.checked
  exact clean_asked _ _ _ rfl (clean_asked _ _ [] rfl clean_nil)

theorem issued_account (req : Request) (h : History sig) (session : LogInUser.Session) (issued : Issued pkg req h session) :
    ∃ doc, h = checkedBy req doc ∧ userIdOf doc.row = session.userId := by
  obtain ⟨doc, shape, details⟩ := issued.checked
  refine ⟨doc, shape, ?_⟩
  rw [LogInUser.Session.userId, details]
  rfl

theorem issued_checked (req : Request) (h : History sig) (session : LogInUser.Session) (issued : Issued pkg req h session) :
    Checked req h session.userId := by
  obtain ⟨doc, rfl, named⟩ := issued_account pkg req h session issued
  exact ⟨doc, by simp [checkedBy], by simp [checkedBy], named⟩

theorem script_send (status : Nat) (body : Body) (known : Option Body) (h : History sig) (reply : Reply pkg http h body) :
    Meets (script pkg http) (.emit (.send status body) .halt) known h :=
  ⟨.answered status body h reply, status, body, h, rfl, reply⟩

theorem script_refuse (past : History sig) (clean : Clean past) (h : History sig) (response : Response)
    (quiet : Quiet past h) (bad : Refused response) (known : Option Body) :
    Meets (script pkg http) (send response) known h :=
  script_send pkg http 200 _ known h (.refused response bad (clean_quiet past h quiet clean))

theorem script_respond_error (past : History sig) (clean : Clean past) (h : History sig) (response : Response)
    (quiet : Quiet past h) (bad : Refused response) (known : Option Body) :
    Meets (script pkg http) (LogInUser.respondError (.api response)) known h := by
  apply (meets_assign_fetch (script pkg http) _ _ known h).mpr
  exact script_send pkg http _ _ _ h (.refused _ ⟨rfl, bad.2.1, rfl⟩ (clean_quiet past h quiet clean))

theorem script_guarded (endpoint : Endpoint) (route : endpointOf http = some endpoint) (isGuarded : guarded endpoint = true)
    (next : Option String → Process)
    (rest : ∀ userId h, Passed pkg http userId h → Meets (script pkg http) (next userId) none h) :
    Meets (script pkg http) (isAuthorized pkg (requestOf http) next) none [] := by
  apply is_authorized_rule
  · exact script_refuse pkg http [] clean_nil
  · exact .token endpoint route isGuarded
  · intro auth now decoded checked
    exact ⟨.authorised auth now decoded checked, rest _ _ ⟨auth, now, decoded, rfl, checked, rfl⟩⟩

theorem script_sign_up (route : endpointOf http = some .signUpUser) :
    Meets (script pkg http) (signUpUser pkg (requestOf http)) none [] := by
  simp only [signUpUser, Promise.finish]
  apply sign_up_chain
  · intro h body quiet known
    exact script_refuse pkg http [] clean_nil h _ quiet (refused_generate _ 500 rfl) none
  · exact .account _ route (.inl rfl)
  · intro odd
    exact .hashing [] route odd clean_nil
  · intro row made
    exact .signUp row route made
  · intro row doc
    exact script_send pkg http 200 _ none _ (.done _ (.created row doc _ route (clean_asked _ _ [] rfl clean_nil)))

theorem script_log_in (route : endpointOf http = some .logInUser) :
    Meets (script pkg http) (logInUser pkg (requestOf http)) none [] := by
  simp only [logInUser, Promise.finish]
  apply log_in_chain
  · intro h response quiet bad known
    exact script_respond_error pkg http [] clean_nil h response quiet bad none
  · exact .account _ route (.inr rfl)
  · intro doc
    exact .password doc route
  · intro doc id iat exp token signed
    have issued : Issued pkg (requestOf http) (checkedBy (requestOf http) doc)
        ⟨⟨token, secretKey⟩, without (hydrateUser doc.row) [.password, .createdOn]⟩ :=
      ⟨⟨doc, rfl, rfl⟩, ⟨id, iat, exp, signed⟩, rfl⟩
    refine ⟨.session _ _ route issued, ?_, ?_, ?_, ?_⟩
    · intro at_
      exact .grant _ at_ _ route issued
    · intro auth at_
      exact .renew _ at_ auth _ route issued
    · intro at_ stored
      apply (meets_assign_fetch (script pkg http) _ _ none _).mpr
      exact script_send pkg http 200 _ _ _ (.done _ (.granted _ at_ stored _ route issued))
    · intro auth at_ stored
      apply (meets_assign_fetch (script pkg http) _ _ none _).mpr
      exact script_send pkg http 200 _ _ _ (.done _ (.renewed _ at_ auth stored _ route issued))

theorem script_recover (route : endpointOf http = some .recoverForgotPassword) :
    Meets (script pkg http) (recoverForgotPassword pkg (requestOf http)) none [] := by
  simp only [recoverForgotPassword, Promise.finish]
  apply recover_chain
  · intro h response quiet bad known
    exact script_refuse pkg http [] clean_nil h response quiet bad none
  · exact .recover route
  · intro doc password salt
    exact .reset doc password salt route
  · intro doc password salt reply
    exact ⟨.recovered doc password salt reply route, script_send pkg http 200 _ none _
      (.done _ (.recovered doc password _ reply [] route clean_nil))⟩

section Guarded

variable (userId : Option String) (h : History sig) (passed : Passed pkg http userId h)

include passed

theorem script_add_meeting (route : endpointOf http = some .addMeeting) :
    Meets (script pkg http) (addMeeting pkg (requestOf http)) none h := by
  have clean := passed_clean pkg http userId h passed
  simp only [addMeeting, Promise.finish]
  apply add_meeting_chain
  · intro later response quiet bad known
    exact script_refuse pkg http h clean later response quiet bad none
  · intro complete id createdOn
    exact .addMeeting userId h id createdOn route passed complete
  · intro row doc
    exact ⟨.scheduled userId h row doc route passed,
      script_send pkg http 200 _ none _ (.done _ (.meetingAdded row doc h route clean))⟩

theorem script_update_meeting (route : endpointOf http = some .updateMeeting) :
    Meets (script pkg http) (updateMeeting pkg (requestOf http)) none h := by
  have clean := passed_clean pkg http userId h passed
  simp only [updateMeeting, Promise.finish]
  apply update_meeting_chain
  · intro later response quiet bad known
    exact script_refuse pkg http h clean later response quiet bad none
  · exact .findMeeting userId h _ route passed (.inl rfl)
  · intro found
    exact .updateMeeting userId h found route passed
  · intro found reply thrown odd
    exact .printing found thrown reply h route odd clean
  · intro found reply mail printed
    exact ⟨.updated userId h found reply mail route passed printed, script_send pkg http 200 _ none _
      (.done _ (.meetingUpdated found mail reply h route clean printed))⟩

theorem script_delete_meeting (route : endpointOf http = some .deleteMeeting) :
    Meets (script pkg http) (deleteMeeting pkg (requestOf http)) none h := by
  have clean := passed_clean pkg http userId h passed
  simp only [deleteMeeting, Promise.finish]
  apply delete_meeting_chain
  · intro later response quiet bad known
    exact script_refuse pkg http h clean later response quiet bad none
  · exact .findMeeting userId h _ route passed (.inr (.inl rfl))
  · intro found
    exact .removeMeeting userId h found route passed
  · intro found removed
    exact ⟨.canceled userId h found removed route passed, script_send pkg http 200 _ none _
      (.done _ (.meetingDeleted found removed h route clean))⟩

theorem script_get_meetings (route : endpointOf http = some .getAllMeetingsOfUser) :
    Meets (script pkg http) (getAllMeetingsOfUser (requestOf http)) none h := by
  have clean := passed_clean pkg http userId h passed
  simp only [getAllMeetingsOfUser, Promise.finish]
  apply get_meetings_chain
  · intro later response quiet bad known
    exact script_refuse pkg http h clean later response quiet bad none
  · exact .listMeetings userId h route passed
  · intro docs
    exact script_send pkg http 200 _ none _ (.done _ (.shown _ _ _ _ route rfl (clean_asked _ _ h rfl clean)))

theorem controller_script (endpoint : Endpoint) (route : endpointOf http = some endpoint) (isGuarded : guarded endpoint = true) :
    Meets (script pkg http) (controller pkg (requestOf http) userId endpoint) none h := by
  have clean := passed_clean pkg http userId h passed
  have refuse := script_refuse pkg http h clean
  have show_ : ∀ (op : Op) (ans : Answer op) message data, wrote op ans = false → reads endpoint = true →
      Meets (script pkg http) (send (generate false message 200 data)) none (.asked op ans :: h) :=
    fun op ans message data idle reading =>
      script_send pkg http 200 _ none _ (.done _ (.shown endpoint _ message data route reading (clean_asked op ans h idle clean)))
  cases endpoint with
  | signUpUser | logInUser | recoverForgotPassword => cases isGuarded
  | logout =>
      apply logout_rule (script pkg http) none h userId (.logOut userId h route passed) refuse
      intro doc
      exact script_send pkg http 200 _ none _ (.done _ (.loggedOut userId doc h route passed))
  | getAllUsers => exact get_all_users_rule _ none h (.listUsers userId h route passed) refuse fun _ _ => show_ _ _ _ _ rfl rfl
  | getUserById => exact get_user_by_id_rule _ _ none h (.showUser userId h route passed) refuse fun _ _ => show_ _ _ _ _ rfl rfl
  | deleteUserById =>
      apply delete_user_rule (script pkg http) (requestOf http) none h (.removeUser userId h route passed) refuse
      · exact script_send pkg http 200 _ none _ (.nobody route (clean_asked _ _ h rfl clean))
      · intro doc
        exact script_send pkg http 200 _ none _ (.done _ (.userDeleted doc h route clean))
  | editUser =>
      apply edit_user_rule (script pkg http) pkg (requestOf http) none h (.editUser userId h route passed) refuse
      intro reply
      exact script_send pkg http 200 _ none _ (.done _ (.userEdited reply h route clean))
  | addMeeting => exact script_add_meeting pkg http userId h passed route
  | updateMeeting => exact script_update_meeting pkg http userId h passed route
  | deleteMeeting => exact script_delete_meeting pkg http userId h passed route
  | getAllMeetingsOfUser => exact script_get_meetings pkg http userId h passed route
  | getMeetingByMeetingId =>
      exact get_meeting_rule _ _ none h (.findMeeting userId h _ route passed (.inr (.inr rfl))) refuse fun _ _ =>
          show_ _ _ _ _ rfl rfl

end Guarded

theorem app_script : Meets (script pkg http) (app pkg http) none [] := by
  unfold app
  cases route : endpointOf http with
  | none => exact script_send pkg http 404 _ none [] (.refused _ (refused_generate _ 404 rfl) clean_nil)
  | some endpoint =>
      by_cases isGuarded : guarded endpoint = true
      · simp only [handle, if_pos isGuarded]
        apply script_guarded pkg http endpoint route isGuarded
        intro userId h passed
        exact controller_script pkg http userId h passed endpoint route isGuarded
      · simp only [handle, if_neg isGuarded]
        cases endpoint with
        | signUpUser => exact script_sign_up pkg http route
        | logInUser => exact script_log_in pkg http route
        | recoverForgotPassword => exact script_recover pkg http route
        | _ => exact absurd rfl isGuarded

theorem asks_clean (h : History sig) (op : Op) (asks : Asks pkg http h op) : Clean h := by
  have once (op : Op) (ans : Answer op) (idle : wrote op ans = false) : Clean [.asked op ans] :=
    clean_asked op ans [] idle clean_nil
  cases asks with
  | token | account | recover => exact clean_nil
  | signUp | password | reset => exact once _ _ rfl
  | session session h route issued => exact issued_clean pkg _ h session issued
  | grant session _ rest _ issued | renew session _ _ rest _ issued =>
      exact clean_asked _ _ _ rfl (issued_clean pkg _ rest session issued)
  | logOut userId _ _ passed | listUsers userId _ _ passed | showUser userId _ _ passed | removeUser userId _ _ passed
  | editUser userId _ _ passed | addMeeting userId _ _ _ _ passed | findMeeting userId _ _ _ passed
  | listMeetings userId _ _ passed =>
      exact passed_clean pkg http userId h passed
  | updateMeeting userId h found _ passed | removeMeeting userId h found _ passed =>
      exact clean_asked _ _ h rfl (passed_clean pkg http userId h passed)

theorem asks_allowed (h : History sig) (op : Op) (asks : Asks pkg http h op) : mayAsk pkg http h op := by
  cases asks with
  | token | account | password | session | listUsers | showUser | recover => trivial
  | signUp row route => exact route
  | grant session at_ rest route issued => exact ⟨route, session, at_, rest, rfl, rfl, issued⟩
  | renew session at_ auth rest route issued => exact ⟨route, session, at_, rest, rfl, rfl, issued⟩
  | logOut userId h route passed => exact ⟨route, rfl, userId, passed, rfl⟩
  | removeUser userId h route passed => exact ⟨route, userId, passed_told pkg http userId h passed⟩
  | editUser userId h route passed => exact .inr ⟨route, userId, passed_told pkg http userId h passed⟩
  | reset doc password salt route => exact .inl route
  | addMeeting userId h _ _ _ passed => exact fun _ => ⟨userId, passed_told pkg http userId h passed⟩
  | findMeeting | listMeetings =>
      intro write
      cases write
  | updateMeeting userId h found _ passed | removeMeeting userId h found _ passed =>
      exact fun _ => ⟨userId, List.mem_cons_of_mem _ (passed_told pkg http userId h passed)⟩

theorem tells_allowed (h : History sig) (out : Out) (tells : Tells pkg http h out) : mayTell pkg http h out := by
  cases tells with
  | authorised auth now decoded checked =>
      exact ⟨clean_asked _ _ [] rfl clean_nil, auth, now, decoded, List.mem_cons_self, checked, rfl⟩
  | recovered => exact ⟨_, _, rfl, rfl, clean_asked _ _ [] rfl clean_nil⟩
  | scheduled userId h _ _ _ passed => exact ⟨_, _, rfl, rfl, passed_clean pkg http userId h passed⟩
  | updated userId h _ _ _ _ passed | canceled userId h _ _ _ passed =>
      exact ⟨_, _, rfl, rfl, clean_asked _ _ h rfl (passed_clean pkg http userId h passed)⟩
  | answered status body h reply => exact reply

theorem app_contract (job : HttpRequest) : Meets (contract pkg job) (app pkg job) none [] :=
  meets_mono (script pkg job) (contract pkg job) (fun h op asks => ⟨asks_clean pkg job h op asks, asks_allowed pkg job h op asks⟩)
    (tells_allowed pkg job) (fun _ ended => ended) (fun _ escaped => escaped) _ none [] (app_script pkg job)

end Endpoints

end Planner
