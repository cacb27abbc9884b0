import PlannerBackend.Contract

set_option autoImplicit false

namespace Planner

open Docs Resume

-- The form of every command that writes a user or a meeting, with the reads
-- that decided it.
def mayWrite (pkg : Packages) (http : HttpRequest) (h : History sig) : Op → Prop
  | .users (.insert row) => endpointOf http = some .signUpUser ∧ SignUpRow pkg (requestOf http) row ∧
      h = [.asked (.users (.findOne .email (http.body.get "email"))) (.ok none)]
  | .users (.update path value change) =>
      endpointOf http = some .editUser ∧ path = .userId ∧ value = (requestOf http).param "userId" ∧
        change = pkg.userChange http.body ∨
      endpointOf http = some .recoverForgotPassword ∧ path = .email ∧ value = (requestOf http).param "email" ∧
        ∃ doc password salt, change = .apply (overlay (recoveredRow pkg doc password salt)) ∧
          h = [.asked (.users (.findOne .email value)) (.ok (some doc))]
  | .users (.findOneAndRemove path value) =>
      endpointOf http = some .deleteUserById ∧ path = .userId ∧ value = (requestOf http).param "userId"
  | .users (.resave _ _) => False
  | .meetings (.insert row) => endpointOf http = some .addMeeting ∧ Complete (requestOf http) ∧
      ∃ id createdOn, row = AddMeeting.newMeeting pkg (requestOf http) id createdOn
  | .meetings (.update path value change) => endpointOf http = some .updateMeeting ∧ path = .meetingId ∧
      value = (requestOf http).param "meetingId" ∧ change = pkg.meetingChange http.body
  | .meetings (.findOneAndRemove path value) => endpointOf http = some .deleteMeeting ∧ path = .meetingId ∧
      value = (requestOf http).param "meetingId"
  | .meetings (.resave _ _) => False
  | _ => True

-- A recovery mails the password whose hash it has just written.
def mayMail (pkg : Packages) (http : HttpRequest) (h : History sig) : Out → Prop
  | .mail mail => endpointOf http = some .recoverForgotPassword → ∃ doc password salt reply,
      mail = RecoverForgotPassword.mail pkg (requestOf http) (recoveredRow pkg doc password salt) password ∧
      h = [.asked (.users (.update .email ((requestOf http).param "email")
          (.apply (overlay (recoveredRow pkg doc password salt)))))
          (.ok reply),
        .asked (.users (.findOne .email ((requestOf http).param "email"))) (.ok (some doc))]
  | _ => True

def writing (pkg : Packages) (http : HttpRequest) : Spec sig where
  asks := mayWrite pkg http
  tells := mayMail pkg http
  ends := fun _ => True
  breaks := fun _ => True

theorem app_writing (pkg : Packages) (http : HttpRequest) : Meets (writing pkg http) (app pkg http) none [] := by
  apply meets_mono (script pkg http) _ _ _ (fun _ _ => trivial) (fun _ _ => trivial) _ none [] (app_script pkg http)
  · intro h op asks
    cases asks with
    | token | account | password | session | grant | renew | logOut | listUsers | showUser | recover
    | findMeeting | listMeetings => trivial
    | signUp row route made => exact ⟨route, made, rfl⟩
    | removeUser _ _ route => exact ⟨route, rfl, rfl⟩
    | editUser _ _ route => exact .inl ⟨route, rfl, rfl, rfl⟩
    | reset doc password salt route => exact .inr ⟨route, rfl, rfl, doc, password, salt, rfl, rfl⟩
    | addMeeting _ _ id createdOn route _ complete => exact ⟨route, complete, id, createdOn, rfl⟩
    | updateMeeting _ _ _ route => exact ⟨route, rfl, rfl, rfl⟩
    | removeMeeting _ _ _ route => exact ⟨route, rfl, rfl⟩
  · intro h out tells
    cases tells with
    | authorised | answered => trivial
    | recovered doc password salt reply => exact fun _ => ⟨doc, password, salt, reply, rfl, rfl⟩
    | scheduled _ _ _ _ route | updated _ _ _ _ _ route | canceled _ _ _ _ route =>
        intro recover
        cases route.symm.trans recover

theorem new_user_ok (pkg : Packages) (req : Request) (id email hash : String) (createdOn : Scalar) (row : Row UserField)
    (saved : SignUpUser.newUser pkg req id email hash createdOn = .ok row) :
    row .userId = some (.str id) ∧ row .email = some (.str email) ∧ row .password = some (.str hash) := by
  unfold SignUpUser.newUser at saved
  obtain ⟨firstName, _, saved⟩ := bind_ok _ _ _ saved
  obtain ⟨lastName, _, saved⟩ := bind_ok _ _ _ saved
  obtain ⟨userName, _, saved⟩ := bind_ok _ _ _ saved
  obtain ⟨mobileNumber, _, saved⟩ := bind_ok _ _ _ saved
  cases saved
  exact ⟨rfl, rfl, rfl⟩

-- Both specifications at once: what a request may do, and what it writes.
abbrev accounted (pkg : Packages) (http : HttpRequest) : Spec sig := (contract pkg http).and (writing pkg http)

theorem app_accounted (pkg : Packages) (http : HttpRequest) : Meets (accounted pkg http) (app pkg http) none [] :=
  meets_and _ _ _ none [] (app_contract pkg http) (app_writing pkg http)

end Planner
