import PlannerBackend.MeetingRules
import PlannerBackend.Reference
import PlannerBackend.Stages
import PlannerBackend.UserRules

set_option autoImplicit false

namespace Planner

open Docs Resume

-- The endpoints whose controller is a chain of promises.
inductive Staged where
  | signUpUser | logInUser | recoverForgotPassword | addMeeting | updateMeeting | deleteMeeting | getAllMeetingsOfUser
deriving DecidableEq, Repr

namespace Staged

def endpoint : Staged → Endpoint
  | .signUpUser => .signUpUser
  | .logInUser => .logInUser
  | .recoverForgotPassword => .recoverForgotPassword
  | .addMeeting => .addMeeting
  | .updateMeeting => .updateMeeting
  | .deleteMeeting => .deleteMeeting
  | .getAllMeetingsOfUser => .getAllMeetingsOfUser

def Result : Staged → Type
  | .signUpUser => Doc UserField
  | .logInUser => LogInUser.Granted
  | .recoverForgotPassword => Response
  | .addMeeting => Row MeetingField
  | .updateMeeting => UpdateReply
  | .deleteMeeting => Response
  | .getAllMeetingsOfUser => List (Doc MeetingField)

def stages (pkg : Packages) (req : Request) : (staged : Staged) → Stages sig Body staged.Result
  | .signUpUser => .more (.one (SignUpUser.validateUserInput req)) fun _ => SignUpUser.createUser pkg req
  | .logInUser =>
      .more (.more (.more (.one (LogInUser.findUser req)) (LogInUser.validatePassword req)) (LogInUser.generateToken pkg))
        LogInUser.saveToken
  | .recoverForgotPassword =>
      .more (.more (.one (RecoverForgotPassword.validateUserInput req)) fun _ => RecoverForgotPassword.findUser req)
        (RecoverForgotPassword.generateAndSaveNewPassword pkg req)
  | .addMeeting => .more (.one (AddMeeting.validateUserInput req)) fun _ => AddMeeting.addMeetingAfterValidation pkg req
  | .updateMeeting => .more (.one (findMeetingDetails req)) (UpdateMeeting.updateMeetingAfterFinding pkg req)
  | .deleteMeeting => .more (.one (findMeetingDetails req)) (DeleteMeeting.deleteMeeting pkg req)
  | .getAllMeetingsOfUser =>
      .more (.one (GetAllMeetingsOfUser.validateUrlParam req)) fun _ => GetAllMeetingsOfUser.findMeetings req

def catches : Staged → Body → Process
  | .signUpUser => fun error => send (generate true error.message 500 .null)
  | .logInUser => LogInUser.respondError
  | _ => fun error => .emit (.send 200 error) .halt

end Staged

theorem controller_staged (pkg : Packages) (req : Request) (userId : Option String) (staged : Staged) :
    ∃ onResolved, controller pkg req userId staged.endpoint =
      Promise.finish (staged.stages pkg req).promise onResolved staged.catches := by
  cases staged <;> exact ⟨_, rfl⟩

-- The email a sign-up asks for belongs to a user already.
def Taken (req : Request) (past now : History sig) : Prop :=
  ∃ user, now = .asked (.users (.findOne .email (req.body.get "email"))) (.ok (some user)) :: past

-- What is known of the response a chain rejects with.
def Explained (req : Request) (staged : Staged) (past now : History sig) (response : Response) : Prop :=
  response.error = true ∧ (staged = .signUpUser → (response.status = 500 ↔ SignUpInput req ∧ ¬ Taken req past now))

def rejecting (good : History sig → Response → Prop) : Spec sig where
  asks := fun _ _ => True
  tells := fun h out => ∀ status response, out = .send status (.api response) → good h response
  ends := fun _ => True
  breaks := fun _ => True

section Chains

variable (pkg : Packages) (req : Request) (known : Option Body) (past : History sig)

def dropped {α : Type} : α → Process := fun _ => .halt

def marked : Body → Process := fun reason => .emit (.send 200 reason) .halt

theorem marked_meets (good : History sig → Response → Prop) (known : Option Body) (now : History sig) (response : Response)
    (holds : good now response) : Meets (rejecting good) (marked (.api response)) known now := by
  refine ⟨?_, trivial⟩
  intro status shown same
  cases same
  exact holds

theorem mailed_meets (good : History sig → Response → Prop) (mail : Mail) (known : Option Body) (now : History sig) :
    Meets (rejecting good) (.emit (.mail mail) .halt) known now := by
  refine ⟨?_, trivial⟩
  intro status shown same
  cases same

theorem sign_up_explained :
    Meets (rejecting (Explained req .signUpUser past))
    ((Staged.signUpUser.stages pkg req).promise dropped marked) known past := by
  simp only [Staged.stages, Stages.promise, Promise.andThen]
  apply sign_up_validate_statuses
  · intro input
    rw [meets_later]
    apply create_user_statuses _ _ _ _ _ _ _ input.2.1 trivial
    · intro message response refused status
      refine marked_meets _ _ _ _ ⟨refused.1, fun _ => iff_of_true status ⟨input, ?_⟩⟩
      rintro ⟨user, same⟩
      cases same
    · intro user response refused status
      refine marked_meets _ _ _ _ ⟨refused.1, fun _ => iff_of_false (by simp [status]) ?_⟩
      exact fun free => free.2 ⟨user, rfl⟩
    · intro _
      trivial
    · intro row _
      trivial
    · intro row message response _ refused status
      refine marked_meets _ _ _ _ ⟨refused.1, fun _ => iff_of_true status ⟨input, ?_⟩⟩
      rintro ⟨user, same⟩
      cases same
    · intro row doc _
      trivial
  · intro response refused status bad
    exact marked_meets _ _ _ _ ⟨refused.1, fun _ => iff_of_false (by simp [status]) fun free => bad free.1⟩
  · intro reason
    refine ⟨?_, trivial⟩
    intro status shown same
    cases same

theorem stages_explained (staged : Staged) :
    Meets (rejecting (Explained req staged past)) ((staged.stages pkg req).promise dropped marked) known past := by
  by_cases other : staged = .signUpUser
  · subst other
    exact sign_up_explained pkg req known past
  have refuse : ∀ (before now : History sig) response, Quiet before now → Refused response → ∀ known,
      Meets (rejecting (Explained req staged past)) (marked (.api response)) known now :=
    fun _ now response _ refused known => marked_meets _ known now response ⟨refused.1, fun same => absurd same other⟩
  cases staged with
  | signUpUser => exact absurd rfl other
  | logInUser =>
      apply log_in_chain _ pkg req known past marked (refuse past) dropped trivial (fun _ => trivial)
      intro doc id iat exp token signed
      exact ⟨trivial, fun _ => trivial, fun _ _ => trivial, fun _ _ => trivial, fun _ _ _ => trivial⟩
  | recoverForgotPassword =>
      apply recover_chain _ pkg req known past marked (refuse past) dropped trivial (fun _ _ _ => trivial)
      intro doc password salt reply
      exact mailed_meets _ _ _ _
  | addMeeting =>
      apply add_meeting_chain _ pkg req known past marked (refuse past) dropped (fun _ _ _ => trivial)
      intro row doc
      exact mailed_meets _ _ _ _
  | updateMeeting =>
      apply update_meeting_chain _ pkg req known past marked (refuse past) dropped trivial (fun _ => trivial)
        (fun _ _ _ _ => trivial)
      intro found reply mail _
      exact mailed_meets _ _ _ _
  | deleteMeeting =>
      apply delete_meeting_chain _ pkg req known past marked (refuse past) dropped trivial (fun _ => trivial)
      intro found doc
      exact mailed_meets _ _ _ _
  | getAllMeetingsOfUser =>
      exact get_meetings_chain _ req known past marked (refuse past) dropped trivial (fun _ => trivial)

end Chains

theorem first_rejection_explained (pkg : Packages) (req : Request) (staged : Staged) {k : Nat} {known seen : Option Body}
    {past now : History sig} {response : Response}
    (first : (staged.stages pkg req).FirstRejects k known past (.api response) seen now) :
    Explained req staged past now response :=
  (leads_meets _ (Stages.rejects_promise _ first dropped marked) (stages_explained pkg req known past staged)).1 200 response rfl

-- From here on the request only sends this one answer: no command, no mail, no exception.
def answering (past : History sig) (status : Nat) (body : Body) : Spec sig where
  asks := fun _ _ => False
  tells := fun h out => h = past ∧ out = .send status body
  ends := fun h => h = .said (.send status body) :: past
  breaks := fun _ => False

theorem emit_answers (past : History sig) (status : Nat) (body : Body) (known : Option Body) :
    Meets (answering past status body) (.emit (.send status body) .halt) known past := ⟨⟨rfl, rfl⟩, rfl⟩

def Reports (body : Body) (response : Response) : Prop :=
  ∃ sent, body = .api sent ∧ sent.error = true ∧ sent.status = response.status ∧ sent.message = response.message

theorem reports_generated (message : String) (status : Nat) (response : Response) (same : message = response.message) :
    Reports (.api (generate true message status .null)) response ↔ response.status = status := by
  constructor
  · rintro ⟨sent, shown, _, statuses, _⟩
    cases shown
    exact statuses.symm
  · intro statuses
    exact ⟨_, rfl, rfl, statuses.symm, same⟩

-- What each catch handler makes of a rejection.
def Staged.answer (response : Response) : Staged → Nat × Body
  | .signUpUser => (200, .api (generate true response.message 500 .null))
  | .logInUser => (response.status, .api (generate true response.message response.status .null))
  | _ => (200, .api response)

theorem catches_answers (staged : Staged) (response : Response) (known : Option Body) (now : History sig) :
    Meets (answering now (staged.answer response).1 (staged.answer response).2)
    (.later (staged.catches (.api response))) known now := by
  cases staged with
  | logInUser => exact (meets_assign_fetch _ _ _ none now).mpr (emit_answers now _ _ _)
  | _ => exact emit_answers now _ _ _

theorem answer_reports_iff (staged : Staged) (response : Response) (failed : response.error = true) :
    Reports (staged.answer response).2 response ↔ (staged = .signUpUser → response.status = 500) := by
  cases staged with
  | signUpUser => simpa [Staged.answer] using reports_generated response.message 500 response rfl
  | logInUser => simpa [Staged.answer] using reports_generated response.message response.status response rfl
  | _ => exact iff_of_true ⟨response, rfl, failed, rfl, rfl⟩ nofun

theorem failing_stage_reported_iff (pkg : Packages) (req : Request) (userId : Option String) (staged : Staged) (k : Nat)
    (known seen : Option Body) (past now : History sig) (response : Response)
    (first : (staged.stages pkg req).FirstRejects k known past (.api response) seen now) :
    Leads (controller pkg req userId staged.endpoint) known past (.later (staged.catches (.api response))) seen now ∧
      ∃ status body, Meets (answering now status body) (.later (staged.catches (.api response))) seen now ∧
        (Reports body response ↔ (staged = .signUpUser → SignUpInput req ∧ ¬ Taken req past now)) := by
  constructor
  · obtain ⟨onResolved, chained⟩ := controller_staged pkg req userId staged
    rw [chained]
    exact finish_rejected (Stages.rejects_promise _ first) onResolved staged.catches
  · obtain ⟨failed, statuses⟩ := first_rejection_explained pkg req staged first
    refine ⟨_, _, catches_answers staged response seen now, ?_⟩
    rw [answer_reports_iff staged response failed]
    exact forall_congr' statuses

section Paths

variable (pkg : Packages) (req : Request) (known : Option Body) (past : History sig)

theorem find_user_resolves (user : Doc UserField) (given : Js.truthy (req.body.get "email") = true) :
    Resolves (LogInUser.findUser req) known past user none
      (.asked (.users (.findOne .email (req.body.get "email"))) (.ok (some user)) :: past) := by
  intro resolve reject
  rw [LogInUser.findUser, if_pos given]
  refine @Leads.call sig (.users (.findOne .email _)) (.ok (some user)) _ _ _ _ _ _ ?_
  simp only [when_found_some user documentValue _ _ (is_empty_document user)]
  exact .here _ _ _

theorem validate_password_rejects (user : Doc UserField) :
    Rejects (LogInUser.validatePassword req user) known past (.api (generate true "wrong password.login failed" 400 .null))
      (some (.api (generate true "wrong password.login failed" 400 .null)))
      (.asked (.compare (req.body.get "password") (hydrateUser user.row .password)) (.ok false) :: past) := by
  intro resolve reject
  refine @Leads.call sig (.compare _ _) (.ok false) _ _ _ _ _ _ ?_
  apply Leads.assign
  exact .fetch _ _ _ _ _ _ _ (by simp) (.here _ _ _)

theorem sign_up_validation_resolves (input : SignUpInput req) :
    Resolves (SignUpUser.validateUserInput req) known past () known past := by
  intro resolve reject
  simp only [SignUpUser.validateUserInput, input.1, input.2.1, input.2.2, if_true]
  exact .here _ _ _

theorem create_user_rejects_taken (user : Doc UserField) :
    Rejects (SignUpUser.createUser pkg req) known past
    (.api (generate true "User Already Present With this Email" 403 .null)) none
      (.asked (.users (.findOne .email (req.body.get "email"))) (.ok (some user)) :: past) := by
  intro resolve reject
  refine @Leads.call sig (.users (.findOne .email _)) (.ok (some user)) _ _ _ _ _ _ ?_
  simp only [when_found_some user documentValue _ _ (is_empty_document user)]
  exact .here _ _ _

end Paths

namespace Reference

def formRequest : Request := requestOf logInRequest

def mismatch : Response := generate true "wrong password.login failed" 400 .null

def foundAccount : History sig := [.asked (.users (.findOne .email (formRequest.body.get "email"))) (.ok (some account))]

def mismatchPath : History sig :=
  .asked (.compare (formRequest.body.get "password") (hydrateUser account.row .password)) (.ok false) :: foundAccount

theorem form_names_email : Js.truthy (formRequest.body.get "email") = true := by decide +kernel

theorem wrong_password_second :
    (Staged.logInUser.stages packages formRequest).FirstRejects 2 none [] (.api mismatch) (some (.api mismatch))
      mismatchPath :=
  .inl (.inl (.inr ⟨rfl, account, none, foundAccount, find_user_resolves formRequest none [] account form_names_email,
    validate_password_rejects formRequest none foundAccount account⟩))

theorem form_is_sign_up_input : SignUpInput formRequest := ⟨form_names_email, rfl, rfl⟩

theorem taken_email_second :
    (Staged.signUpUser.stages packages formRequest).FirstRejects 2 none []
      (.api (generate true "User Already Present With this Email" 403 .null)) none foundAccount :=
  .inr ⟨rfl, (), none, [], sign_up_validation_resolves formRequest none [] form_is_sign_up_input,
    create_user_rejects_taken packages formRequest none [] account⟩

end Reference

theorem reference_wrong_password_reported :
    (Staged.logInUser.stages Reference.packages Reference.formRequest).FirstRejects 2 none [] (.api Reference.mismatch)
        (some (.api Reference.mismatch)) Reference.mismatchPath ∧
      ∃ status body, Meets (answering Reference.mismatchPath status body)
          (.later (Staged.logInUser.catches (.api Reference.mismatch))) (some (.api Reference.mismatch))
          Reference.mismatchPath ∧ Reports body Reference.mismatch := by
  refine ⟨Reference.wrong_password_second, ?_⟩
  obtain ⟨_, status, body, answers, reports⟩ :=
    failing_stage_reported_iff Reference.packages Reference.formRequest none .logInUser 2
    none _ [] _ Reference.mismatch Reference.wrong_password_second
  exact ⟨status, body, answers, reports.mpr nofun⟩

theorem taken_email_answered_with_500 :
    ∃ response now, (Staged.signUpUser.stages Reference.packages Reference.formRequest).FirstRejects 2 none []
    (.api response) none now ∧
      response.status = 403 ∧
      Leads (signUpUser Reference.packages Reference.formRequest) none []
      (.later (Staged.signUpUser.catches (.api response))) none now ∧
      ∃ sent, sent.status = 500 ∧
      Meets (answering now 200 (.api sent)) (.later (Staged.signUpUser.catches (.api response))) none now ∧
        ¬ Reports (.api sent) response := by
  refine ⟨_, _, Reference.taken_email_second, rfl, ?_, _, rfl, catches_answers .signUpUser _ none _, ?_⟩
  · exact finish_rejected (Stages.rejects_promise _ Reference.taken_email_second) _ Staged.signUpUser.catches
  · rintro ⟨sent, same, _, statuses, _⟩
    cases same
    cases statuses

end Planner
