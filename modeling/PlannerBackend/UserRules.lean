import PlannerBackend.Rules

set_option autoImplicit false

namespace Planner

open Docs Resume

section Stages

variable (spec : Spec sig) (pkg : Packages) (req : Request) (known : Option Body) (past : History sig)

-- What validateUserInput of a sign-up lets through.
def SignUpInput (req : Request) : Prop :=
  Js.truthy (req.body.get "email") = true ∧ Email (req.body.get "email") = .ok true ∧
    isEmpty (req.body.get "password") = .ok false

theorem sign_up_validate_statuses (resolve : Unit → Process) (reject : Body → Process)
    (ok : SignUpInput req → Meets spec (resolve ()) known past)
    (bad : ∀ response, Refused response → response.status = 400 → ¬ SignUpInput req →
      Meets spec (reject (.api response)) known past)
    (threw : ∀ reason, Meets spec (reject (.thrown reason)) known past) :
    Meets spec (SignUpUser.validateUserInput req resolve reject) known past := by
  unfold SignUpUser.validateUserInput
  by_cases given : Js.truthy (req.body.get "email") = true
  · rw [if_pos given]
    cases email : Email (req.body.get "email") with
    | error thrown => exact threw _
    | ok accepted =>
        cases accepted with
        | false => exact bad _ (refused_generate _ 400 rfl) rfl (by simp [SignUpInput, email])
        | true =>
            cases password : isEmpty (req.body.get "password") with
            | error thrown => exact threw _
            | ok blank =>
                cases blank with
                | true => exact bad _ (refused_generate _ 400 rfl) rfl (by simp [SignUpInput, password])
                | false => exact ok ⟨given, email, password⟩
  · rw [if_neg given]
    exact bad _ (refused_generate _ 400 rfl) rfl (fun input => given input.1)

theorem sign_up_validate_rule (resolve : Unit → Process) (reject : Body → Process)
    (ok : Email (req.body.get "email") = .ok true → isEmpty (req.body.get "password") = .ok false →
      Meets spec (resolve ()) known past)
    (bad : ∀ body, Meets spec (reject body) known past) :
    Meets spec (SignUpUser.validateUserInput req resolve reject) known past :=
  sign_up_validate_statuses spec req known past resolve reject (fun input => ok input.2.1 input.2.2) (fun _ _ _ _ => bad _)
    (fun _ => bad _)

theorem email_accepts_strings (value : Js.Value) (accepted : Email value = .ok true) : ∃ s, value = .str s := by
  cases value with
  | str s => exact ⟨s, rfl⟩
  | _ => simp [Email] at accepted

-- The row a sign-up saves: the email in lower case, the password hashed.
def SignUpRow (row : Except String (Row UserField)) : Prop :=
  ∃ email password id salt createdOn, req.body.get "email" = .str email ∧ req.body.get "password" = .str password ∧
    Email (.str email) = .ok true ∧
    row = SignUpUser.newUser pkg req id (toLowerCase email) (pkg.bcryptHash password salt) createdOn

theorem create_user_statuses (resolve : Doc UserField → Process) (reject : Body → Process)
    (accepted : Email (req.body.get "email") = .ok true)
    (look : spec.asks past (.users (.findOne .email (req.body.get "email"))))
    (failed : ∀ message response, Refused response → response.status = 500 → Meets spec (reject (.api response)) none
      (.asked (.users (.findOne .email (req.body.get "email"))) (.error message) :: past))
    (taken : ∀ user response, Refused response → response.status = 403 → Meets spec (reject (.api response)) none
      (.asked (.users (.findOne .email (req.body.get "email"))) (.ok (some user)) :: past))
    (escape : Js.isString (req.body.get "password") = false →
      spec.breaks (.asked (.users (.findOne .email (req.body.get "email"))) (.ok none) :: past))
    (insert : ∀ row, SignUpRow pkg req row →
      spec.asks (.asked (.users (.findOne .email (req.body.get "email"))) (.ok none) :: past) (.users (.insert row)))
    (unsaved : ∀ row message response, Js.isString (req.body.get "password") = true → Refused response → response.status = 500 →
      Meets spec (reject (.api response)) none (.asked (.users (.insert row)) (.error message) ::
        .asked (.users (.findOne .email (req.body.get "email"))) (.ok none) :: past))
    (saved : ∀ row doc, Js.isString (req.body.get "password") = true → Meets spec (resolve doc) none
      (.asked (.users (.insert row)) (.ok doc) :: .asked (.users (.findOne .email (req.body.get "email"))) (.ok none) :: past)) :
    Meets spec (SignUpUser.createUser pkg req resolve reject) known past := by
  obtain ⟨email, given⟩ := email_accepts_strings _ accepted
  unfold SignUpUser.createUser
  refine ⟨look, ?_⟩
  intro ans
  cases ans with
  | error message => exact failed _ _ (refused_generate _ 500 rfl) rfl
  | ok found =>
      apply meets_when_found spec none _ found documentValue _ _ is_empty_document
      · intro absent id
        subst absent
        dsimp only
        simp only [given] at insert escape unsaved saved accepted ⊢
        intro random
        cases password : req.body.get "password" with
        | str p =>
            intro at_
            refine ⟨insert _ ⟨email, p, id.shortid, random.salt, timeNow at_, given, password, accepted, rfl⟩, ?_⟩
            intro ans
            cases ans with
            | error message => exact unsaved _ message _ (by rw [password]; rfl) (refused_generate _ 500 rfl) rfl
            | ok doc => exact saved _ doc (by rw [password]; rfl)
        | undefined | null | bool | num | arr | obj | host => exact escape (by rw [password]; rfl)
      · intro doc here
        subst here
        exact taken _ _ (refused_generate _ 403 rfl) rfl

theorem create_user_rule (resolve : Doc UserField → Process) (reject : Body → Process)
    (accepted : Email (req.body.get "email") = .ok true)
    (look : spec.asks past (.users (.findOne .email (req.body.get "email"))))
    (bad : ∀ ans response, ans ≠ .ok none → Refused response → Meets spec (reject (.api response)) none
      (.asked (.users (.findOne .email (req.body.get "email"))) ans :: past))
    (escape : Js.isString (req.body.get "password") = false →
      spec.breaks (.asked (.users (.findOne .email (req.body.get "email"))) (.ok none) :: past))
    (insert : ∀ row, SignUpRow pkg req row →
      spec.asks (.asked (.users (.findOne .email (req.body.get "email"))) (.ok none) :: past) (.users (.insert row)))
    (unsaved : ∀ row message response, Js.isString (req.body.get "password") = true → Refused response →
      Meets spec (reject (.api response)) none (.asked (.users (.insert row)) (.error message) ::
        .asked (.users (.findOne .email (req.body.get "email"))) (.ok none) :: past))
    (saved : ∀ row doc, Js.isString (req.body.get "password") = true → Meets spec (resolve doc) none
      (.asked (.users (.insert row)) (.ok doc) :: .asked (.users (.findOne .email (req.body.get "email"))) (.ok none) :: past)) :
    Meets spec (SignUpUser.createUser pkg req resolve reject) known past := by
  apply create_user_statuses spec pkg req known past resolve reject accepted look _ _ escape insert _ saved
  · intro message response refused _
    exact bad _ response (by simp) refused
  · intro user response refused _
    exact bad _ response (by simp) refused
  · intro row message response text refused _
    exact unsaved row message response text refused

theorem find_user_rule (resolve : Doc UserField → Process) (reject : Body → Process)
    (look : spec.asks past (.users (.findOne .email (req.body.get "email"))))
    (bad : ∀ h response, Quiet past h → Refused response → ∀ known, Meets spec (reject (.api response)) known h)
    (found : ∀ doc, Meets spec (resolve doc) none
      (.asked (.users (.findOne .email (req.body.get "email"))) (.ok (some doc)) :: past)) :
    Meets spec (LogInUser.findUser req resolve reject) known past := by
  unfold LogInUser.findUser
  by_cases given : Js.truthy (req.body.get "email") = true
  · rw [if_pos given]
    refine ⟨look, ?_⟩
    intro ans
    cases ans with
    | error message =>
        exact (meets_reject_shared spec none _ reject _).mpr
          (bad _ _ (.asked _ _ _ .here rfl) (refused_generate _ 500 rfl) _)
    | ok result =>
        apply meets_when_found spec none _ result documentValue _ _ is_empty_document
        · intro absent
          subst absent
          exact (meets_reject_shared spec none _ reject _).mpr
            (bad _ _ (.asked _ _ _ .here rfl) (refused_generate _ 404 rfl) _)
        · intro doc here
          subst here
          exact found doc
  · rw [if_neg given]
    exact (meets_reject_shared spec known past reject _).mpr (bad past _ .here (refused_generate _ 400 rfl) _)

theorem validate_password_rule (doc : Doc UserField) (resolve : Row UserField → Process) (reject : Body → Process)
    (ask : spec.asks past (.compare (req.body.get "password") (hydrateUser doc.row .password)))
    (bad : ∀ h response, Quiet past h → Refused response → ∀ known, Meets spec (reject (.api response)) known h)
    (matched : Meets spec (resolve (without (hydrateUser doc.row) [.password, .createdOn])) none
      (.asked (.compare (req.body.get "password") (hydrateUser doc.row .password)) (.ok true) :: past)) :
    Meets spec (LogInUser.validatePassword req doc resolve reject) known past := by
  refine ⟨ask, ?_⟩
  intro ans
  cases ans with
  | error message =>
      exact (meets_reject_shared spec none _ reject _).mpr
        (bad _ _ (.asked _ _ _ .here rfl) (refused_generate _ 500 rfl) _)
  | ok isMatch =>
      cases isMatch with
      | true => exact matched
      | false =>
          exact (meets_reject_shared spec none _ reject _).mpr
            (bad _ _ (.asked _ _ _ .here rfl) (refused_generate _ 400 rfl) _)

theorem generate_token_rule (userDetails : Row UserField) (resolve : LogInUser.Session → Process) (reject : Body → Process)
    (bad : ∀ h response, Quiet past h → Refused response → ∀ known, Meets spec (reject (.api response)) known h)
    (made : ∀ (id iat exp : Ambient) (token : String), pkg.jwtSign (claimsFor id iat exp userDetails) secretKey = .ok token →
      Meets spec (resolve ⟨⟨token, secretKey⟩, userDetails⟩) known past) :
    Meets spec (LogInUser.generateToken pkg userDetails resolve reject) known past := by
  intro id iat exp
  dsimp only
  cases signed : pkg.jwtSign (claimsFor id iat exp userDetails) secretKey with
  | error message =>
      exact (meets_reject_shared spec known past reject _).mpr (bad past _ .here (refused_generate _ 500 rfl) _)
  | ok token => exact made id iat exp token signed

theorem save_token_rule (session : LogInUser.Session) (resolve : LogInUser.Granted → Process) (reject : Body → Process)
    (look : spec.asks past (.auths (.findOne .userId (LogInUser.idScalar session.userId).value)))
    (bad : ∀ h response, Quiet past h → Refused response → ∀ known, Meets spec (reject (.api response)) known h)
    (insert : ∀ at_, spec.asks
      (.asked (.auths (.findOne .userId (LogInUser.idScalar session.userId).value)) (.ok none) :: past)
      (.auths (.insert (.ok (LogInUser.newAuth session at_)))))
    (resave : ∀ auth at_, spec.asks
      (.asked (.auths (.findOne .userId (LogInUser.idScalar session.userId).value)) (.ok (some auth)) :: past)
      (.auths (.resave auth (LogInUser.tokenPaths session at_))))
    (inserted : ∀ at_ doc, Meets spec (resolve ⟨text (doc.row .authToken), session.userDetails⟩) none
      (.asked (.auths (.insert (.ok (LogInUser.newAuth session at_)))) (.ok doc) ::
        .asked (.auths (.findOne .userId (LogInUser.idScalar session.userId).value)) (.ok none) :: past))
    (resaved : ∀ auth at_ doc, Meets spec (resolve ⟨text (doc.row .authToken), session.userDetails⟩) none
      (.asked (.auths (.resave auth (LogInUser.tokenPaths session at_))) (.ok doc) ::
        .asked (.auths (.findOne .userId (LogInUser.idScalar session.userId).value)) (.ok (some auth)) :: past)) :
    Meets spec (LogInUser.saveToken session resolve reject) known past := by
  refine ⟨look, ?_⟩
  intro ans
  cases ans with
  | error message =>
      exact (meets_reject_shared spec none _ reject _).mpr
        (bad _ _ (.asked _ _ _ .here rfl) (refused_generate _ 500 rfl) _)
  | ok result =>
      apply meets_when_found spec none _ result documentValue _ _ is_empty_document
      · intro absent at_
        subst absent
        refine ⟨insert at_, ?_⟩
        intro ans
        cases ans with
        | error message =>
            exact (meets_reject_shared spec none _ reject _).mpr
              (bad _ _ (.asked _ _ _ (.asked _ _ _ .here rfl) rfl) (refused_generate _ 500 rfl) _)
        | ok doc => exact inserted at_ doc
      · intro auth here at_
        subst here
        refine ⟨resave auth at_, ?_⟩
        intro ans
        cases ans with
        | error message =>
            exact (meets_reject_shared spec none _ reject _).mpr
              (bad _ _ (.asked _ _ _ (.asked _ _ _ .here rfl) rfl) (refused_generate _ 500 rfl) _)
        | ok doc => exact resaved auth at_ doc

theorem logout_rule (userId : Option String)
    (ask : spec.asks past (.auths (.findOneAndRemove .userId (LogInUser.idScalar userId).value)))
    (refuse : ∀ h response, Quiet past h → Refused response → ∀ known, Meets spec (send response) known h)
    (done : ∀ doc, Meets spec (send (generate false "Logged Out Successfully" 200 .null)) none
      (.asked (.auths (.findOneAndRemove .userId (LogInUser.idScalar userId).value)) (.ok (some doc)) :: past)) :
    Meets spec (logout userId) known past := by
  refine ⟨ask, ?_⟩
  intro ans
  cases ans with
  | error message => exact refuse _ _ (.asked _ _ _ .here rfl) (refused_generate _ 500 rfl) none
  | ok result =>
      apply meets_when_found spec none _ result documentValue _ _ is_empty_document
      · intro absent
        subst absent
        exact refuse _ _ (.asked _ _ _ .here rfl) (refused_generate _ 404 rfl) none
      · intro doc here
        subst here
        exact done doc

theorem get_all_users_rule (ask : spec.asks past (.users (.find none)))
    (refuse : ∀ h response, Quiet past h → Refused response → ∀ known, Meets spec (send response) known h)
    (done : ∀ docs rows, Meets spec (send (generate false "All User Details Found" 200 (.users rows))) none
      (.asked (.users (.find none)) (.ok docs) :: past)) :
    Meets spec getAllUsers known past := by
  refine ⟨ask, ?_⟩
  intro ans
  cases ans with
  | error message => exact refuse _ _ (.asked _ _ _ .here rfl) (refused_generate _ 500 rfl) none
  | ok docs =>
      simp only [is_empty_rows]
      cases (docs.map fun doc => without doc.row [.password]).isEmpty with
      | true => exact refuse _ _ (.asked _ _ _ .here rfl) (refused_generate _ 404 rfl) none
      | false => exact done docs _

theorem get_user_by_id_rule (ask : spec.asks past (.users (.findOne .userId (req.param "userId"))))
    (refuse : ∀ h response, Quiet past h → Refused response → ∀ known, Meets spec (send response) known h)
    (done : ∀ doc row, Meets spec (send (generate false "User Details Found" 200 (.details row))) none
      (.asked (.users (.findOne .userId (req.param "userId"))) (.ok (some doc)) :: past)) :
    Meets spec (getUserById req) known past := by
  refine ⟨ask, ?_⟩
  intro ans
  cases ans with
  | error message => exact refuse _ _ (.asked _ _ _ .here rfl) (refused_generate _ 500 rfl) none
  | ok result =>
      apply meets_when_found spec none _ _ leanValue _ _ is_empty_lean
      · intro absent
        cases result with
        | none => exact refuse _ _ (.asked _ _ _ .here rfl) (refused_generate _ 404 rfl) none
        | some doc => cases absent
      · intro row here
        cases result with
        | none => cases here
        | some doc => exact done doc row

theorem delete_user_rule (ask : spec.asks past (.users (.findOneAndRemove .userId (req.param "userId"))))
    (refuse : ∀ h response, Quiet past h → Refused response → ∀ known, Meets spec (send response) known h)
    (gone : Meets spec (send (generate false "No User Found" 404 .null)) none
      (.asked (.users (.findOneAndRemove .userId (req.param "userId"))) (.ok none) :: past))
    (done : ∀ doc, Meets spec (send (generate false "Deleted the user successfully" 200
        (.user ⟨doc.id, without (hydrateUser doc.row) [.password]⟩))) none
      (.asked (.users (.findOneAndRemove .userId (req.param "userId"))) (.ok (some doc)) :: past)) :
    Meets spec (deleteUserById req) known past := by
  refine ⟨ask, ?_⟩
  intro ans
  cases ans with
  | error message => exact refuse _ _ (.asked _ _ _ .here rfl) (refused_generate _ 500 rfl) none
  | ok result =>
      apply meets_when_found spec none _ result documentValue _ _ is_empty_document
      · intro absent
        subst absent
        exact gone
      · intro doc here
        subst here
        exact done doc

theorem edit_user_rule (ask : spec.asks past (.users (.update .userId (req.param "userId") (pkg.userChange req.body))))
    (refuse : ∀ h response, Quiet past h → Refused response → ∀ known, Meets spec (send response) known h)
    (done : ∀ reply, Meets spec (send (generate false "User details edited" 200 (.reply reply))) none
      (.asked (.users (.update .userId (req.param "userId") (pkg.userChange req.body))) (.ok reply) :: past)) :
    Meets spec (editUser pkg req) known past := by
  refine ⟨ask, ?_⟩
  intro ans
  cases ans with
  | error message => exact refuse _ _ (.asked _ _ _ .here rfl) (refused_generate _ 500 rfl) none
  | ok reply =>
      dsimp only
      rw [when_found_some reply replyValue _ _ (is_empty_reply reply)]
      exact done reply

theorem email_of_param (name : String) (given : Js.truthy (req.param name) = true) :
    ∃ accepted, Email (req.param name) = .ok accepted := by
  unfold Request.param at *
  cases value : req.params name with
  | none => simp [value, stringValue, Js.truthy] at given
  | some s => exact ⟨_, rfl⟩

theorem recover_validate_rule (resolve : Unit → Process) (reject : Body → Process)
    (ok : Meets spec (resolve ()) known past)
    (bad : ∀ h response, Quiet past h → Refused response → ∀ known, Meets spec (reject (.api response)) known h) :
    Meets spec (RecoverForgotPassword.validateUserInput req resolve reject) known past := by
  unfold RecoverForgotPassword.validateUserInput
  by_cases given : Js.truthy (req.param "email") = true
  · rw [if_pos given]
    obtain ⟨accepted, email⟩ := email_of_param req "email" given
    rw [email]
    cases accepted with
    | false => exact (meets_reject_shared spec known past reject _).mpr (bad past _ .here (refused_generate _ 400 rfl) _)
    | true => exact ok
  · rw [if_neg given]
    exact (meets_reject_shared spec known past reject _).mpr (bad past _ .here (refused_generate _ 400 rfl) _)

theorem recover_find_rule (resolve : Row UserField → Process) (reject : Body → Process)
    (look : spec.asks past (.users (.findOne .email (req.param "email"))))
    (bad : ∀ h response, Quiet past h → Refused response → ∀ known, Meets spec (reject (.api response)) known h)
    (found : ∀ doc, Meets spec (resolve doc.row) none
      (.asked (.users (.findOne .email (req.param "email"))) (.ok (some doc)) :: past)) :
    Meets spec (RecoverForgotPassword.findUser req resolve reject) known past := by
  refine ⟨look, ?_⟩
  intro ans
  cases ans with
  | error message => exact bad _ _ (.asked _ _ _ .here rfl) (refused_generate _ 500 rfl) none
  | ok result =>
      apply meets_when_found spec none _ _ leanValue _ _ is_empty_lean
      · intro absent
        cases result with
        | none => exact bad _ _ (.asked _ _ _ .here rfl) (refused_generate _ 404 rfl) none
        | some doc => cases absent
      · intro row here
        cases result with
        | none => cases here
        | some doc =>
            cases here
            exact found doc

theorem recover_save_rule (row : Row UserField) (resolve : Response → Process) (reject : Body → Process)
    (ask : ∀ password salt, spec.asks past (.users (.update .email (req.param "email")
      (.apply (overlay (RecoverForgotPassword.withPassword row (pkg.bcryptHash password salt)))))))
    (bad : ∀ h response, Quiet past h → Refused response → ∀ known, Meets spec (reject (.api response)) known h)
    (done : ∀ password salt reply, Meets spec
      (.emit (.mail (RecoverForgotPassword.mail pkg req
          (RecoverForgotPassword.withPassword row (pkg.bcryptHash password salt)) password))
        (resolve (generate false "reset password successfull" 200 (.reply reply)))) none
      (.asked (.users (.update .email (req.param "email")
        (.apply (overlay (RecoverForgotPassword.withPassword row (pkg.bcryptHash password salt)))))) (.ok reply) :: past)) :
    Meets spec (RecoverForgotPassword.generateAndSaveNewPassword pkg req row resolve reject) known past := by
  intro random salted
  refine ⟨ask random.password salted.salt, ?_⟩
  intro ans
  cases ans with
  | error message => exact bad _ _ (.asked _ _ _ .here rfl) (refused_generate _ 500 rfl) none
  | ok reply =>
      dsimp only
      rw [when_found_some reply replyValue _ _ (is_empty_reply reply)]
      exact done random.password salted.salt reply

end Stages

-- The stages of each endpoint in a row: whatever stage rejects, the history
-- since the start holds no write.
section Chains

variable (spec : Spec sig) (pkg : Packages) (req : Request) (known : Option Body) (past : History sig) (reject : Body → Process)

-- Every rejection of a sign-up is answered alike, the thrown ones included.
theorem sign_up_chain (bad : ∀ h body, Quiet past h → ∀ known, Meets spec (reject body) known h)
    (resolve : Doc UserField → Process) (look : spec.asks past (.users (.findOne .email (req.body.get "email"))))
    (escape : Js.isString (req.body.get "password") = false →
      spec.breaks (.asked (.users (.findOne .email (req.body.get "email"))) (.ok none) :: past))
    (insert : ∀ row, SignUpRow pkg req row →
      spec.asks (.asked (.users (.findOne .email (req.body.get "email"))) (.ok none) :: past) (.users (.insert row)))
    (saved : ∀ row doc, Meets spec (resolve doc) none
      (.asked (.users (.insert row)) (.ok doc) :: .asked (.users (.findOne .email (req.body.get "email"))) (.ok none) :: past)) :
    Meets spec (Promise.andThen (SignUpUser.validateUserInput req) (fun _ => SignUpUser.createUser pkg req) resolve reject)
    known past := by
  apply sign_up_validate_rule
  · intro accepted _
    rw [meets_later]
    apply create_user_rule spec pkg req none past resolve reject accepted look _ escape insert _ (fun row doc _ => saved row doc)
    · intro ans response _ _
      exact bad _ _ (.asked _ _ _ .here rfl) none
    · intro row message response _ _
      exact bad _ _ (.asked _ _ _ (.asked _ _ _ .here rfl) rfl) none
  · intro body
    exact bad past body .here known

-- What saveToken asks of a specification, from the history h on.
structure SavesToken (session : LogInUser.Session) (h : History sig) (resolve : LogInUser.Granted → Process) : Prop where
  look : spec.asks h (.auths (.findOne .userId (LogInUser.idScalar session.userId).value))
  insert : ∀ at_, spec.asks (.asked (.auths (.findOne .userId (LogInUser.idScalar session.userId).value)) (.ok none) :: h)
    (.auths (.insert (.ok (LogInUser.newAuth session at_))))
  resave : ∀ auth at_,
    spec.asks (.asked (.auths (.findOne .userId (LogInUser.idScalar session.userId).value)) (.ok (some auth)) :: h)
    (.auths (.resave auth (LogInUser.tokenPaths session at_)))
  inserted : ∀ at_ doc, Meets spec (resolve ⟨text (doc.row .authToken), session.userDetails⟩) none
    (.asked (.auths (.insert (.ok (LogInUser.newAuth session at_)))) (.ok doc) ::
      .asked (.auths (.findOne .userId (LogInUser.idScalar session.userId).value)) (.ok none) :: h)
  resaved : ∀ auth at_ doc, Meets spec (resolve ⟨text (doc.row .authToken), session.userDetails⟩) none
    (.asked (.auths (.resave auth (LogInUser.tokenPaths session at_))) (.ok doc) ::
      .asked (.auths (.findOne .userId (LogInUser.idScalar session.userId).value)) (.ok (some auth)) :: h)

variable (bad : ∀ h response, Quiet past h → Refused response → ∀ known, Meets spec (reject (.api response)) known h)

include bad

theorem log_in_chain (resolve : LogInUser.Granted → Process)
    (look : spec.asks past (.users (.findOne .email (req.body.get "email"))))
    (ask : ∀ doc : Doc UserField, spec.asks (.asked (.users (.findOne .email (req.body.get "email"))) (.ok (some doc)) :: past)
      (.compare (req.body.get "password") (hydrateUser doc.row .password)))
    (saves : ∀ (doc : Doc UserField) (id iat exp : Ambient) (token : String),
      pkg.jwtSign (claimsFor id iat exp (without (hydrateUser doc.row) [.password, .createdOn])) secretKey = .ok token →
      SavesToken spec ⟨⟨token, secretKey⟩, without (hydrateUser doc.row) [.password, .createdOn]⟩
        (.asked (.compare (req.body.get "password") (hydrateUser doc.row .password)) (.ok true) ::
          .asked (.users (.findOne .email (req.body.get "email"))) (.ok (some doc)) :: past) resolve) :
    Meets spec (Promise.andThen (Promise.andThen (Promise.andThen (LogInUser.findUser req) (LogInUser.validatePassword req))
      (LogInUser.generateToken pkg)) LogInUser.saveToken resolve reject) known past := by
  simp only [Promise.andThen]
  apply find_user_rule spec req known past _ reject look bad
  intro doc
  rw [meets_later]
  have found := bad_later spec past reject bad (.users (.findOne .email (req.body.get "email"))) (.ok (some doc)) rfl
  apply validate_password_rule spec req none _ doc _ reject (ask doc) found
  rw [meets_later]
  have matched := bad_later spec _ reject found
    (.compare (req.body.get "password") (hydrateUser doc.row .password)) (.ok true) rfl
  apply generate_token_rule spec pkg none _ _ _ reject matched
  intro id iat exp token signed
  rw [meets_later]
  obtain ⟨search, insert, resave, inserted, resaved⟩ := saves doc id iat exp token signed
  exact save_token_rule spec none _ _ resolve reject search matched insert resave inserted resaved

theorem recover_chain (resolve : Response → Process)
    (look : spec.asks past (.users (.findOne .email (req.param "email"))))
    (ask : ∀ (doc : Doc UserField) (password salt : String),
      spec.asks (.asked (.users (.findOne .email (req.param "email"))) (.ok (some doc)) :: past)
      (.users (.update .email (req.param "email")
        (.apply (overlay (RecoverForgotPassword.withPassword doc.row (pkg.bcryptHash password salt)))))))
    (done : ∀ (doc : Doc UserField) (password salt : String) (reply : UpdateReply), Meets spec
      (.emit (.mail (RecoverForgotPassword.mail pkg req
          (RecoverForgotPassword.withPassword doc.row (pkg.bcryptHash password salt)) password))
        (resolve (generate false "reset password successfull" 200 (.reply reply)))) none
      (.asked (.users (.update .email (req.param "email")
          (.apply (overlay (RecoverForgotPassword.withPassword doc.row (pkg.bcryptHash password salt)))))) (.ok reply) ::
        .asked (.users (.findOne .email (req.param "email"))) (.ok (some doc)) :: past)) :
    Meets spec (Promise.andThen
      (Promise.andThen (RecoverForgotPassword.validateUserInput req) fun _ => RecoverForgotPassword.findUser req)
      (RecoverForgotPassword.generateAndSaveNewPassword pkg req) resolve reject) known past := by
  simp only [Promise.andThen]
  apply recover_validate_rule spec req known past _ reject _ bad
  rw [meets_later]
  apply recover_find_rule spec req none past _ reject look bad
  intro doc
  rw [meets_later]
  exact recover_save_rule spec pkg req none _ doc.row resolve reject (ask doc) (bad_later spec past reject bad _ _ rfl) (done doc)

end Chains

end Planner
