import PlannerBackend.Private
import PlannerBackend.Routes

set_option autoImplicit false

namespace Planner

open Docs Resume

section Stages

variable (assigned : Bool)

theorem tidy_replies {ε α : Type} (next : Except ε α → Process) (failed : ∀ message, Tidy (next (.error message)) assigned)
    (ok : ∀ value, Tidy (next (.ok value)) assigned) (ans : Except ε α) : Tidy (next ans) assigned := by
  cases ans with
  | error message => exact failed message
  | ok value => exact ok value

theorem tidy_when_found {α : Type} (result : Option α) (view : α → Js.Value) (missing : Process) (present : α → Process)
    (none : Tidy missing assigned) (some : ∀ found, Tidy (present found) assigned) :
    Tidy (whenFound result view missing present) assigned := by
  unfold whenFound
  split
  · trivial
  · exact none
  · split
    · trivial
    · exact some _

theorem tidy_reject_shared (reject : Body → Process) (response : Response) (tidy : ∀ body, Tidy (reject body) true) :
    Tidy (rejectShared reject response) assigned :=
  ⟨rfl, tidy⟩

end Stages

theorem sign_up_tidy (pkg : Packages) (req : Request) (assigned : Bool) : Tidy (signUpUser pkg req) assigned := by
  apply tidy_finish
  · apply tidy_and_then
    · intro resolve reject assigned resolved rejected
      unfold SignUpUser.validateUserInput
      repeat' split
      all_goals first | exact resolved _ _ | exact rejected _ _
    · intro _ resolve reject assigned resolved rejected ans
      cases ans with
      | error message => exact rejected _ _
      | ok found =>
          apply tidy_when_found
          · intro id
            dsimp only
            split
            · intro random
              dsimp only
              split
              · trivial
              · intro at_ saved
                cases saved with
                | error message => exact rejected _ _
                | ok doc => exact resolved _ _
            · trivial
          · intro other
            exact rejected _ _
  · intro doc
    trivial
  · intro error
    trivial

theorem find_user_tidy (req : Request) : TidyPromise (LogInUser.findUser req) := by
  intro resolve reject assigned resolved rejected
  unfold LogInUser.findUser
  split
  · intro ans
    cases ans with
    | error message => exact tidy_reject_shared _ _ _ fun _ => rejected _ _
    | ok found => exact tidy_when_found _ _ _ _ _ (tidy_reject_shared _ _ _ fun _ => rejected _ _) fun _ => resolved _ _
  · exact tidy_reject_shared _ _ _ fun _ => rejected _ _

theorem validate_password_tidy (req : Request) (doc : Doc UserField) : TidyPromise (LogInUser.validatePassword req doc) := by
  intro resolve reject assigned resolved rejected ans
  rcases ans with message | verdict
  · exact tidy_reject_shared _ _ _ fun _ => rejected _ _
  · cases verdict with
    | true => exact resolved _ _
    | false => exact tidy_reject_shared _ _ _ fun _ => rejected _ _

theorem generate_token_tidy (pkg : Packages) (userDetails : Row UserField) :
    TidyPromise (LogInUser.generateToken pkg userDetails) := by
  intro resolve reject assigned resolved rejected id iat exp
  dsimp only
  split
  · exact tidy_reject_shared _ _ _ fun _ => rejected _ _
  · exact resolved _ _

theorem save_token_tidy (session : LogInUser.Session) : TidyPromise (LogInUser.saveToken session) := by
  intro resolve reject assigned resolved rejected ans
  have refuse : ∀ response after, Tidy (rejectShared reject response) after :=
    fun _ _ => tidy_reject_shared _ _ _ fun _ => rejected _ _
  cases ans with
  | error message => exact refuse _ _
  | ok found =>
      apply tidy_when_found
      · intro at_ saved
        cases saved with
        | error message => exact refuse _ _
        | ok doc => exact resolved _ _
      · intro retrieved at_ saved
        cases saved with
        | error message => exact refuse _ _
        | ok doc => exact resolved _ _

theorem log_in_tidy (pkg : Packages) (req : Request) (assigned : Bool) : Tidy (logInUser pkg req) assigned := by
  apply tidy_finish
  · exact tidy_and_then _ _
      (tidy_and_then _ _ (tidy_and_then _ _ (find_user_tidy req) (validate_password_tidy req)) (generate_token_tidy pkg))
      save_token_tidy
  · intro granted
    exact ⟨rfl, fun _ => trivial⟩
  · intro reason
    cases reason with
    | thrown error => trivial
    | api error => exact ⟨rfl, fun _ => trivial⟩

theorem recover_tidy (pkg : Packages) (req : Request) (assigned : Bool) : Tidy (recoverForgotPassword pkg req) assigned := by
  apply tidy_finish
  · apply tidy_and_then
    · apply tidy_and_then
      · intro resolve reject assigned resolved rejected
        unfold RecoverForgotPassword.validateUserInput
        split
        · split
          · exact rejected _ _
          · exact tidy_reject_shared _ _ _ fun _ => rejected _ _
          · exact resolved _ _
        · exact tidy_reject_shared _ _ _ fun _ => rejected _ _
      · intro _ resolve reject assigned resolved rejected ans
        cases ans with
        | error message => exact rejected _ _
        | ok found => exact tidy_when_found _ _ _ _ _ (rejected _ _) fun _ => resolved _ _
    · intro row resolve reject assigned resolved rejected random salted
      dsimp only
      split
      · exact rejected _ _
      · intro ans
        cases ans with
        | error message => exact rejected _ _
        | ok reply => exact tidy_when_found _ _ _ _ _ (rejected _ _) fun _ => resolved _ _
  · intro response
    trivial
  · intro error
    trivial

theorem find_meeting_tidy (req : Request) : TidyPromise (findMeetingDetails req) := by
  intro resolve reject assigned resolved rejected ans
  cases ans with
  | error message => exact rejected _ _
  | ok found => exact tidy_when_found _ _ _ _ _ (rejected _ _) fun _ => resolved _ _

theorem add_meeting_tidy (pkg : Packages) (req : Request) (assigned : Bool) : Tidy (addMeeting pkg req) assigned := by
  apply tidy_finish
  · apply tidy_and_then
    · intro resolve reject assigned resolved rejected
      unfold AddMeeting.validateUserInput
      split
      · exact resolved _ _
      · exact rejected _ _
    · intro _ resolve reject assigned resolved rejected id at_ ans
      cases ans with
      | error message => exact rejected _ _
      | ok doc => exact resolved _ _
  · intro meeting
    trivial
  · intro err
    trivial

theorem update_meeting_tidy (pkg : Packages) (req : Request) (assigned : Bool) : Tidy (updateMeeting pkg req) assigned := by
  apply tidy_finish
  · apply tidy_and_then _ _ (find_meeting_tidy req)
    intro doc resolve reject assigned resolved rejected ans
    cases ans with
    | error message => exact rejected _ _
    | ok result =>
        apply tidy_when_found _ _ _ _ _ (rejected _ _)
        intro reply
        split
        · trivial
        · exact resolved _ _
  · intro reply
    trivial
  · intro err
    trivial

theorem delete_meeting_tidy (pkg : Packages) (req : Request) (assigned : Bool) : Tidy (deleteMeeting pkg req) assigned := by
  apply tidy_finish
  · apply tidy_and_then _ _ (find_meeting_tidy req)
    intro doc resolve reject assigned resolved rejected ans
    cases ans with
    | error message => exact rejected _ _
    | ok found => exact tidy_when_found _ _ _ _ _ (rejected _ _) fun _ => resolved _ _
  · intro response
    trivial
  · intro err
    trivial

theorem get_meetings_tidy (req : Request) (assigned : Bool) : Tidy (getAllMeetingsOfUser req) assigned := by
  apply tidy_finish
  · apply tidy_and_then
    · intro resolve reject assigned resolved rejected
      unfold GetAllMeetingsOfUser.validateUrlParam
      split
      · exact resolved _ _
      · exact rejected _ _
    · intro _ resolve reject assigned resolved rejected ans
      cases ans with
      | error message => exact rejected _ _
      | ok docs =>
          dsimp only
          split
          · trivial
          · exact rejected _ _
          · exact resolved _ _
  · intro meetings
    trivial
  · intro err
    trivial

theorem get_all_users_tidy (assigned : Bool) : Tidy getAllUsers assigned := by
  intro ans
  cases ans with
  | error message => trivial
  | ok docs =>
      dsimp only
      split
      · trivial
      · trivial
      · trivial

theorem controller_tidy (pkg : Packages) (req : Request) (userId : Option String) (endpoint : Endpoint) (assigned : Bool) :
    Tidy (controller pkg req userId endpoint) assigned := by
  cases endpoint with
  | signUpUser => exact sign_up_tidy pkg req assigned
  | logInUser => exact log_in_tidy pkg req assigned
  | getAllUsers => exact get_all_users_tidy assigned
  | recoverForgotPassword => exact recover_tidy pkg req assigned
  | addMeeting => exact add_meeting_tidy pkg req assigned
  | updateMeeting => exact update_meeting_tidy pkg req assigned
  | deleteMeeting => exact delete_meeting_tidy pkg req assigned
  | getAllMeetingsOfUser => exact get_meetings_tidy req assigned
  | logout | getUserById | deleteUserById | editUser | getMeetingByMeetingId =>
      refine tidy_replies false _ ?_ ?_
      · intro message
        trivial
      · intro found
        exact tidy_when_found false _ _ _ _ trivial fun _ => trivial

theorem app_tidy (pkg : Packages) (http : HttpRequest) : Tidy (app pkg http) false := by
  unfold app
  cases endpointOf http with
  | none => trivial
  | some endpoint =>
      by_cases isGuarded : guarded endpoint = true
      · simp only [handle, if_pos isGuarded, isAuthorized]
        split
        · refine tidy_replies false _ ?_ ?_
          · intro message
            trivial
          · intro found
            apply tidy_when_found
            · trivial
            · intro auth at_
              dsimp only
              split
              · trivial
              · exact controller_tidy pkg _ _ endpoint false
        · trivial
      · simp only [handle, if_neg isGuarded]
        exact controller_tidy pkg _ _ endpoint false

-- Every request does and answers the same as with an apiResponse of its own.
theorem requests_do_not_mix (pkg : Packages) (store : Store) (cell fresh : Body) (labels : List (Label (server pkg))) :
    (∀ i, view i (run labels (World.initial (server pkg) store cell)).trace =
      view i (privateRun fresh labels (PrivateWorld.initial (server pkg) store)).trace) ∧
    (run labels (World.initial (server pkg) store cell)).store =
    (privateRun fresh labels (PrivateWorld.initial (server pkg) store)).store ∧
    (run labels (World.initial (server pkg) store cell)).tasks =
      (privateRun fresh labels (PrivateWorld.initial (server pkg) store)).tasks.map PrivateTask.task := by
  have mirrors := run_mirrors fresh (app_tidy pkg) labels (World.initial (server pkg) store cell)
    (PrivateWorld.initial (server pkg) store) ⟨rfl, rfl, rfl, by simp [PrivateWorld.initial]⟩
  exact ⟨fun i => by rw [mirrors.trace], mirrors.store, mirrors.tasks⟩

end Planner
