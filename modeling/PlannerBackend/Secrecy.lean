import PlannerBackend.Hidden
import PlannerBackend.SocketLib
import PlannerBackend.Spelling
import PlannerBackend.Success
import PlannerBackend.Twins
import PlannerBackend.WellFormed

set_option autoImplicit false

namespace Planner

open Docs Resume

structure SameButPasswords (a b : Store) : Prop where
  users : Resembles UserField.password a.users b.users
  auths : a.auths = b.auths
  meetings : a.meetings = b.meetings

-- The commands of two runs stand side by side: the same one, or two
-- comparisons of the same password.
inductive SideBySide : Op → Op → Prop where
  | users (cmd : Cmd UserField) (blind : Blind UserField.password cmd) : SideBySide (.users cmd) (.users cmd)
  | auths (cmd : Cmd AuthField) : SideBySide (.auths cmd) (.auths cmd)
  | meetings (cmd : Cmd MeetingField) : SideBySide (.meetings cmd) (.meetings cmd)
  | compare (password : Js.Value) (first second : Option Scalar) : SideBySide (.compare password first) (.compare password second)

inductive SameAnswers : Note sig → Note sig → Prop where
  | users (cmd : Cmd UserField) (a b : Docs.Ans cmd) (alike : AnsAlike UserField.password cmd a b) :
      SameAnswers (.asked (.users cmd) a) (.asked (.users cmd) b)
  | auths (cmd : Cmd AuthField) (ans : Docs.Ans cmd) : SameAnswers (.asked (.auths cmd) ans) (.asked (.auths cmd) ans)
  | meetings (cmd : Cmd MeetingField) (ans : Docs.Ans cmd) : SameAnswers (.asked (.meetings cmd) ans) (.asked (.meetings cmd) ans)
  | compare (password : Js.Value) (first second : Option Scalar) (verdict : Except String Bool) :
      SameAnswers (.asked (.compare password first) verdict) (.asked (.compare password second) verdict)

def veiled (pkg : Packages) : Coupling (server pkg) := ⟨SideBySide, SameAnswers, SameButPasswords⟩

section Stages

variable (pkg : Packages) (req : Request)

theorem alike_users (cmd : Cmd UserField) (blind : Blind UserField.password cmd) (p q : Docs.Ans cmd → Process)
    (next : ∀ x y, AnsAlike UserField.password cmd x y → Alike (veiled pkg) (p x) (q y)) :
    Alike (veiled pkg) (UserModel.call cmd p) (UserModel.call cmd q) := by
  refine Alike.call (c := veiled pkg) _ _ p q (SideBySide.users cmd blind) ?_
  intro x y linked
  cases linked with
  | users _ _ _ alike => exact next x y alike

theorem alike_auths (cmd : Cmd AuthField) (p q : Docs.Ans cmd → Process) (next : ∀ ans, Alike (veiled pkg) (p ans) (q ans)) :
    Alike (veiled pkg) (authModel.call cmd p) (authModel.call cmd q) := by
  refine Alike.call (c := veiled pkg) _ _ p q (SideBySide.auths cmd) ?_
  intro x y linked
  cases linked with
  | auths _ ans => exact next x

theorem alike_meetings (cmd : Cmd MeetingField) (p q : Docs.Ans cmd → Process)
    (next : ∀ ans, Alike (veiled pkg) (p ans) (q ans)) :
    Alike (veiled pkg) (meetingModel.call cmd p) (meetingModel.call cmd q) := by
  refine Alike.call (c := veiled pkg) _ _ p q (SideBySide.meetings cmd) ?_
  intro x y linked
  cases linked with
  | meetings _ ans => exact next x

theorem alike_send (response : Response) : Alike (veiled pkg) (send response) (send response) := .emit _ _ _ .halt

theorem alike_when_found {α : Type} (related : α → α → Prop) (x y : Option α) (both : Option.Rel related x y)
    (view : α → Js.Value) (seen : ∀ found, isEmpty (view found) = .ok false) (missing missing' : Process)
    (present present' : α → Process) (none : Alike (veiled pkg) missing missing')
    (some : ∀ a b, related a b → Alike (veiled pkg) (present a) (present' b)) :
    Alike (veiled pkg) (whenFound x view missing present) (whenFound y view missing' present') := by
  cases both with
  | none => exact none
  | some here =>
      rw [when_found_some _ view _ _ (seen _), when_found_some _ view _ _ (seen _)]
      exact some _ _ here

theorem alike_reject_shared (reject reject' : Body → Process) (response : Response)
    (rejected : ∀ reason, Alike (veiled pkg) (reject reason) (reject' reason)) :
    Alike (veiled pkg) (rejectShared reject response) (rejectShared reject' response) :=
  .assign _ _ _ (.fetch _ _ rejected)

theorem rel_self {α : Type} (x : Option α) : Option.Rel (fun a b => a = b) x x := by
  cases x with
  | none => exact .none
  | some value => exact .some rfl

theorem without_password (r s : Row UserField) (same : AgreeOff .password r s) (paths : List UserField)
    (listed : .password ∈ paths) :
    without r paths = without s paths := by
  funext path
  by_cases here : path ∈ paths
  · simp [without, here]
  · simp [without, here, same path fun equal => here (equal ▸ listed)]

theorem hydrated_alike (r s : Row UserField) (same : AgreeOff .password r s) :
    AgreeOff .password (hydrateUser r) (hydrateUser s) := by
  intro path shown
  simp [hydrateUser, same path shown]

theorem sign_up_alike : Alike (veiled pkg) (signUpUser pkg req) (signUpUser pkg req) := by
  apply alike_finish (veiled pkg) (SameDoc UserField.password)
  · apply alike_and_then (veiled pkg) (fun _ _ => True)
    · intro resolve resolve' reject reject' resolved rejected
      unfold SignUpUser.validateUserInput
      repeat' split
      all_goals first | exact rejected _ | exact resolved _ _ trivial
    · intro _ _ _ resolve resolve' reject reject' resolved rejected
      refine alike_users pkg (.findOne .email _) (by simp [Blind]) _ _ ?_
      intro x y alike
      cases alike with
      | error message => exact rejected _
      | ok a b found =>
          apply alike_when_found pkg _ a b found documentValue is_empty_document
          · refine .sample _ _ fun id => ?_
            split
            · refine .sample _ _ fun random => ?_
              dsimp only
              split
              · exact .crash
              · refine .sample _ _ fun at_ => ?_
                refine alike_users pkg (.insert _) trivial _ _ ?_
                intro x y alike
                cases alike with
                | error message => exact rejected _
                | ok a b saved => exact resolved a b saved
            · exact .crash
          · intro _ _ _
            exact rejected _
  · intro x y same
    rw [without_password x.row y.row same.row [.password] (by simp)]
    exact alike_send pkg _
  · intro error
    exact alike_send pkg _

theorem find_user_alike :
    AlikePromise (veiled pkg) (SameDoc UserField.password) (LogInUser.findUser req) (LogInUser.findUser req) := by
  intro resolve resolve' reject reject' resolved rejected
  unfold LogInUser.findUser
  split
  · refine alike_users pkg (.findOne .email _) (by simp [Blind]) _ _ ?_
    intro x y alike
    cases alike with
    | error message => exact alike_reject_shared pkg _ _ _ rejected
    | ok a b found =>
        exact alike_when_found pkg _ a b found documentValue is_empty_document _ _ _ _
          (alike_reject_shared pkg _ _ _ rejected) resolved
  · exact alike_reject_shared pkg _ _ _ rejected

theorem validate_password_alike (x y : Doc UserField) (same : SameDoc UserField.password x y) :
    AlikePromise (veiled pkg) (fun a b => a = b) (LogInUser.validatePassword req x) (LogInUser.validatePassword req y) := by
  intro resolve resolve' reject reject' resolved rejected
  refine Alike.call (c := veiled pkg) _ _ _ _ (SideBySide.compare _ _ _) ?_
  intro a b linked
  cases linked with
  | compare _ _ _ verdict =>
      rcases a with message | ok
      · exact alike_reject_shared pkg _ _ _ rejected
      · cases ok with
        | false => exact alike_reject_shared pkg _ _ _ rejected
        | true => exact resolved _ _ (without_password _ _ (hydrated_alike _ _ same.row) _ (by simp))

theorem generate_token_alike (userDetails : Row UserField) :
    AlikePromise (veiled pkg) (fun a b => a = b) (LogInUser.generateToken pkg userDetails)
    (LogInUser.generateToken pkg userDetails) := by
  intro resolve resolve' reject reject' resolved rejected
  refine .sample _ _ fun id => .sample _ _ fun iat => .sample _ _ fun exp => ?_
  dsimp only
  split
  · exact alike_reject_shared pkg _ _ _ rejected
  · exact resolved _ _ rfl

theorem save_token_alike (session : LogInUser.Session) :
    AlikePromise (veiled pkg) (fun a b => a = b) (LogInUser.saveToken session) (LogInUser.saveToken session) := by
  intro resolve resolve' reject reject' resolved rejected
  apply alike_auths pkg
  intro ans
  cases ans with
  | error message => exact alike_reject_shared pkg _ _ _ rejected
  | ok found =>
      apply alike_when_found pkg _ found found (rel_self found) documentValue is_empty_document
      · refine .sample _ _ fun at_ => ?_
        apply alike_auths pkg
        intro saved
        cases saved with
        | error message => exact alike_reject_shared pkg _ _ _ rejected
        | ok doc => exact resolved _ _ rfl
      · intro retrieved _ same
        subst same
        refine .sample _ _ fun at_ => ?_
        apply alike_auths pkg
        intro saved
        cases saved with
        | error message => exact alike_reject_shared pkg _ _ _ rejected
        | ok doc => exact resolved _ _ rfl

theorem log_in_alike : Alike (veiled pkg) (logInUser pkg req) (logInUser pkg req) := by
  apply alike_finish (veiled pkg) (fun a b => a = b)
  · refine alike_and_then (veiled pkg) (fun a b => a = b) _ _ _ _ _ ?_ fun x y same => same ▸ save_token_alike pkg x
    refine alike_and_then (veiled pkg) (fun a b => a = b) _ _ _ _ _ ?_ fun x y same => same ▸ generate_token_alike pkg x
    exact alike_and_then (veiled pkg) _ _ _ _ _ _ (find_user_alike pkg req) (validate_password_alike pkg req)
  · intro granted _ same
    subst same
    exact .assign _ _ _ (.fetch _ _ fun body => .emit _ _ _ .halt)
  · intro reason
    cases reason with
    | thrown error => exact .crash
    | api error => exact .assign _ _ _ (.fetch _ _ fun body => .emit _ _ _ .halt)

theorem with_password_alike (r s : Row UserField) (same : AgreeOff .password r s) (hash : String) :
    RecoverForgotPassword.withPassword r hash = RecoverForgotPassword.withPassword s hash := by
  funext path
  cases path with
  | password => rfl
  | _ => exact same _ (by simp)

theorem with_password_uniform (row : Row UserField) (hash : String) :
    Uniform UserField.password (overlay (RecoverForgotPassword.withPassword row hash)) where
  agree := by
    intro r s same path shown
    simp [overlay, same path shown]
  writes := .inr ⟨.str hash, fun _ => rfl⟩

theorem recover_alike : Alike (veiled pkg) (recoverForgotPassword pkg req) (recoverForgotPassword pkg req) := by
  apply alike_finish (veiled pkg) (fun a b => a = b)
  · apply alike_and_then (veiled pkg) (AgreeOff UserField.password)
    · apply alike_and_then (veiled pkg) (fun _ _ => True)
      · intro resolve resolve' reject reject' resolved rejected
        unfold RecoverForgotPassword.validateUserInput
        split
        · split
          · exact rejected _
          · exact alike_reject_shared pkg _ _ _ rejected
          · exact resolved _ _ trivial
        · exact alike_reject_shared pkg _ _ _ rejected
      · intro _ _ _ resolve resolve' reject reject' resolved rejected
        refine alike_users pkg (.findOne .email _) (by simp [Blind]) _ _ ?_
        intro x y alike
        cases alike with
        | error message => exact rejected _
        | ok a b found =>
            apply alike_when_found pkg (AgreeOff UserField.password) _ _ _ leanValue is_empty_lean
            · exact rejected _
            · exact resolved
            · cases found with
              | none => exact .none
              | some here => exact .some here.row
    · intro r s same resolve resolve' reject reject' resolved rejected
      refine .sample _ _ fun random => .sample _ _ fun salted => ?_
      dsimp only [hashPassword]
      rw [with_password_alike r s same]
      refine alike_users pkg (.update .email _ (.apply _)) ⟨by simp, with_password_uniform s _⟩ _ _ ?_
      intro x y alike
      have equal : x = y := alike
      subst equal
      cases x with
      | error message => exact rejected _
      | ok reply =>
          apply alike_when_found pkg _ _ _ (rel_self (some reply)) replyValue is_empty_reply _ _ _ _ (rejected _)
          intro a b equal
          subst equal
          exact .emit _ _ _ (resolved _ _ rfl)
  · intro response _ same
    subst same
    exact .emit _ _ _ .halt
  · intro error
    exact .emit _ _ _ .halt

theorem get_all_users_alike : Alike (veiled pkg) getAllUsers getAllUsers := by
  refine alike_users pkg (.find none) trivial _ _ ?_
  intro x y alike
  cases alike with
  | error message => exact alike_send pkg _
  | ok a b docs =>
      have rows : (a.map fun doc => without doc.row [.password]) = b.map fun doc => without doc.row [.password] := by
        induction docs with
        | nil => rfl
        | cons head tail ih => rw [List.map_cons, List.map_cons, without_password _ _ head.row _ (by simp), ih]
      dsimp only
      rw [rows]
      split
      · exact .crash
      · exact alike_send pkg _
      · exact alike_send pkg _

theorem get_user_by_id_alike : Alike (veiled pkg) (getUserById req) (getUserById req) := by
  refine alike_users pkg (.findOne .userId _) (by simp [Blind]) _ _ ?_
  intro x y alike
  cases alike with
  | error message => exact alike_send pkg _
  | ok a b found =>
      apply alike_when_found pkg (fun a b => a = b) _ _ _ leanValue is_empty_lean _ _ _ _ (alike_send pkg _)
      · intro result _ same
        subst same
        exact alike_send pkg _
      · cases found with
        | none => exact .none
        | some here => exact .some (without_password _ _ here.row _ (by simp))

theorem delete_user_alike : Alike (veiled pkg) (deleteUserById req) (deleteUserById req) := by
  refine alike_users pkg (.findOneAndRemove .userId _) (by simp [Blind]) _ _ ?_
  intro x y alike
  cases alike with
  | error message => exact alike_send pkg _
  | ok a b found =>
      apply alike_when_found pkg _ a b found documentValue is_empty_document _ _ _ _ (alike_send pkg _)
      intro first second same
      rw [same.id, without_password _ _ (hydrated_alike _ _ same.row) _ (by simp)]
      exact alike_send pkg _

-- Plain fields, the password not among them.
def SparesPassword (body : Js.Value) : Prop := Plain body ∧ ¬ Names body UserField.password

theorem edit_blind (updates : UpdatesBy (userCast pkg) pkg.userChange) (value : Js.Value) (body : Js.Value)
    (spares : SparesPassword body) :
    Blind UserField.password (.update .userId value (pkg.userChange body)) := by
  cases made : pkg.userChange body with
  | rejected | empty => trivial
  | apply effect =>
      have unset := unnamed_unset (userCast pkg) body UserField.password spares.2
      rw [applied_values (userCast pkg) pkg.userChange updates body spares.1 effect made]
      refine ⟨by simp, ⟨?_, .inl fun row => by simp [overlay, unset]⟩⟩
      intro r s same path shown
      simp [overlay, same path shown]

theorem edit_alike (updates : UpdatesBy (userCast pkg) pkg.userChange) (spares : SparesPassword req.body) :
    Alike (veiled pkg) (editUser pkg req) (editUser pkg req) := by
  refine alike_users pkg _ (edit_blind pkg updates _ req.body spares) _ _ ?_
  intro x y alike
  have equal : x = y := alike
  subst equal
  cases x with
  | error message => exact alike_send pkg _
  | ok reply =>
      apply alike_when_found pkg _ _ _ (rel_self (some reply)) replyValue is_empty_reply _ _ _ _ (alike_send pkg _)
      intro a b equal
      subst equal
      exact alike_send pkg _

theorem logout_alike (userId : Option String) : Alike (veiled pkg) (logout userId) (logout userId) := by
  apply alike_auths pkg
  intro ans
  cases ans with
  | error message => exact alike_send pkg _
  | ok found =>
      exact alike_when_found pkg _ _ _ (rel_self found) documentValue is_empty_document _ _ _ _ (alike_send pkg _)
        fun _ _ _ => alike_send pkg _

theorem find_meeting_alike : AlikePromise (veiled pkg) (fun a b => a = b) (findMeetingDetails req) (findMeetingDetails req) := by
  intro resolve resolve' reject reject' resolved rejected
  apply alike_meetings pkg
  intro ans
  cases ans with
  | error message => exact rejected _
  | ok found =>
      exact alike_when_found pkg _ _ _ (rel_self found) (fun doc => leanValue doc.row)
        (fun doc => is_empty_lean doc.row) _ _ _ _ (rejected _) resolved

theorem add_meeting_alike : Alike (veiled pkg) (addMeeting pkg req) (addMeeting pkg req) := by
  apply alike_finish (veiled pkg) (fun a b => a = b)
  · apply alike_and_then (veiled pkg) (fun _ _ => True)
    · intro resolve resolve' reject reject' resolved rejected
      unfold AddMeeting.validateUserInput
      split
      · exact resolved _ _ trivial
      · exact rejected _
    · intro _ _ _ resolve resolve' reject reject' resolved rejected
      refine .sample _ _ fun id => .sample _ _ fun at_ => ?_
      apply alike_meetings pkg
      intro ans
      cases ans with
      | error message => exact rejected _
      | ok doc => exact .emit _ _ _ (resolved _ _ rfl)
  · intro meeting _ same
    subst same
    exact alike_send pkg _
  · intro err
    exact .emit _ _ _ .halt

theorem update_meeting_alike : Alike (veiled pkg) (updateMeeting pkg req) (updateMeeting pkg req) := by
  apply alike_finish (veiled pkg) (fun a b => a = b)
  · apply alike_and_then (veiled pkg) _ _ _ _ _ _ (find_meeting_alike pkg req)
    intro doc _ same
    subst same
    intro resolve resolve' reject reject' resolved rejected
    apply alike_meetings pkg
    intro ans
    cases ans with
    | error message => exact rejected _
    | ok reply =>
        apply alike_when_found pkg _ _ _ (rel_self (some reply)) replyValue is_empty_reply _ _ _ _ (rejected _)
        intro a b equal
        subst equal
        split
        · exact .crash
        · exact .emit _ _ _ (resolved _ _ rfl)
  · intro reply _ same
    subst same
    exact alike_send pkg _
  · intro err
    exact .emit _ _ _ .halt

theorem delete_meeting_alike : Alike (veiled pkg) (deleteMeeting pkg req) (deleteMeeting pkg req) := by
  apply alike_finish (veiled pkg) (fun a b => a = b)
  · apply alike_and_then (veiled pkg) _ _ _ _ _ _ (find_meeting_alike pkg req)
    intro doc _ same
    subst same
    intro resolve resolve' reject reject' resolved rejected
    apply alike_meetings pkg
    intro ans
    cases ans with
    | error message => exact rejected _
    | ok found =>
        apply alike_when_found pkg _ _ _ (rel_self found) documentValue is_empty_document _ _ _ _ (rejected _)
        intro a b equal
        subst equal
        exact .emit _ _ _ (resolved _ _ rfl)
  · intro response _ same
    subst same
    exact .emit _ _ _ .halt
  · intro err
    exact .emit _ _ _ .halt

theorem get_meetings_alike : Alike (veiled pkg) (getAllMeetingsOfUser req) (getAllMeetingsOfUser req) := by
  apply alike_finish (veiled pkg) (fun a b => a = b)
  · apply alike_and_then (veiled pkg) (fun _ _ => True)
    · intro resolve resolve' reject reject' resolved rejected
      unfold GetAllMeetingsOfUser.validateUrlParam
      split
      · exact resolved _ _ trivial
      · exact rejected _
    · intro _ _ _ resolve resolve' reject reject' resolved rejected
      apply alike_meetings pkg
      intro ans
      cases ans with
      | error message => exact rejected _
      | ok docs =>
          dsimp only
          split
          · exact .crash
          · exact rejected _
          · exact resolved _ _ rfl
  · intro meetings _ same
    subst same
    exact alike_send pkg _
  · intro err
    exact .emit _ _ _ .halt

theorem get_meeting_alike : Alike (veiled pkg) (getMeetingByMeetingId req) (getMeetingByMeetingId req) := by
  apply alike_meetings pkg
  intro ans
  cases ans with
  | error message => exact alike_send pkg _
  | ok found =>
      apply alike_when_found pkg _ _ _ (rel_self _) leanValue is_empty_lean _ _ _ _ (alike_send pkg _)
      intro a b equal
      subst equal
      exact alike_send pkg _

theorem controller_alike (updates : UpdatesBy (userCast pkg) pkg.userChange) (userId : Option String) (endpoint : Endpoint)
    (spares : endpoint = .editUser → SparesPassword req.body) :
    Alike (veiled pkg) (controller pkg req userId endpoint) (controller pkg req userId endpoint) := by
  cases endpoint with
  | signUpUser => exact sign_up_alike pkg req
  | logInUser => exact log_in_alike pkg req
  | logout => exact logout_alike pkg userId
  | getAllUsers => exact get_all_users_alike pkg
  | getUserById => exact get_user_by_id_alike pkg req
  | deleteUserById => exact delete_user_alike pkg req
  | editUser => exact edit_alike pkg req updates (spares rfl)
  | recoverForgotPassword => exact recover_alike pkg req
  | addMeeting => exact add_meeting_alike pkg req
  | updateMeeting => exact update_meeting_alike pkg req
  | deleteMeeting => exact delete_meeting_alike pkg req
  | getAllMeetingsOfUser => exact get_meetings_alike pkg req
  | getMeetingByMeetingId => exact get_meeting_alike pkg req

end Stages

theorem app_alike (pkg : Packages) (updates : UpdatesBy (userCast pkg) pkg.userChange) (http : HttpRequest)
    (spares : endpointOf http = some .editUser → SparesPassword http.body) :
    Alike (veiled pkg) (app pkg http) (app pkg http) := by
  unfold app
  cases route : endpointOf http with
  | none => exact .emit _ _ _ .halt
  | some endpoint =>
      have controlled := fun userId =>
          controller_alike pkg (requestOf http) updates userId endpoint fun edit => spares (edit ▸ route)
      by_cases isGuarded : guarded endpoint = true
      · simp only [handle, if_pos isGuarded, isAuthorized]
        split
        · apply alike_auths pkg
          intro ans
          cases ans with
          | error message => exact alike_send pkg _
          | ok found =>
              apply alike_when_found pkg _ _ _ (rel_self found) documentValue is_empty_document _ _ _ _ (alike_send pkg _)
              intro auth _ same
              subst same
              refine .sample _ _ fun at_ => ?_
              split
              · exact alike_send pkg _
              · exact .emit _ _ _ (controlled _)
        · exact alike_send pkg _
      · simp only [handle, if_neg isGuarded]
        exact controlled none

-- A password that is written was not stored before.
def FreshHash (pkg : Packages) : Guard (server pkg) := fun _ store _ op =>
  match op with
  | .users cmd => Fresh UserField.password pkg.castQuery store.users cmd
  | _ => True

def SameVerdict (pkg : Packages) (a b : World (server pkg)) : Label (server pkg) → Prop
  | .start _ _ | .resume _ (.fail _) _ => True
  | .resume i (.pick _) _ =>
      ∀ job password hash next job' password' hash' next', a.tasks[i]? = some ⟨job, .call (.compare password hash) next⟩ →
      b.tasks[i]? = some ⟨job', .call (.compare password' hash') next'⟩ → compareHashes pkg password hash =
          compareHashes pkg password' hash'

def Comparable (pkg : Packages) (a b : World (server pkg)) (label : Label (server pkg)) : Prop :=
  SameVerdict pkg a b label ∧ Guarded (FreshHash pkg) a label ∧ Guarded (FreshHash pkg) b label

theorem comparable_carries (pkg : Packages) (updates : UpdatesBy (userCast pkg) pkg.userChange) (a b : World (server pkg))
    (label : Label (server pkg)) (twins : Twins (veiled pkg) a b) (comparable : Comparable pkg a b label)
    (spares : ∀ http env, label = .start http env → endpointOf http = some .editUser → SparesPassword http.body) :
    Carries (veiled pkg) a b label := by
  obtain ⟨verdict, freshA, freshB⟩ := comparable
  cases label with
  | start http env => exact app_alike pkg updates http (spares http env rfl)
  | resume i choice env =>
      intro job op next job' op' next' here there asks
      obtain ⟨users, auths, meetings⟩ := twins.store
      cases asks with
      | users cmd blind =>
          have answered := exec_alike UserField.password pkg.castQuery a.store.users b.store.users users
            (by decide) cmd choice blind (freshA job _ next here) (freshB job' _ next' there)
          exact ⟨.users cmd _ _ answered.1, answered.2, auths, meetings⟩
      | auths cmd =>
          refine ⟨?_, users, ?_, meetings⟩
          · simp only [execute, auths]
            exact .auths cmd _
          · simp only [execute, auths]
      | meetings cmd =>
          refine ⟨?_, users, auths, ?_⟩
          · simp only [execute, meetings]
            exact .meetings cmd _
          · simp only [execute, meetings]
      | compare password hash hash' =>
          cases choice with
          | fail message => exact ⟨.compare password hash hash' _, users, auths, meetings⟩
          | pick n =>
              have equal := verdict job password hash next job' password hash' next' here there
              refine ⟨?_, users, auths, meetings⟩
              simp only [execute, equal]
              exact .compare password hash hash' _

-- The HTTP server and the socket server run side by side.
structure Deployment (pkg : Packages) where
  web : World (server pkg)
  sockets : SocketServer

inductive Event (pkg : Packages) where
  | web (label : Label (server pkg))
  | socket (event : SocketEvent)

def Deployment.step {pkg : Packages} (deployment : Deployment pkg) : Event pkg → Deployment pkg
  | .web label => { deployment with web := Resume.step deployment.web label }
  | .socket event => { deployment with sockets := socketStep pkg deployment.sockets event }

def Deployment.run {pkg : Packages} (events : List (Event pkg)) (deployment : Deployment pkg) : Deployment pkg :=
  events.foldl Deployment.step deployment

def webLabels {pkg : Packages} (events : List (Event pkg)) : List (Label (server pkg)) :=
  events.filterMap fun
    | .web label => some label
    | .socket _ => none

def socketEvents {pkg : Packages} (events : List (Event pkg)) : List SocketEvent :=
  events.filterMap fun
    | .web _ => none
    | .socket event => some event

theorem deployment_parts {pkg : Packages} (events : List (Event pkg)) (deployment : Deployment pkg) :
    (deployment.run events).web = Resume.run (webLabels events) deployment.web ∧
      (deployment.run events).sockets = socketRun pkg (socketEvents events) deployment.sockets := by
  induction events generalizing deployment with
  | nil => exact ⟨rfl, rfl⟩
  | cons event rest ih =>
      cases event with
      | web label => exact ih ⟨Resume.step deployment.web label, deployment.sockets⟩
      | socket event => exact ih ⟨deployment.web, socketStep pkg deployment.sockets event⟩

theorem password_hashes_do_not_leak (pkg : Packages) (updates : UpdatesBy (userCast pkg) pkg.userChange) (first second : Store)
    (same : SameButPasswords first second) (cell : Body) (sockets : SocketServer) (events : List (Event pkg))
    (spares : ∀ http ∈ startedJobs (webLabels events), endpointOf http = some .editUser → SparesPassword http.body)
    (comparable : AlongBoth (Comparable pkg) (webLabels events) (World.initial (server pkg) first cell)
      (World.initial (server pkg) second cell)) :
    let one := Deployment.run events ⟨World.initial (server pkg) first cell, sockets⟩
    let other := Deployment.run events ⟨World.initial (server pkg) second cell, sockets⟩
    told one.web.trace = told other.web.trace ∧ one.web.store.auths = other.web.store.auths ∧ one.sockets = other.sockets := by
  intro one other
  have start : Twins (veiled pkg) (World.initial (server pkg) first cell) (World.initial (server pkg) second cell) :=
    ⟨same, rfl, rfl, fun _ => .none, rfl⟩
  have twins : Twins (veiled pkg) one.web other.web := by
    rw [(deployment_parts events _).1, (deployment_parts events _).1]
    apply run_twins (veiled pkg) (Comparable pkg) _ _ _ _ start comparable
    intro a b label member twins comparable
    apply comparable_carries pkg updates a b label twins comparable
    intro http env started
    exact spares http (List.mem_filterMap.mpr ⟨label, member, by rw [started]⟩)
  exact ⟨twins.told, twins.store.auths, by rw [(deployment_parts events _).2, (deployment_parts events _).2]⟩

-- The condition of two steps side by side, by evaluation.
def comparesAlike (pkg : Packages) (a b : World (server pkg)) : Label (server pkg) → Bool
  | .start _ _ => true
  | .resume i _ _ =>
      match a.tasks[i]?, b.tasks[i]? with
      | some ⟨_, .call (.compare password hash) _⟩, some ⟨_, .call (.compare password' hash') _⟩ =>
          match compareHashes pkg password hash, compareHashes pkg password' hash' with
          | .ok verdict, .ok verdict' => verdict == verdict'
          | _, _ => false
      | _, _ => true

def freshFor (store : Store) : Op → Bool
  | .users (.update _ _ (.apply effect)) => store.users.docs.all fun user =>
    user.row .password != effect (fun _ => none) .password
  | _ => true

def comparesFresh (pkg : Packages) (a b : World (server pkg)) (label : Label (server pkg)) : Bool :=
  comparesAlike pkg a b label && passes (fun world _ op => freshFor world.store op) a label &&
    passes (fun world _ op => freshFor world.store op) b label

def allCompare (pkg : Packages) : List (Label (server pkg)) → World (server pkg) → World (server pkg) → Bool
  | [], _, _ => true
  | label :: rest, a, b => comparesFresh pkg a b label && allCompare pkg rest (step a label) (step b label)

theorem fresh_for_guards (pkg : Packages) (world : World (server pkg)) (label : Label (server pkg))
    (passed : passes (fun world _ op => freshFor world.store op) world label = true) : Guarded (FreshHash pkg) world label := by
  cases label with
  | start => trivial
  | resume i choice env =>
      intro job op next here
      have checked : freshFor world.store op = true := by simpa only [passes, here] using passed
      cases op with
      | auths | meetings | compare => trivial
      | users cmd =>
          cases cmd with
          | update path value change =>
              cases change with
              | rejected | empty => trivial
              | apply effect =>
                  intro condition _ user member _ stored writes same
                  have different := List.all_eq_true.mp checked user member
                  rw [same, writes] at different
                  simp at different
          | _ => trivial

theorem all_compare_sound (pkg : Packages) (labels : List (Label (server pkg))) (a b : World (server pkg))
    (passed : allCompare pkg labels a b = true) : AlongBoth (Comparable pkg) labels a b := by
  induction labels generalizing a b with
  | nil => trivial
  | cons label rest ih =>
      obtain ⟨here, later⟩ := Bool.and_eq_true_iff.mp passed
      obtain ⟨both, freshB⟩ := Bool.and_eq_true_iff.mp here
      obtain ⟨alike, freshA⟩ := Bool.and_eq_true_iff.mp both
      refine ⟨⟨?_, fresh_for_guards pkg a label freshA, fresh_for_guards pkg b label freshB⟩, ih _ _ later⟩
      cases label with
      | start => trivial
      | resume i choice env =>
          cases choice with
          | fail => trivial
          | pick n =>
              intro job password hash next job' password' hash' next' there there'
              simp only [comparesAlike, there, there'] at alike
              split at alike
              · next one two first second => rw [first, second, beq_iff_eq.mp alike]
              · cases alike

def Reference.otherHash : Doc UserField where
  id := 0
  row := fun
    | .password => some (.str (Reference.hash "pw" "other"))
    | path => Reference.account.row path

def Reference.otherUser : Store where
  users := ⟨[Reference.otherHash], 1, by simp [Reference.otherHash], by simp, by simp⟩
  auths := .none
  meetings := .none

-- A login, its token shown to the socket server and used for an edit, and a
-- recovery.
def Reference.visited : List (Event Reference.packages) :=
  (Reference.edited "u1").map .web ++ [.socket .connection, .socket (.setUser 0 (.str (Reference.tokenAt 5000)) 6000)] ++
    (.start (Reference.recoverRequest "a@b.co") (Reference.ambient 6000) :: Reference.turns 2 5 6000).map .web

theorem reference_hashes_do_not_leak :
    told (Deployment.run Reference.visited ⟨World.initial _ Reference.oneUser (.thrown ""), SocketServer.initial⟩).web.trace =
      told (Deployment.run Reference.visited
        ⟨World.initial _ Reference.otherUser (.thrown ""), SocketServer.initial⟩).web.trace := by
  refine (password_hashes_do_not_leak Reference.packages reference_user_updates Reference.oneUser
      Reference.otherUser ?_ (.thrown "")
    SocketServer.initial Reference.visited ?_ ?_).1
  · refine ⟨⟨rfl, .cons ⟨rfl, ?_⟩ .nil⟩, rfl, rfl⟩
    intro path shown
    cases path with
    | password => exact absurd rfl shown
    | _ => rfl
  · have jobs : startedJobs (webLabels Reference.visited) =
        [Reference.logInRequest, Reference.editRequest "u1", Reference.recoverRequest "a@b.co"] := rfl
    rw [jobs]
    intro http member edits
    rcases List.mem_cons.mp member with rfl | member
    · cases edits
    · rcases List.mem_cons.mp member with rfl | member
      · exact ⟨⟨_, rfl, by decide⟩, by decide⟩
      · cases List.mem_singleton.mp member
        cases edits
  · exact all_compare_sound _ _ _ _ (by decide +kernel)

end Planner
