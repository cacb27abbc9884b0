import PlannerBackend.Answers
import PlannerBackend.Fairness
import PlannerBackend.Reference

set_option autoImplicit false

namespace Planner

open Docs Resume

def printable (body : Js.Value) : Bool :=
  ["topic", "meetingDescription", "meetingStartDate", "meetingPlace"].all fun name => (Js.toText (body.get name)).isOk

theorem mail_printable (pkg : Packages) (row : Row MeetingField) (body : Js.Value) :
    (UpdateMeeting.mail pkg row body).isOk = printable body := by
  simp only [UpdateMeeting.mail, printable, List.all_cons, List.all_nil]
  cases Js.toText (body.get "topic") <;> cases Js.toText (body.get "meetingDescription") <;>
    cases Js.toText (body.get "meetingStartDate") <;> cases Js.toText (body.get "meetingPlace") <;> rfl

def Unhashable (http : HttpRequest) : Prop :=
  endpointOf http = some .signUpUser ∧ Js.isString (http.body.get "password") = false

def emailFree (http : HttpRequest) : Note sig := .asked (.users (.findOne .email (http.body.get "email"))) (.ok none)

def acknowledged (pkg : Packages) (http : HttpRequest) (reply : UpdateReply) : Note sig :=
  .asked (.meetings (.update .meetingId ((requestOf http).param "meetingId") (pkg.meetingChange http.body))) (.ok reply)

-- A sign-up for a free email whose password bcrypt cannot hash, or a meeting
-- update that was carried out and whose body the email cannot print.
def Stuck (pkg : Packages) (http : HttpRequest) (h : History sig) : Prop :=
  Unhashable http ∧ emailFree http ∈ h ∨
    (endpointOf http = some .updateMeeting ∧ printable http.body = false) ∧ ∃ reply, acknowledged pkg http reply ∈ h

def hashes (http : HttpRequest) : Spec sig where
  asks := fun _ _ => True
  tells := fun _ _ => True
  ends := fun h => ¬ (Unhashable http ∧ emailFree http ∈ h)
  breaks := fun _ => True

section Handlers

variable (pkg : Packages) (http : HttpRequest)

theorem hashes_sign_up (odd : Unhashable http) : Meets (hashes http) (signUpUser pkg (requestOf http)) none [] := by
  have answer : ∀ response h, emailFree http ∉ h → Meets (hashes http) (send response) none h := by
    intro response h taken
    refine ⟨trivial, ?_⟩
    intro stuck
    obtain ⟨_, free⟩ := stuck
    rcases List.mem_cons.mp free with same | older
    · cases same
    · exact taken older
  simp only [signUpUser, Promise.finish, Promise.andThen]
  apply sign_up_validate_rule
  · intro accepted _
    rw [meets_later]
    apply create_user_rule (hashes http) pkg (requestOf http) none [] _ _ accepted
    · trivial
    · intro ans response other _
      apply answer
      intro free
      cases List.mem_singleton.mp free
      exact other rfl
    · intro _
      trivial
    · intro row _
      trivial
    · intro row message response hashed
      rw [show Js.isString ((requestOf http).body.get "password") = false from odd.2] at hashed
      cases hashed
    · intro row doc hashed
      rw [show Js.isString ((requestOf http).body.get "password") = false from odd.2] at hashed
      cases hashed
  · intro body
    exact answer _ [] (by simp)

theorem app_hashes : Meets (hashes http) (app pkg http) none [] := by
  by_cases odd : Unhashable http
  · unfold app
    rw [odd.1]
    exact hashes_sign_up pkg http odd
  · exact meets_any _ (fun _ _ => trivial) (fun _ _ => trivial) (fun _ both => odd both.1) (fun _ => trivial) _ _ _

theorem escape_stuck (h : History sig) (escape : Escape pkg http h) : Stuck pkg http h ∧ Unanswered h := by
  cases escape with
  | hashing rest route odd clean =>
      exact ⟨.inl ⟨⟨route, odd⟩, List.mem_cons_self⟩, unanswered_cons _ _ rfl (clean_unanswered _ clean)⟩
  | printing found thrown reply rest route odd clean =>
      refine ⟨.inr ⟨⟨route, ?_⟩, reply, List.mem_cons_self⟩,
        unanswered_cons _ _ rfl (unanswered_cons _ _ rfl (clean_unanswered _ clean))⟩
      rw [← mail_printable pkg found.row, odd]
      rfl

theorem broken_stuck (labels : List (Label (server pkg))) (store : Store) (cell : Body) (i : Nat)
    (here : (run labels (World.initial (server pkg) store cell)).tasks[i]? = some ⟨http, .crash⟩) :
    Stuck pkg http (view i (run labels (World.initial (server pkg) store cell)).trace) := by
  have tracked := run_tracked (contract pkg) (app_contract pkg) labels _ (initial_tracked _ store cell)
  exact (escape_stuck pkg http _ (tracked.meets i _ here)).1

theorem reply_printable (past : History sig) (body : Body) (given : Reply pkg http past body)
    (route : endpointOf http = some .updateMeeting) (reply : UpdateReply) (acked : acknowledged pkg http reply ∈ past) :
    printable http.body = true := by
  cases given with
  | refused response bad clean => cases (clean _ acked).2.2
  | nobody other clean => cases (clean _ acked).2.2
  | done response effect =>
      cases effect with
      | meetingUpdated found mail ack rest _ clean printed =>
          rw [← mail_printable pkg found.row, printed]
          rfl
      | shown endpoint _ message data other reading clean => cases (clean _ acked).2.2
      | _ => cases route.symm.trans ‹endpointOf http = some _›

theorem count_unanswered (h : History sig) (unanswered : Unanswered h) : h.countP isSend = 0 := by
  rw [List.countP_eq_zero]
  intro note member
  simp [unanswered note member]

theorem count_answered (status : Nat) (body : Body) (past : History sig) (unanswered : Unanswered past) :
    (.said (.send status body) :: past : History sig).countP isSend = 1 := by
  rw [List.countP_cons, count_unanswered past unanswered]
  rfl

theorem halted_answered (h : History sig) (ended : (contract pkg http).ends h) (hashed : (hashes http).ends h) :
    h.countP isSend = 1 ∧ ¬ Stuck pkg http h := by
  obtain ⟨status, body, past, rfl, given⟩ := ended
  refine ⟨count_answered status body past (reply_unanswered pkg http past body given), ?_⟩
  intro stuck
  rcases stuck with odd | ⟨⟨route, odd⟩, reply, acked⟩
  · exact hashed odd
  · rcases List.mem_cons.mp acked with same | older
    · cases same
    · rw [reply_printable pkg http past body given route reply older] at odd
      cases odd

end Handlers

theorem answered_once_unless_stuck (pkg : Packages) (store : Store) (cell : Body) (labels : List (Label (server pkg)))
    (world : World (server pkg)) (reached : world = run labels (World.initial (server pkg) store cell)) (i : Nat)
    (http : HttpRequest) (proc : Process) (here : world.tasks[i]? = some ⟨http, proc⟩) :
    (view i world.trace).countP isSend ≤ 1 ∧
    (finished proc = true → ((view i world.trace).countP isSend = 1 ↔ ¬ Stuck pkg http (view i world.trace))) ∧
    ∀ schedule : Nat → Label (server pkg), (∀ n, ∃ k, n ≤ k ∧ isTurn i (schedule k)) →
      ∃ n task, (run ((List.range n).map schedule) world).tasks[i]? = some task ∧ finished task.proc = true := by
  have standing := standing_reached pkg labels store cell i
  have tracked := run_tracked (contract pkg) (app_contract pkg) labels _ (initial_tracked _ store cell)
  have hashed := run_tracked (m := server pkg) hashes (app_hashes pkg) labels _ (initial_tracked _ store cell)
  have rest := run_rests labels (World.initial (server pkg) store cell) (by simp [AllRest, World.initial])
  rw [← reached] at standing tracked hashed rest
  rw [show (jobs world)[i]? = some http from jobs_lookup world i _ here] at standing
  refine ⟨?_, ?_, fun schedule fair => eventually_finished schedule world i fair rest _ here⟩
  · rcases standing with unanswered | ⟨status, body, past, shape, unanswered, _⟩
    · rw [count_unanswered _ unanswered]
      omega
    · rw [shape]
      exact Nat.le_of_eq (count_answered status body past unanswered)
  · intro stopped
    cases proc with
    | halt =>
        obtain ⟨once, free⟩ := halted_answered pkg http _ (tracked.meets i _ here) (hashed.meets i _ here)
        exact ⟨fun _ => free, fun _ => once⟩
    | crash =>
        obtain ⟨stuck, unanswered⟩ := escape_stuck pkg http _ (tracked.meets i _ here)
        rw [count_unanswered _ unanswered]
        exact ⟨fun impossible => absurd impossible (by decide), fun free => absurd stuck free⟩
    | _ => cases stopped

theorem reference_answered_once : (view 0 (run (Reference.logIn 5000) Reference.initial).trace).countP isSend = 1 := by
  have ended : ((run (Reference.logIn 5000) Reference.initial).tasks[0]?.map fun task => finished task.proc) = some true := by
    decide +kernel
  obtain ⟨⟨http, proc⟩, here, stopped⟩ := Option.map_eq_some_iff.mp ended
  have owned := jobs_lookup _ 0 _ here
  rw [run_jobs] at owned
  cases owned
  refine ((answered_once_unless_stuck Reference.packages Reference.oneUser (.thrown "") (Reference.logIn 5000) _ rfl 0
    Reference.logInRequest proc here).2.1 stopped).mpr ?_
  intro stuck
  rcases stuck with ⟨⟨route, _⟩, _⟩ | ⟨⟨route, _⟩, _⟩
  · cases route
  · cases route

def Reference.numberPassword : HttpRequest where
  method := .post
  path := ["api", "v1", "user", "signup"]
  query := .undefined
  body := .obj [("email", .str "a@b.co"), ("password", .num "5")]
  header := fun _ => none

theorem number_password_goes_unanswered :
    let world := run (.start Reference.numberPassword (Reference.ambient 5000) :: Reference.turns 0 2 5000)
      (World.initial (server Reference.packages) ⟨.none, .none, .none⟩ (.thrown ""))
    (world.tasks.all fun task => finished task.proc) = true ∧ world.tasks.length = 1 ∧
        (view 0 world.trace).countP isSend = 0 := by
  decide +kernel

theorem effect_fine (pkg : Packages) (http : HttpRequest) (h : History sig) (response : Response)
    (effect : Effect pkg http h response) :
    response.error = false ∧ response.status = 200 := by
  cases effect <;> exact ⟨rfl, rfl⟩

theorem failure_clean (pkg : Packages) (http : HttpRequest) (h : History sig) (response : Response)
    (reply : Reply pkg http h (.api response)) (failed : response.error = true) : Clean h := by
  cases reply with
  | refused _ bad clean => exact clean
  | nobody _ clean => exact clean
  | done _ effect =>
      rw [(effect_fine pkg http h response effect).1] at failed
      cases failed

theorem idle_task_keeps_store (pkg : Packages) (labels : List (Label (server pkg))) (start : World (server pkg)) (i : Nat)
    (idle : ∀ op ans, (i, .asked op ans) ∈ (run labels start).trace → wrote op ans = false) (before : List (Label (server pkg)))
    (choice : Choice) (env : Nat → Ambient) (after : List (Label (server pkg)))
    (split : labels = before ++ .resume i choice env :: after) :
    (step (run before start) (.resume i choice env)).store = (run before start).store := by
  rcases step_store (run before start) (.resume i choice env) with same | ⟨j, picked, _, job, op, next, isLabel, here, stored⟩
  · exact same
  · cases isLabel
    rw [stored]
    apply execute_idle pkg op choice
    apply idle op
    rw [split]
    exact run_records before after start i job op next choice env here

theorem failure_leaves_no_trace (pkg : Packages) (store : Store) (cell : Body) (labels : List (Label (server pkg)))
    (world : World (server pkg)) (reached : world = run labels (World.initial (server pkg) store cell)) (i : Nat)
    (http : HttpRequest) (here : (jobs world)[i]? = some http) (status : Nat) (response : Response)
    (answered : (i, .said (.send status (.api response))) ∈ world.trace) (failed : response.error = true) :
    (∀ op ans, (i, .asked op ans) ∈ world.trace → wrote op ans = false) ∧ (∀ mail, (i, .said (.mail mail)) ∉ world.trace) ∧
    ∀ before choice env after, labels = before ++ .resume i choice env :: after →
      (step (run before (World.initial (server pkg) store cell)) (.resume i choice env)).store =
        (run before (World.initial (server pkg) store cell)).store := by
  subst reached
  obtain ⟨past, shape, _, reply⟩ := answer_reply pkg labels store cell i http status _ here answered
  have clean := failure_clean pkg http past response reply failed
  have idle : ∀ op ans, (i, .asked op ans) ∈ (run labels (World.initial (server pkg) store cell)).trace →
      wrote op ans = false := by
    intro op ans member
    rw [← mem_view, shape] at member
    rcases List.mem_cons.mp member with same | older
    · cases same
    · exact (clean _ older).2.2
  refine ⟨idle, ?_, idle_task_keeps_store pkg labels _ i idle⟩
  intro mail member
  rw [← mem_view, shape] at member
  rcases List.mem_cons.mp member with same | older
  · cases same
  · cases (clean _ older).2.1

def Reference.wrongPassword : List (Label (server Reference.packages)) :=
  .start { Reference.logInRequest with body := .obj [("email", .str "a@b.co"), ("password", .str "no")] }
    (Reference.ambient 5000) :: Reference.turns 0 4 5000

theorem reference_failed_login_writes_nothing :
    (step (run (Reference.wrongPassword.take 3) Reference.initial) (.resume 0 (.pick 0) (Reference.ambient 5000))).store =
      (run (Reference.wrongPassword.take 3) Reference.initial).store :=
  (failure_leaves_no_trace Reference.packages Reference.oneUser (.thrown "") Reference.wrongPassword _ rfl 0 _
    (by rw [run_jobs]; rfl) 400
    ⟨true, "wrong password.login failed", 400, .null⟩ (mem_plain_answers _ _ _ _ _ _ (by decide +kernel)) rfl).2.2 _ _ _
    (Reference.turns 0 1 5000) rfl

end Planner
