import PlannerBackend.Exclusive

set_option autoImplicit false

namespace Planner

open Docs Resume

def LoginOf (known : List HttpRequest) (trace : Trace sig) (userId : Option String) (j : Nat) : Prop :=
  ∃ http value doc, known[j]? = some http ∧ endpointOf http = some .logInUser ∧
    (j, .asked (.users (.findOne .email value)) (.ok (some doc))) ∈ trace ∧ userIdOf doc.row = userId

theorem opens_login (pkg : Packages) (known : List HttpRequest) (trace : Trace sig)
    (lawful : Lawful (m := server pkg) (contract pkg) known trace) (j : Nat) (note : Note sig) (member : (j, note) ∈ trace)
    (userId : Option String) (opens : Opens userId note) :
    LoginOf known trace userId j := by
  obtain ⟨newer, older, split⟩ := List.append_of_mem member
  obtain ⟨http, here, allowed⟩ := lawful newer j note older split
  cases note with
  | said => cases opens
  | asked op ans =>
      cases op with
      | users | meetings | compare => cases opens
      | auths cmd =>
          cases cmd with
          | findOne | find | resave | findOneAndRemove | update => cases opens
          | insert row =>
              obtain ⟨_, route, session, at_, rest, rfl, shape, issued⟩ := allowed
              obtain ⟨doc, rfl, named⟩ := issued_account pkg _ rest session issued
              have found : (.asked (.users (.findOne .email ((requestOf http).body.get "email"))) (.ok (some doc)) : Note sig) ∈
                  view j older := by
                rw [shape]
                simp [checkedBy]
              refine ⟨http, (requestOf http).body.get "email", doc, here, route, ?_, ?_⟩
              · rw [split]
                exact List.mem_append_right _ (List.mem_cons_of_mem _ ((mem_view j _ older).mp found))
              · rw [named, ← text_id_scalar session.userId]
                exact opens

theorem logout_effect (pkg : Packages) (http : HttpRequest) (h : History sig) (response : Response)
    (route : endpointOf http = some .logout) (effect : Effect pkg http h response) :
    ∃ userId doc rest, h = removal userId doc :: rest ∧ Passed pkg http userId rest := by
  cases effect with
  | loggedOut userId doc rest _ passed => exact ⟨userId, doc, rest, rfl, passed⟩
  | shown endpoint h message data other reading clean =>
      cases route.symm.trans other
      cases reading
  | _ => cases route.symm.trans ‹endpointOf http = some _›

theorem accepted_has_record (pkg : Packages) (undoes : VerifyUndoesSign pkg) (strings : StringQueries pkg) (store : Store)
    (genuine : ∀ auth ∈ store.auths.docs, Genuine pkg auth) (req : Request) (token : String)
    (presented : presentedToken req = .str token) (claims : Claims) (signed : pkg.jwtSign claims secretKey = .ok token)
    (choice : Choice) (at_ : Ambient) (userId : Option String) (accepted : authorisedAs pkg req choice at_ store = some userId) :
    ∃ auth ∈ store.auths.docs, owner auth.row = text (claims.data .userId) := by
  obtain ⟨auth, member, isToken, decoded, verified, _⟩ :=
    accepted_held pkg strings store genuine req token presented at_ choice userId accepted
  refine ⟨auth, member, ?_⟩
  rw [← genuine_verdict pkg undoes auth (genuine auth member) token isToken _ decoded verified,
    undoes claims secretKey token at_.now decoded signed verified]

theorem logout_removed (pkg : Packages) (labels : List (Label (server pkg))) (store : Store) (cell : Body) (i : Nat)
    (http : HttpRequest) (owned : (jobs (run labels (World.initial (server pkg) store cell)))[i]? = some http)
    (route : endpointOf http = some .logout) (userId : Option String) (status : Nat)
    (passedAs : (i, .said (.authorised userId)) ∈ (run labels (World.initial (server pkg) store cell)).trace)
    (answered : (i, .said (.send status (.api (generate false "Logged Out Successfully" 200 .null)))) ∈
      (run labels (World.initial (server pkg) store cell)).trace) :
    ∃ doc, (i, removal userId doc) ∈ (run labels (World.initial (server pkg) store cell)).trace := by
  obtain ⟨past, shape, _, reply⟩ := answer_reply pkg labels store cell i http status _ owned answered
  obtain ⟨removedId, doc, rest, rfl, passed⟩ := logout_effect pkg http past _ route (reply_success pkg http past _ reply rfl rfl)
  have same : removedId = userId := by
    have told := (mem_view _ _ _).mpr passedAs
    obtain ⟨auth, now, decoded, rfl, _⟩ := passed
    rw [shape] at told
    simpa [removal, eq_comm] using told
  refine ⟨doc, ?_⟩
  rw [← mem_view, shape, same]
  simp

theorem uncontended_logins_are_exclusive (pkg : Packages) (undoes : VerifyUndoesSign pkg) (strings : StringQueries pkg)
    (nulls : NullQueries pkg) (store : Store) (empty : store.auths.docs = []) (cell : Body) (labels : List (Label (server pkg)))
    (steady : AllGuarded (uncontended pkg) labels (World.initial (server pkg) store cell)) (world : World (server pkg))
    (reached : world = run labels (World.initial (server pkg) store cell)) :
    OnePer world.store.auths owner ∧
    ∀ before http env after start, labels = before ++ .start http env :: after → endpointOf http = some .logout →
      start = run before (World.initial (server pkg) store cell) → ∀ userId status,
      (start.tasks.length, .said (.authorised userId)) ∈ world.trace →
      (start.tasks.length, .said (.send status (.api (generate false "Logged Out Successfully" 200 .null)))) ∈ world.trace →
      (∀ j, LoginOf (jobs world) world.trace userId j → ∃ task, start.tasks[j]? = some task ∧ finished task.proc = true) →
      ∀ req token claims choice at_, presentedToken req = .str token → pkg.jwtSign claims secretKey = .ok token →
        text (claims.data .userId) = userId → authorisedAs pkg req choice at_ world.store = none := by
  have lawful := run_lawful (contract pkg) (app_contract pkg) labels store cell
  have removedBy := logout_removed pkg labels store cell
  obtain ⟨recorded, exclusive⟩ :=
    (exclusive_rule pkg strings nulls).guarded_runs (app_contract pkg) labels _ (initial_tracked _ store cell) steady
    ⟨⟨by simp [World.initial, empty], by simp [World.initial]⟩,
      by simp [OnePer, World.initial, empty], by simp [Pending, World.initial],
      by simp [Pending, World.initial], by simp [World.initial]⟩
  rw [← reached] at lawful removedBy recorded exclusive
  refine ⟨exclusive.single, ?_⟩
  intro before http env after start labelled route isStart userId status passedAs answered earlier req token
    claims choice at_ presented signed named
  have resumed : world = run (.start http env :: after) start := by rw [reached, labelled, run_append, isStart]
  have owned : (jobs world)[start.tasks.length]? = some http := by
    rw [resumed, run_jobs, List.getElem?_append_right (by simp [jobs])]
    simp [jobs, startedJobs]
  obtain ⟨doc, removed⟩ := removedBy start.tasks.length http owned route userId status passedAs answered
  obtain ⟨newer, older, split⟩ := List.append_of_mem removed
  have unborn : (start.tasks.length, removal userId doc) ∉ start.trace := by
    have tracked := run_tracked (contract pkg) (app_contract pkg) before _ (initial_tracked _ store cell)
    rw [← isStart] at tracked
    intro member
    have inView := (mem_view _ _ _).mpr member
    rw [tracked.unborn _ (Nat.le_refl _)] at inView
    cases inView
  -- every login of the user had ended before the logout began
  have closed : ∀ entry ∈ newer, ¬ Opens userId entry.2 := by
    intro entry member opens
    have inTrace : entry ∈ world.trace := by
      rw [split]
      exact List.mem_append_left _ member
    obtain ⟨task, there, stopped⟩ :=
      earlier entry.1 (opens_login pkg (jobs world) world.trace lawful entry.1 entry.2 inTrace userId opens)
    exact finished_before (.start http env :: after) start entry.1 task there stopped newer older _
      (by rw [← resumed]; exact split) unborn entry member rfl
  refine Option.eq_none_iff_forall_ne_some.mpr fun other verdict => ?_
  obtain ⟨auth, member, ownerIs⟩ :=
    accepted_has_record pkg undoes strings world.store recorded.genuine req token presented claims signed choice at_ other verdict
  exact absurd (ownerIs.trans named) (exclusive.revoked newer _ userId doc older split closed auth member)

def isPending : History sig → Bool
  | .asked (.auths (.findOne .userId _)) (.ok none) :: _ => true
  | _ => false

-- A check that no request ever takes a step while another one is pending.
def calm (pkg : Packages) : List (Label (server pkg)) → World (server pkg) → Bool
  | [], _ => true
  | .start job env :: rest, world => calm pkg rest (step world (.start job env))
  | .resume i choice env :: rest, world =>
      ((List.range world.tasks.length).all fun j => j == i || !isPending (view j world.trace)) &&
        calm pkg rest (step world (.resume i choice env))

theorem calm_uncontended (pkg : Packages) (labels : List (Label (server pkg))) (world : World (server pkg))
    (tracked : Tracked (contract pkg) world) (checked : calm pkg labels world = true) :
    AllGuarded (uncontended pkg) labels world := by
  induction labels generalizing world with
  | nil => trivial
  | cons label rest ih =>
      have after := step_tracked (contract pkg) (app_contract pkg) world _ (step_cases world label) tracked
      cases label with
      | start job env => exact ⟨trivial, ih _ after checked⟩
      | resume i choice env =>
          obtain ⟨here, later⟩ := Bool.and_eq_true_iff.mp checked
          refine ⟨?_, ih _ after later⟩
          intro job op next _ userId _ j different pending
          obtain ⟨past, shape⟩ := pending
          by_cases born : j < world.tasks.length
          · have idle := List.all_eq_true.mp here j (List.mem_range.mpr born)
            rw [shape] at idle
            simp [different, isPending, lookupByUserId] at idle
          · rw [tracked.unborn j (by omega)] at shape
            cases shape

def Reference.logOutRequest (token : String) : HttpRequest :=
  Reference.withToken .post ["api", "v1", "user", "logout"] token .undefined

def Reference.logInOut : List (Label (server Reference.packages)) :=
  Reference.logIn 5000 ++ .start (Reference.logOutRequest (Reference.tokenAt 5000)) (Reference.ambient 6000) ::
    Reference.turns 1 2 6000

theorem reference_jobs_lookup (j : Nat) (http : HttpRequest)
    (here : (jobs (run Reference.logInOut Reference.initial))[j]? = some http)
    (route : endpointOf http = some .logInUser) : j = 0 := by
  rw [run_jobs] at here
  match j with
  | 0 => rfl
  | 1 =>
      cases here
      cases route
  | j + 2 => cases here

theorem reference_logout_revokes :
    authorisedAs Reference.packages (requestOf (Reference.logOutRequest (Reference.tokenAt 5000))) (.pick 0)
    (Reference.ambient 6000 0)
      (run Reference.logInOut Reference.initial).store = none := by
  have facts : calm Reference.packages Reference.logInOut Reference.initial = true ∧
      (1, some "u1") ∈ authorisations (run Reference.logInOut Reference.initial).trace ∧
      (1, 200, false, "Logged Out Successfully", 200) ∈ plainAnswers (run Reference.logInOut Reference.initial).trace ∧
      ((run (Reference.logIn 5000) Reference.initial).tasks[0]?.map fun task => finished task.proc) =
        some true := by decide +kernel
  obtain ⟨unhurried, passed, answered, stopped⟩ := facts
  have steady := calm_uncontended Reference.packages Reference.logInOut Reference.initial (initial_tracked _ _ _) unhurried
  have exclusive := uncontended_logins_are_exclusive Reference.packages reference_verify_undoes_sign reference_string_queries
    reference_null_queries Reference.oneUser rfl (.thrown "") Reference.logInOut steady _ rfl
  refine exclusive.2 (Reference.logIn 5000) _ _ _ _ rfl (by decide +kernel) rfl (some "u1") 200
    (mem_authorisations _ _ _ passed) (mem_plain_answers _ _ _ _ _ _ answered) ?_ _ _ _ (.pick 0) _ rfl rfl rfl
  intro j login
  obtain ⟨http, value, doc, here, route, _⟩ := login
  rw [reference_jobs_lookup j http here route]
  exact Option.map_eq_some_iff.mp stopped

-- Two logins of one user, each of which looks for an auth record before the
-- other has saved its own.
def Reference.twoLogIns : List (Label (server Reference.packages)) :=
  .start Reference.logInRequest (Reference.ambient 5000) :: .start Reference.logInRequest (Reference.ambient 7000) ::
    Reference.turns 0 6 5000 ++ Reference.turns 1 6 7000 ++ Reference.turns 0 2 5000 ++ Reference.turns 1 2 7000

def Reference.logOutAfterTwo : List (Label (server Reference.packages)) :=
  .start (Reference.logOutRequest (Reference.tokenAt 5000)) (Reference.ambient 8000) :: Reference.turns 2 2 8000

theorem interleaved_logins_outlive_logout :
    let both := run Reference.twoLogIns Reference.initial
    let left := run Reference.logOutAfterTwo both
    (both.tasks.all fun task => finished task.proc) = true ∧
    both.store.auths.docs.map (fun auth => owner auth.row) = [some "u1", some "u1"] ∧
    (left.tasks.all fun task => finished task.proc) = true ∧ (2, some "u1") ∈ authorisations left.trace ∧
    (2, 200, false, "Logged Out Successfully", 200) ∈ plainAnswers left.trace ∧
    authorisedAs Reference.packages (requestOf (Reference.logOutRequest (Reference.tokenAt 7000))) (.pick 0)
      (Reference.ambient 9000 0) left.store = some (some "u1") := by
  decide +kernel

end Planner
