import PlannerBackend.Isolation
import PlannerBackend.Moments

set_option autoImplicit false

namespace Planner

open Docs Resume

-- The endpoints whose controller asks the database once.
def asksOnce : Endpoint → Bool
  | .logout => true
  | .getAllUsers => true
  | .getUserById => true
  | .deleteUserById => true
  | .editUser => true
  | .addMeeting => true
  | .getAllMeetingsOfUser => true
  | .getMeetingByMeetingId => true
  | _ => false

def isTokenLookup : Op → Bool
  | .auths (.findOne .authToken _) => true
  | _ => false

def singly (pkg : Packages) (http : HttpRequest) : Spec sig where
  asks := fun h op => (∃ endpoint, endpointOf http = some endpoint ∧ asksOnce endpoint = true) →
    h = [] ∧ isTokenLookup op = true ∨ ∃ userId, Passed pkg http userId h
  tells := fun _ _ => True
  ends := fun _ => True
  breaks := fun _ => True

theorem app_singly (pkg : Packages) (http : HttpRequest) : Meets (singly pkg http) (app pkg http) none [] := by
  apply meets_mono (script pkg http) _ _ (fun _ _ _ => trivial) (fun _ _ => trivial)
    (fun _ _ => trivial) _ none [] (app_script pkg http)
  rintro h op asks ⟨endpoint, route, once⟩
  have other (several : Endpoint) (there : endpointOf http = some several) (more : asksOnce several = false) :
      h = [] ∧ isTokenLookup op = true ∨ ∃ userId, Passed pkg http userId h := by
    cases route.symm.trans there
    rw [once] at more
    cases more
  cases asks with
  | token => exact .inl ⟨rfl, rfl⟩
  | account several there enters =>
      rcases enters with rfl | rfl
      · exact other _ there rfl
      · exact other _ there rfl
  | signUp _ there | password _ there | session _ _ there | grant _ _ _ there | renew _ _ _ _ there
  | recover there | reset _ _ _ there | updateMeeting _ _ _ there | removeMeeting _ _ _ there => exact other _ there rfl
  | logOut userId _ _ passed | listUsers userId _ _ passed | showUser userId _ _ passed | removeUser userId _ _ passed
  | editUser userId _ _ passed | addMeeting userId _ _ _ _ passed | findMeeting userId _ _ _ passed
  | listMeetings userId _ _ passed =>
      exact .inr ⟨userId, passed⟩

theorem send_path_length (status : Nat) (body : Body) (known seen : Option Body) (past h : History sig)
    (path : Leads (.emit (.send status body) .halt : Process) known past .halt seen h) : h.length = past.length + 1 := by
  cases path with
  | emit _ _ _ _ _ _ _ onward =>
      cases onward
      rfl

-- The path of a request that got past isAuthorized goes on as its controller's.
theorem authorised_path (pkg : Packages) (req : Request) (next : Option String → Process) (seen : Option Body) (h : History sig)
    (path : Leads (isAuthorized pkg req next) none [] .halt seen h) (long : 2 < h.length) :
    ∃ userId auth, Leads (next userId) none
      [.said (.authorised userId), .asked (.auths (.findOne .authToken (presentedToken req))) (.ok (some auth))]
      .halt seen h := by
  unfold isAuthorized at path
  split at path
  · cases path with
    | call op ans _ _ _ _ _ _ onward =>
        cases ans with
        | error message =>
            rw [send_path_length _ _ _ _ _ _ onward] at long
            exact absurd long (by simp)
        | ok found =>
            cases found with
            | none =>
                rw [send_path_length _ _ _ _ _ _ onward] at long
                exact absurd long (by simp)
            | some auth =>
                dsimp only at onward
                rw [when_found_some auth documentValue _ _ (is_empty_document auth)] at onward
                cases onward with
                | sample at_ _ _ _ _ _ _ onward =>
                    dsimp only at onward
                    split at onward
                    · rw [send_path_length _ _ _ _ _ _ onward] at long
                      exact absurd long (by simp)
                    · cases onward with
                      | emit _ _ _ _ _ _ _ onward => exact ⟨_, auth, onward⟩
  · rw [send_path_length _ _ _ _ _ _ path] at long
    exact absurd long (by simp)

theorem passed_length (pkg : Packages) (http : HttpRequest) (userId : Option String) (h : History sig)
    (passed : Passed pkg http userId h) :
    h.length = 2 := by
  obtain ⟨auth, now, decoded, rfl, _⟩ := passed
  rfl

section Runs

variable (pkg : Packages) (labels : List (Label (server pkg))) (store : Store) (cell : Body) (i : Nat) (http : HttpRequest)
  (endpoint : Endpoint) (route : endpointOf http = some endpoint) (once : asksOnce endpoint = true)
  (here : (jobs (run labels (World.initial (server pkg) store cell)))[i]? = some http)

include route once here

-- The one command of the controller stands right after the authorisation, and
-- nothing but outputs stands after it.
theorem single_command (op : Op) (ans : Answer op) (later past : History sig)
    (shape : view i (run labels (World.initial (server pkg) store cell)).trace = later ++ .asked op ans :: past)
    (own : isTokenLookup op = false) :
    (∃ userId, Passed pkg http userId past) ∧ ∀ note ∈ later, ∃ out, note = .said out := by
  have lawful := run_lawful (singly pkg) (app_singly pkg) labels store cell
  have single : ∃ endpoint, endpointOf http = some endpoint ∧ asksOnce endpoint = true := ⟨endpoint, route, once⟩
  have asked : ∀ newer other (answer : Answer other) older,
      view i (run labels (World.initial (server pkg) store cell)).trace = newer ++ .asked other answer :: older →
      older = [] ∧ isTokenLookup other = true ∨ ∃ userId, Passed pkg http userId older := by
    intro newer other answer older split
    obtain ⟨job, there, allowed⟩ := lawful_viewed _ _ _ lawful i newer _ older split
    cases here.symm.trans there
    exact allowed single
  have passed : ∃ userId, Passed pkg http userId past := by
    rcases asked later op ans past shape with ⟨_, lookup⟩ | passed
    · rw [own] at lookup
      cases lookup
    · exact passed
  refine ⟨passed, ?_⟩
  intro note member
  cases note with
  | said out => exact ⟨out, rfl⟩
  | asked other answer =>
      obtain ⟨newer, older, rfl⟩ := List.append_of_mem member
      obtain ⟨userId, earlier⟩ := passed
      have two := passed_length pkg http userId past earlier
      rcases asked newer other answer (older ++ .asked op ans :: past) (by rw [shape]; simp) with ⟨empty, _⟩ | ⟨again, more⟩
      · simp at empty
      · have long := passed_length pkg http again _ more
        simp only [List.length_append, List.length_cons] at long
        omega

end Runs

theorem chain_outputs {m : Machine sig} (start after : m.Store) (h later : History sig) (chain : Chain m start h after)
    (outputs : ∀ note ∈ later, ∃ out, note = .said out) : Chain m start (later ++ h) after := by
  induction later with
  | nil => exact chain
  | cons note rest ih =>
      obtain ⟨out, rfl⟩ := outputs note List.mem_cons_self
      exact .said out _ _ (ih fun other member => outputs other (List.mem_cons_of_mem _ member))

-- Whatever else is going on, a request to one of these endpoints is answered as
-- if its controller had run alone at one moment between its authorisation and
-- its answer, and that moment is the only one at which it changes the store.
theorem answered_as_if_alone (pkg : Packages) (labels : List (Label (server pkg))) (store : Store) (cell : Body) (i : Nat)
    (http : HttpRequest) (endpoint : Endpoint) (route : endpointOf http = some endpoint) (once : asksOnce endpoint = true)
    (done : (run labels (World.initial (server pkg) store cell)).tasks[i]? = some ⟨http, .halt⟩) (op : Op) (ans : Answer op)
    (asked : (i, .asked op ans) ∈ (run labels (World.initial (server pkg) store cell)).trace) (own : isTokenLookup op = false) :
    ∃ before choice env after userId choices envs, labels = before ++ .resume i choice env :: after ∧
      (i, .said (.authorised userId)) ∈ (run before (World.initial (server pkg) store cell)).trace ∧
      (∀ status body, (i, .said (.send status body)) ∉ (run before (World.initial (server pkg) store cell)).trace) ∧
      ∃ single, single = alone (server pkg) choices envs (controller pkg (requestOf http) userId endpoint) 0 0 cell
          (run before (World.initial (server pkg) store cell)).store ∧
        single.crashed = false ∧
        single.store = (step (run before (World.initial (server pkg) store cell)) (.resume i choice env)).store ∧
        view i (run labels (World.initial (server pkg) store cell)).trace =
          single.notes ++ view i (run before (World.initial (server pkg) store cell)).trace := by
  have here := jobs_lookup _ i _ done
  obtain ⟨later, past, shape⟩ := List.append_of_mem ((mem_view i _ _).mpr asked)
  obtain ⟨⟨userId, passed⟩, outputs⟩ :=
    single_command pkg labels store cell i http endpoint route once here op ans later past shape own
  obtain ⟨newer, older, split, _, below⟩ := view_split i _ later past _ shape
  obtain ⟨before, choice, env, after, job, next, moment, trace, waiting, answer⟩ :=
    run_moment labels _ newer older i op ans split (by simp [World.initial])
  -- the whole path of the request, and from its authorisation on that of its controller
  have tracked := run_tracked (fun job => pathsOf (app pkg job)) (fun job => handler_paths (app pkg job)) labels _
    (initial_tracked _ store cell)
  obtain ⟨seen, path⟩ := tracked.meets i _ done
  have isGuarded : guarded endpoint = true := by cases endpoint <;> first | rfl | cases once
  have entry : app pkg http = isAuthorized pkg (requestOf http) fun userId =>
      controller pkg (requestOf http) userId endpoint := by
    simp only [app, route, handle, if_pos isGuarded]
  have two := passed_length pkg http userId past passed
  rw [entry] at path
  obtain ⟨user, auth, onward⟩ := authorised_path pkg (requestOf http) _ seen _ path (by
    rw [shape, List.length_append, List.length_cons]
    omega)
  obtain ⟨more, now⟩ := leads_extends onward
  have both := (List.append_assoc later [.asked op ans] past).trans (shape.symm.trans now)
  obtain ⟨rfl, rfl⟩ := List.append_inj' both two
  have told : user = userId := by
    obtain ⟨other, time, decoded, eq, _⟩ := passed
    cases eq
    rfl
  subst told
  have chain : Chain (server pkg) (run before (World.initial (server pkg) store cell)).store (later ++ [.asked op ans])
      ((server pkg).exec op choice (run before (World.initial (server pkg) store cell)).store).2 := by
    rw [answer]
    exact chain_outputs _ _ _ later (.asked op choice [] _ .nil) outputs
  obtain ⟨choices, envs, stored, notes, live⟩ := alone_replays choice (env 0) onward rfl _ now
    (controller_tidy pkg (requestOf http) user endpoint false) 0 0 cell (by simp) _ _ chain
  refine ⟨before, choice, env, after, user, choices, envs, moment, ?_, ?_, _, rfl, live, ?_, ?_⟩
  · rw [trace, ← mem_view, below]
    simp
  · intro status body answered
    rw [trace, ← mem_view, below] at answered
    simp at answered
  · rw [stored, step_answered _ i job op next choice env waiting]
  · rw [notes, trace, below]
    exact now

def isHalted : Process → Bool
  | .halt => true
  | _ => false

theorem halted_task (pkg : Packages) (world : World (server pkg)) (i : Nat) (http : HttpRequest)
    (here : (jobs world)[i]? = some http) (over_ : (world.tasks[i]?.map fun task => isHalted task.proc) = some true) :
    world.tasks[i]? = some ⟨http, .halt⟩ := by
  obtain ⟨⟨job, proc⟩, there, halted⟩ := Option.map_eq_some_iff.mp over_
  have same : job = http := Option.some.inj ((jobs_lookup world i _ there).symm.trans here)
  cases proc with
  | halt => rw [there, same]
  | _ => cases halted

def isOwnCommand (i : Nat) : Nat × Note sig → Bool
  | (j, .asked op _) => j == i && !isTokenLookup op
  | _ => false

def Reference.mixedRun (labels : List (Label (server Reference.packages))) : World (server Reference.packages) :=
  run labels (World.initial (server Reference.packages) Reference.afterLogin (.thrown ""))

-- The deletion asks its command after the other requests have moved.
theorem reference_answered_as_if_alone :
    ∃ before choice env after userId choices envs, Reference.mixed = before ++ .resume 3 choice env :: after ∧
      (3, .said (.authorised userId)) ∈ (Reference.mixedRun before).trace ∧
      (∀ status body, (3, .said (.send status body)) ∉ (Reference.mixedRun before).trace) ∧
      ∃ single, single = alone (server Reference.packages) choices envs
          (controller Reference.packages (requestOf Reference.removal) userId .deleteUserById) 0 0 (.thrown "")
          (Reference.mixedRun before).store ∧
        single.crashed = false ∧
        single.store = (step (Reference.mixedRun before) (.resume 3 choice env)).store ∧
        view 3 (Reference.mixedRun Reference.mixed).trace = single.notes ++ view 3 (Reference.mixedRun before).trace := by
  have facts : ((Reference.mixedRun Reference.mixed).tasks[3]?.map fun task => isHalted task.proc) = some true ∧
      (Reference.mixedRun Reference.mixed).trace.any (isOwnCommand 3) = true ∧
      endpointOf Reference.removal = some .deleteUserById := by decide +kernel
  obtain ⟨finished, asked, route⟩ := facts
  have here : (jobs (Reference.mixedRun Reference.mixed))[3]? = some Reference.removal := by
    rw [Reference.mixedRun, run_jobs]
    rfl
  obtain ⟨⟨j, note⟩, member, own⟩ := List.any_eq_true.mp asked
  cases note with
  | said out => cases own
  | asked op ans =>
      obtain ⟨same, other⟩ := Bool.and_eq_true_iff.mp own
      have same : j = 3 := by simpa using same
      subst same
      exact answered_as_if_alone Reference.packages Reference.mixed Reference.afterLogin
        (.thrown "") 3 Reference.removal .deleteUserById
        route rfl (halted_task _ _ 3 Reference.removal here finished) op ans member (by simpa using other)

end Planner
