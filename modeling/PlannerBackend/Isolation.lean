import PlannerBackend.ApiResponse
import PlannerBackend.Bystanders
import PlannerBackend.Ledger

set_option autoImplicit false

namespace Planner

open Docs Resume

-- The commands each endpoint has in its code, those of isAuthorized included.
def uses : Endpoint → Op → Bool
  | .signUpUser, .users (.findOne .email _) => true
  | .signUpUser, .users (.insert _) => true
  | .logInUser, .users (.findOne .email _) => true
  | .logInUser, .compare _ _ => true
  | .logInUser, .auths (.findOne .userId _) => true
  | .logInUser, .auths (.insert _) => true
  | .logInUser, .auths (.resave _ _) => true
  | .logout, .auths (.findOneAndRemove .userId _) => true
  | .getAllUsers, .users (.find none) => true
  | .getUserById, .users (.findOne .userId _) => true
  | .deleteUserById, .users (.findOneAndRemove .userId _) => true
  | .editUser, .users (.update .userId _ _) => true
  | .recoverForgotPassword, .users (.findOne .email _) => true
  | .recoverForgotPassword, .users (.update .email _ _) => true
  | .addMeeting, .meetings (.insert _) => true
  | .updateMeeting, .meetings (.findOne .meetingId _) => true
  | .updateMeeting, .meetings (.update .meetingId _ _) => true
  | .deleteMeeting, .meetings (.findOne .meetingId _) => true
  | .deleteMeeting, .meetings (.findOneAndRemove .meetingId _) => true
  | .getAllMeetingsOfUser, .meetings (.find (some (.participantId, _))) => true
  | .getMeetingByMeetingId, .meetings (.findOne .meetingId _) => true
  | endpoint, .auths (.findOne .authToken _) => guarded endpoint
  | _, _ => false

def tabled (http : HttpRequest) : Spec sig where
  asks := fun _ op => ∃ endpoint, endpointOf http = some endpoint ∧ uses endpoint op = true
  tells := fun _ _ => True
  ends := fun _ => True
  breaks := fun _ => True

theorem app_tabled (pkg : Packages) (http : HttpRequest) : Meets (tabled http) (app pkg http) none [] := by
  apply meets_mono (script pkg http) _ _ (fun _ _ _ => trivial) (fun _ _ => trivial)
    (fun _ _ => trivial) _ none [] (app_script pkg http)
  intro h op asks
  cases asks with
  | token endpoint route isGuarded =>
      refine ⟨endpoint, route, ?_⟩
      cases endpoint with
      | signUpUser | logInUser | recoverForgotPassword => cases isGuarded
      | _ => rfl
  | account endpoint route enters =>
      refine ⟨endpoint, route, ?_⟩
      rcases enters with rfl | rfl
      · rfl
      · rfl
  | findMeeting _ _ endpoint route _ looks =>
      refine ⟨endpoint, route, ?_⟩
      rcases looks with rfl | rfl | rfl
      · rfl
      · rfl
      · rfl
  | signUp _ route | password _ route | session _ _ route | grant _ _ _ route | renew _ _ _ _ route
  | logOut _ _ route | listUsers _ _ route | showUser _ _ route | removeUser _ _ route | editUser _ _ route
  | recover route | reset _ _ _ route | addMeeting _ _ _ _ route | updateMeeting _ _ _ route
  | removeMeeting _ _ _ route | listMeetings _ _ route => exact ⟨_, route, rfl⟩

-- Whatever the table rules out for an endpoint, no request to it ever asks.
theorem app_screening (pkg : Packages) (hides shows : HttpRequest → Prop) (hidden shown : Op → Prop)
    (out : ∀ http endpoint op, hides http → endpointOf http = some endpoint → uses endpoint op = true → hidden op)
    (seen : ∀ http endpoint op, shows http → endpointOf http = some endpoint → uses endpoint op = true → shown op)
    (http : HttpRequest) :
    Meets (screening (m := server pkg) hides shows hidden shown http) (app pkg http) none [] := by
  apply meets_mono (tabled http) _ _ (fun _ _ _ => trivial) (fun _ _ => trivial)
    (fun _ _ => trivial) _ none [] (app_tabled pkg http)
  rintro _ op ⟨endpoint, route, used⟩
  exact ⟨fun hidden => out http endpoint op hidden route used, fun visible => seen http endpoint op visible route used⟩

theorem execute_read (pkg : Packages) (op : Op) (choice : Choice) (store : Store) (reading : ∀ ans, wrote op ans = false) :
    (execute pkg op choice store).2 = store :=
  execute_idle pkg op choice store (reading _)

-- Requests to the four views, and those that reach no route.
def isReading (http : HttpRequest) : Bool := (endpointOf http).all reads

theorem readers_write_nothing (endpoint : Endpoint) (op : Op) (reading : reads endpoint = true) (used : uses endpoint op = true)
    (ans : Answer op) : wrote op ans = false := by
  unfold uses at used
  split at used <;> first | rfl | cases reading | cases used

def isMeeting : Endpoint → Bool
  | .addMeeting => true
  | .updateMeeting => true
  | .deleteMeeting => true
  | .getAllMeetingsOfUser => true
  | .getMeetingByMeetingId => true
  | _ => false

-- The user endpoints that work on user records alone.
def isAccount : Endpoint → Bool
  | .signUpUser => true
  | .getAllUsers => true
  | .getUserById => true
  | .deleteUserById => true
  | .editUser => true
  | .recoverForgotPassword => true
  | _ => false

def ofMeetings : Op → Bool
  | .meetings _ => true
  | _ => false

def ofUsers : Op → Bool
  | .users _ => true
  | .compare _ _ => true
  | _ => false

theorem meetings_screen (pkg : Packages) :
    Screen (m := server pkg) (fun store => (store.users, store.auths))
    (fun op => ofMeetings op = true ∨ ∀ ans, wrote op ans = false)
      (fun op => ofMeetings op = false) := by
  constructor
  · intro op choice store idle
    rcases idle with own | reading
    · cases op with
      | meetings cmd => rfl
      | _ => cases own
    · dsimp only
      rw [execute_read pkg op choice store reading]
  · intro op choice a b other same
    obtain ⟨users, auths⟩ := Prod.mk.inj same
    cases op with
    | meetings cmd => cases other
    | users cmd => simp only [execute, users, auths, and_self]
    | auths cmd => simp only [execute, users, auths, and_self]
    | compare password hash => cases choice <;> exact ⟨rfl, same⟩

theorem users_screen (pkg : Packages) :
    Screen (m := server pkg) (fun store => (store.auths, store.meetings))
    (fun op => ofUsers op = true ∨ ∀ ans, wrote op ans = false)
      (fun op => ofUsers op = false) := by
  constructor
  · intro op choice store idle
    rcases idle with own | reading
    · cases op with
      | users cmd => rfl
      | compare password hash => cases choice <;> rfl
      | _ => cases own
    · dsimp only
      rw [execute_read pkg op choice store reading]
  · intro op choice a b other same
    obtain ⟨auths, meetings⟩ := Prod.mk.inj same
    cases op with
    | users cmd => cases other
    | compare password hash => cases other
    | auths cmd => simp only [execute, auths, meetings, and_self]
    | meetings cmd => simp only [execute, auths, meetings, and_self]

section Inversion

variable (endpoint : Endpoint) (op : Op) (used : uses endpoint op = true)

include used

theorem meeting_commands (own : isMeeting endpoint = true) : ofMeetings op = true ∨ ∀ ans, wrote op ans = false := by
  unfold uses at used
  split at used <;> first | exact .inl rfl | exact .inr fun _ => rfl | cases own | cases used

theorem user_side_commands (other : isMeeting endpoint = false) : ofMeetings op = false := by
  unfold uses at used
  split at used <;> first | rfl | cases other | cases used

theorem account_commands (own : isAccount endpoint = true) : ofUsers op = true ∨ ∀ ans, wrote op ans = false := by
  unfold uses at used
  split at used <;> first | exact .inl rfl | exact .inr fun _ => rfl | cases own | cases used

theorem session_side_commands (other : isAccount endpoint = false) (noLogin : endpoint ≠ .logInUser) : ofUsers op = false := by
  unfold uses at used
  split at used <;> first | rfl | exact absurd rfl noLogin | cases other | cases used

end Inversion

def isFor (kind : Endpoint → Bool) (http : HttpRequest) : Bool := (endpointOf http).any kind

theorem is_for_route (kind : Endpoint → Bool) (http : HttpRequest) (endpoint : Endpoint) (route : endpointOf http = some endpoint)
    (answer : Bool) (known : isFor kind http = answer) : kind endpoint = answer := by
  rw [← known]
  simp [isFor, route]

-- Where in a schedule the requests to the endpoints of a kind stand.
def placesOf (kind : Endpoint → Bool) {pkg : Packages} (labels : List (Label (server pkg))) (i : Nat) : Bool :=
  ((startedJobs labels)[i]?).any (isFor kind)

theorem places_sorted (kind : Endpoint → Bool) {pkg : Packages} (labels : List (Label (server pkg))) (shows : HttpRequest → Prop)
    (others : ∀ http ∈ startedJobs labels, isFor kind http = false → shows http) :
    Sorted (m := server pkg) (placesOf kind labels) (fun http => isFor kind http = true) shows (startedJobs labels) := by
  intro i http here
  simp only [placesOf, here, Option.any_some]
  exact ⟨id, others http (List.mem_of_getElem? here)⟩

section Lives

variable (pkg : Packages) (labels : List (Label (server pkg))) (store : Store) (cell : Body)

theorem live_jobs (i : Nat) (task : Task (server pkg))
    (here : (live labels (World.initial (server pkg) store cell)).tasks[i]? = some task) :
    (startedJobs labels)[i]? = some task.job := by
  obtain ⟨done, rest, rfl, lived, _⟩ := live_run labels (World.initial (server pkg) store cell)
  rw [lived] at here
  have known := jobs_lookup _ i task here
  rw [run_jobs, show jobs (World.initial (server pkg) store cell) = [] from rfl, List.nil_append] at known
  simp only [startedJobs, List.filterMap_append] at known ⊢
  rw [List.getElem?_append_left (List.getElem?_eq_some_iff.mp known).1]
  exact known

-- The two routes on which an exception can escape both write.
theorem broken_writes (i : Nat) (http : HttpRequest)
    (broken : (live labels (World.initial (server pkg) store cell)).tasks[i]? = some ⟨http, .crash⟩) :
    isReading http = false := by
  obtain ⟨done, rest, _, lived, _⟩ := live_run labels (World.initial (server pkg) store cell)
  rw [lived] at broken
  rcases broken_stuck pkg http done store cell i broken with ⟨⟨route, _⟩, _⟩ | ⟨⟨route, _⟩, _⟩
  · simp [isReading, route, reads]
  · simp [isReading, route, reads]

theorem unbroken_places (kind : Endpoint → Bool)
    (sound : ∀ (i : Nat) (http : HttpRequest), (live labels (World.initial (server pkg) store cell)).tasks[i]? =
      some ⟨http, .crash⟩ → isFor kind http = false)
    (i : Nat) (task : Task (server pkg)) (here : (live labels (World.initial (server pkg) store cell)).tasks[i]? = some task)
    (isOut : placesOf kind labels i = true) : task.proc.broken = false := by
  have known := live_jobs pkg labels store cell i task here
  obtain ⟨http, proc⟩ := task
  cases proc with
  | crash =>
      have other := sound i http here
      simp only [placesOf, known, Option.any_some, other] at isOut
      cases isOut
  | _ => rfl

end Lives

def Reference.removal : HttpRequest :=
  Reference.withToken .post ["api", "v1", "user", "u1", "delete"] (Reference.tokenAt 5000) .undefined

-- All users are listed while a meeting is added and a user is deleted; one
-- request goes nowhere.
def Reference.mixed : List (Label (server Reference.packages)) :=
  .start (Reference.withToken .get ["api", "v1", "user", "view", "all"] (Reference.tokenAt 5000) .undefined)
    (Reference.ambient 6000) ::
    .start (Reference.meetingRequest ["addMeeting"] .post Reference.meetingBody) (Reference.ambient 6000) ::
    .start (Reference.withToken .get ["api", "v1", "nowhere"] (Reference.tokenAt 5000) .undefined) (Reference.ambient 6000) ::
    .start Reference.removal (Reference.ambient 6000) ::
    Reference.turns 3 1 6000 ++ Reference.turns 0 1 6000 ++ Reference.turns 1 2 6000 ++ Reference.turns 3 1 6000 ++
      Reference.turns 0 1 6000 ++
    Reference.turns 1 2 6000

def Reference.mixedLife (labels : List (Label (server Reference.packages))) : World (server Reference.packages) :=
  live labels (World.initial (server Reference.packages) Reference.afterLogin (.thrown ""))

theorem reference_mixed_up (i : Nat) (http : HttpRequest) (kind : Endpoint → Bool)
    (broken : (Reference.mixedLife Reference.mixed).tasks[i]? = some ⟨http, .crash⟩) : isFor kind http = false := by
  have isUp : down (Reference.mixedLife Reference.mixed) = false := by decide +kernel
  cases up_unbroken _ isUp _ (List.mem_of_getElem? broken)

-- Requests that only read may be left out of a run: the store and what every
-- other request does and answers stay the same.
theorem readers_are_invisible (pkg : Packages) (labels : List (Label (server pkg))) (store : Store) (cell : Body)
    (held : Nat → Bool) (readers : ∀ i http, (startedJobs labels)[i]? = some http → held i = true → isReading http = true) :
    (live (takeOut held 0 labels) (World.initial (server pkg) store cell)).store =
        (live labels (World.initial (server pkg) store cell)).store ∧
      Unaffected held (live labels (World.initial (server pkg) store cell))
        (live (takeOut held 0 labels) (World.initial (server pkg) store cell)) := by
  have screen : Screen (m := server pkg) (fun stored => stored) (fun op => ∀ ans, wrote op ans = false) (fun _ => True) := by
    constructor
    · intro op choice stored reading
      exact execute_read pkg op choice stored reading
    · intro op choice a b _ same
      cases same
      exact ⟨rfl, rfl⟩
  have reading : ∀ http endpoint, isReading http = true → endpointOf http = some endpoint → reads endpoint = true := by
    intro http endpoint reader route
    simpa [isReading, route] using reader
  have asks := app_screening pkg (fun http => isReading http = true) (fun _ => True)
    (fun op => ∀ ans, wrote op ans = false) (fun _ => True)
    (fun http endpoint op reader route used => readers_write_nothing endpoint op (reading http endpoint reader route) used)
    (fun _ _ _ _ _ _ => trivial)
  apply taken_out_unaffected (m := server pkg) screen (app_tidy pkg) asks labels store cell
  · exact fun i http here => ⟨readers i http here, fun _ => trivial⟩
  · rintro i ⟨http, proc⟩ here isOut
    have reader := readers i http (live_jobs pkg labels store cell i _ here) isOut
    cases proc with
    | crash =>
        rw [broken_writes pkg labels store cell i http here] at reader
        cases reader
    | _ => rfl

theorem reference_readers_are_invisible :
    (Reference.mixedLife (takeOut (fun i => i == 0 || i == 2) 0 Reference.mixed)).store =
    (Reference.mixedLife Reference.mixed).store ∧
      (Reference.mixedLife (takeOut (fun i => i == 0 || i == 2) 0 Reference.mixed)).tasks.length = 2 := by
  refine ⟨(readers_are_invisible Reference.packages Reference.mixed Reference.afterLogin (.thrown "") _ ?_).1, by decide +kernel⟩
  have checked : ((startedJobs Reference.mixed).zipIdx.all fun entry => !(entry.2 == 0 || entry.2 == 2) || isReading entry.1) =
      true := by
    decide +kernel
  intro i http here isOut
  have known := List.all_eq_true.mp checked (http, i) (List.mem_zipIdx_iff_getElem?.mpr here)
  simpa [isOut] using known

-- What the meeting requests of a run do makes no difference to users,
-- sessions and the answers of the user routes.
theorem meetings_never_reach_users (pkg : Packages) (labels : List (Label (server pkg))) (store : Store) (cell : Body)
    (sound : ∀ (i : Nat) (http : HttpRequest), (live labels (World.initial (server pkg) store cell)).tasks[i]? =
      some ⟨http, .crash⟩ → isFor isMeeting http = false) :
    (live (takeOut (placesOf isMeeting labels) 0 labels) (World.initial (server pkg) store cell)).store.users =
        (live labels (World.initial (server pkg) store cell)).store.users ∧
      (live (takeOut (placesOf isMeeting labels) 0 labels) (World.initial (server pkg) store cell)).store.auths =
        (live labels (World.initial (server pkg) store cell)).store.auths ∧
      Unaffected (placesOf isMeeting labels) (live labels (World.initial (server pkg) store cell))
        (live (takeOut (placesOf isMeeting labels) 0 labels) (World.initial (server pkg) store cell)) := by
  have asks := app_screening pkg (fun http => isFor isMeeting http = true) (fun http => isFor isMeeting http = false)
    (fun op => ofMeetings op = true ∨ ∀ ans, wrote op ans = false) (fun op => ofMeetings op = false)
    (fun http endpoint op own route used => meeting_commands endpoint op used (is_for_route _ http endpoint route _ own))
    (fun http endpoint op other route used => user_side_commands endpoint op used (is_for_route _ http endpoint route _ other))
  obtain ⟨stores, unaffected⟩ :=
    taken_out_unaffected (m := server pkg) (meetings_screen pkg) (app_tidy pkg) asks labels store cell
    (places_sorted isMeeting labels _ fun _ _ other => other) (unbroken_places pkg labels store cell isMeeting sound)
  obtain ⟨users, auths⟩ := Prod.mk.inj stores
  exact ⟨users, auths, unaffected⟩

theorem reference_meetings_never_reach_users :
    (Reference.mixedLife (takeOut (placesOf isMeeting Reference.mixed) 0 Reference.mixed)).store.users =
        (Reference.mixedLife Reference.mixed).store.users ∧
      (Reference.mixedLife (takeOut (placesOf isMeeting Reference.mixed) 0 Reference.mixed)).store.meetings.docs.length ≠
        (Reference.mixedLife Reference.mixed).store.meetings.docs.length := by
  refine ⟨?_, by decide +kernel⟩
  exact (meetings_never_reach_users Reference.packages Reference.mixed Reference.afterLogin (.thrown "")
    fun i http broken => reference_mixed_up i http isMeeting broken).1

-- Nothing cascades from user records: without logins in the run, signing up,
-- editing, recovering and deleting users changes no session, no meeting and
-- no answer of the meeting routes or of logout.
theorem account_changes_never_cascade (pkg : Packages) (labels : List (Label (server pkg))) (store : Store) (cell : Body)
    (noLogin : ∀ http ∈ startedJobs labels, endpointOf http ≠ some .logInUser)
    (sound : ∀ (i : Nat) (http : HttpRequest), (live labels (World.initial (server pkg) store cell)).tasks[i]? =
      some ⟨http, .crash⟩ → isFor isAccount http = false) :
    (live (takeOut (placesOf isAccount labels) 0 labels) (World.initial (server pkg) store cell)).store.auths =
        (live labels (World.initial (server pkg) store cell)).store.auths ∧
      (live (takeOut (placesOf isAccount labels) 0 labels) (World.initial (server pkg) store cell)).store.meetings =
        (live labels (World.initial (server pkg) store cell)).store.meetings ∧
      Unaffected (placesOf isAccount labels) (live labels (World.initial (server pkg) store cell))
        (live (takeOut (placesOf isAccount labels) 0 labels) (World.initial (server pkg) store cell)) := by
  have asks := app_screening pkg (fun http => isFor isAccount http = true)
    (fun http => isFor isAccount http = false ∧ endpointOf http ≠ some .logInUser)
    (fun op => ofUsers op = true ∨ ∀ ans, wrote op ans = false) (fun op => ofUsers op = false)
    (fun http endpoint op own route used => account_commands endpoint op used (is_for_route _ http endpoint route _ own))
    (fun http endpoint op other route used =>
      session_side_commands endpoint op used (is_for_route _ http endpoint route _ other.1) fun login => other.2 (login ▸ route))
  obtain ⟨stores, unaffected⟩ := taken_out_unaffected (m := server pkg) (users_screen pkg) (app_tidy pkg) asks labels store cell
    (places_sorted isAccount labels _ fun http member other => ⟨other, noLogin http member⟩)
    (unbroken_places pkg labels store cell isAccount sound)
  obtain ⟨auths, meetings⟩ := Prod.mk.inj stores
  exact ⟨auths, meetings, unaffected⟩

theorem reference_account_changes_never_cascade :
    (Reference.mixedLife (takeOut (placesOf isAccount Reference.mixed) 0 Reference.mixed)).store.meetings =
        (Reference.mixedLife Reference.mixed).store.meetings ∧
      (Reference.mixedLife (takeOut (placesOf isAccount Reference.mixed) 0 Reference.mixed)).store.users.docs.length ≠
        (Reference.mixedLife Reference.mixed).store.users.docs.length := by
  refine ⟨?_, by decide +kernel⟩
  refine (account_changes_never_cascade Reference.packages Reference.mixed Reference.afterLogin (.thrown "") ?_
    fun i http broken => reference_mixed_up i http isAccount broken).2.1
  have none : (startedJobs Reference.mixed).all (fun http => !isFor (· == .logInUser) http) = true := by decide +kernel
  intro http member login
  have other := List.all_eq_true.mp none http member
  simp [isFor, login] at other

end Planner
