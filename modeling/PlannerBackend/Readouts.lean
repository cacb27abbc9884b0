import PlannerBackend.Answers

set_option autoImplicit false

namespace Planner

open Docs Resume

-- What the four views show is what their command was answered, without the
-- passwords.
inductive Readout (http : HttpRequest) : History sig → Response → Prop where
  | users (docs : List (Doc UserField)) (rest : History sig) (route : endpointOf http = some .getAllUsers) :
      Readout http (.asked (.users (.find none)) (.ok docs) :: rest)
        (generate false "All User Details Found" 200 (.users (docs.map fun doc => without doc.row [.password])))
  | user (doc : Doc UserField) (rest : History sig) (route : endpointOf http = some .getUserById) :
      Readout http (.asked (.users (.findOne .userId ((requestOf http).param "userId"))) (.ok (some doc)) :: rest)
        (generate false "User Details Found" 200 (.details (without doc.row [.password])))
  | meetings (docs : List (Doc MeetingField)) (rest : History sig) (route : endpointOf http = some .getAllMeetingsOfUser) :
      Readout http (.asked (.meetings (.find (some (.participantId, (requestOf http).param "userId")))) (.ok docs) :: rest)
        (generate false "Meetings Found and Listed" 200 (.meetings docs))
  | meeting (doc : Doc MeetingField) (rest : History sig) (route : endpointOf http = some .getMeetingByMeetingId) :
      Readout http (.asked (.meetings (.findOne .meetingId ((requestOf http).param "meetingId"))) (.ok (some doc)) :: rest)
        (generate false "Meeting Found" 200 (.meetingDetails doc.row))

def ReadsOut (http : HttpRequest) (h : History sig) : Out → Prop
  | .send _ (.api response) => response.error = false → ∀ endpoint, endpointOf http = some endpoint → reads endpoint = true →
      Readout http h response
  | _ => True

def showing (http : HttpRequest) : Spec sig where
  asks := fun _ _ => True
  tells := ReadsOut http
  ends := fun _ => True
  breaks := fun _ => True

section Views

variable (http : HttpRequest) (known : Option Body) (h : History sig)

theorem showing_refuse (response : Response) (bad : Refused response) (known : Option Body) (h : History sig) :
    Meets (showing http) (send response) known h := by
  refine ⟨?_, trivial⟩
  intro fine
  rw [bad.1] at fine
  cases fine

theorem showing_readout (response : Response) (readout : Readout http h response) :
    Meets (showing http) (send response) known h :=
  ⟨fun _ _ _ _ => readout, trivial⟩

theorem all_users_shown (route : endpointOf http = some .getAllUsers) : Meets (showing http) getAllUsers known h := by
  refine ⟨trivial, ?_⟩
  intro ans
  cases ans with
  | error message => exact showing_refuse http _ (refused_generate _ 500 rfl) _ _
  | ok docs =>
      simp only [is_empty_rows]
      cases (docs.map fun doc => without doc.row [.password]).isEmpty with
      | true => exact showing_refuse http _ (refused_generate _ 404 rfl) _ _
      | false => exact showing_readout http _ _ _ (.users docs h route)

theorem user_shown (route : endpointOf http = some .getUserById) :
    Meets (showing http) (getUserById (requestOf http)) known h := by
  refine ⟨trivial, ?_⟩
  intro ans
  cases ans with
  | error message => exact showing_refuse http _ (refused_generate _ 500 rfl) _ _
  | ok result =>
      cases result with
      | none => exact showing_refuse http _ (refused_generate _ 404 rfl) _ _
      | some doc =>
          simp only [Option.map_some, when_found_some _ leanValue _ _ (is_empty_lean _)]
          exact showing_readout http _ _ _ (.user doc h route)

theorem meetings_shown (route : endpointOf http = some .getAllMeetingsOfUser) :
    Meets (showing http) (getAllMeetingsOfUser (requestOf http)) known h := by
  simp only [getAllMeetingsOfUser, Promise.finish]
  refine get_meetings_chain _ _ known h _ ?_ _ trivial fun docs => ?_
  · intro later response _ bad _
    exact showing_refuse http response bad none later
  · exact showing_readout http none _ _ (.meetings docs h route)

theorem meeting_shown (route : endpointOf http = some .getMeetingByMeetingId) :
    Meets (showing http) (getMeetingByMeetingId (requestOf http)) known h := by
  refine ⟨trivial, ?_⟩
  intro ans
  cases ans with
  | error message => exact showing_refuse http _ (refused_generate _ 500 rfl) _ _
  | ok result =>
      cases result with
      | none => exact showing_refuse http _ (refused_generate _ 404 rfl) _ _
      | some doc =>
          simp only [Option.map_some, when_found_some _ leanValue _ _ (is_empty_lean _)]
          exact showing_readout http _ _ _ (.meeting doc h route)

end Views

theorem app_showing (pkg : Packages) (http : HttpRequest) : Meets (showing http) (app pkg http) none [] := by
  by_cases view : ∃ endpoint, endpointOf http = some endpoint ∧ reads endpoint = true
  · obtain ⟨endpoint, route, reading⟩ := view
    have isGuarded : guarded endpoint = true := by cases endpoint <;> first | rfl | cases reading
    simp only [app, route, handle, if_pos isGuarded]
    apply is_authorized_rule _ _ _ _ _ _ (fun later response _ bad known => showing_refuse http response bad known later) trivial
    intro auth now decoded _
    refine ⟨trivial, ?_⟩
    cases endpoint with
    | getAllUsers => exact all_users_shown http none _ route
    | getUserById => exact user_shown http none _ route
    | getAllMeetingsOfUser => exact meetings_shown http none _ route
    | getMeetingByMeetingId => exact meeting_shown http none _ route
    | _ => cases reading
  · refine meets_any _ (fun _ _ => trivial) ?_ (fun _ => trivial) (fun _ => trivial) _ _ _
    intro h out
    cases out with
    | send status body =>
        cases body with
        | api response => exact fun _ endpoint route reading => absurd ⟨endpoint, route, reading⟩ view
        | thrown => trivial
    | _ => trivial

-- A success as its request's own history explains it.
inductive Success (pkg : Packages) (http : HttpRequest) (h : History sig) (response : Response) : Prop where
  | shown (readout : Readout http h response)
  | done (effect : Effect pkg http h response) (writes : ∀ endpoint, endpointOf http = some endpoint → reads endpoint = false)

theorem answered_success (pkg : Packages) (labels : List (Label (server pkg))) (store : Store) (cell : Body) (i : Nat)
    (status : Nat) (response : Response)
    (answered : (i, .said (.send status (.api response))) ∈ (run labels (World.initial (server pkg) store cell)).trace)
    (fine : response.error = false) (ok : response.status = 200) :
    ∃ http past, (jobs (run labels (World.initial (server pkg) store cell)))[i]? = some http ∧
      view i (run labels (World.initial (server pkg) store cell)).trace = .said (.send status (.api response)) :: past ∧
      Success pkg http past response := by
  have tracked := run_tracked (contract pkg) (app_contract pkg) labels _ (initial_tracked _ store cell)
  have born := tracked_bounded _ _ tracked _ answered
  have here := jobs_lookup _ i _ (List.getElem?_eq_getElem born)
  obtain ⟨past, shape, _, reply⟩ := answer_reply pkg labels store cell i _ status _ here answered
  refine ⟨_, past, here, shape, ?_⟩
  have effect := reply_success pkg _ past response reply fine ok
  obtain ⟨endpoint, route, ⟨reading, _⟩ | ⟨mutates, _⟩⟩ := effect_shape pkg _ past response effect
  · have lawful := run_lawful showing (app_showing pkg) labels store cell
    obtain ⟨http, there, allowed⟩ := lawful_viewed (m := server pkg) showing _ _ lawful i [] _ past shape
    cases here.symm.trans there
    exact .shown (allowed fine endpoint route reading)
  · refine .done effect ?_
    intro other also
    cases route.symm.trans also
    exact mutates

theorem readout_message (http : HttpRequest) (h : History sig) (response : Response) (readout : Readout http h response) :
    response.message ∈ ["All User Details Found", "User Details Found", "Meetings Found and Listed", "Meeting Found"] := by
  cases readout <;> simp [generate]

theorem success_done (pkg : Packages) (http : HttpRequest) (h : History sig) (response : Response)
    (success : Success pkg http h response)
    (other : response.message ∉ ["All User Details Found", "User Details Found", "Meetings Found and Listed", "Meeting Found"]) :
    Effect pkg http h response ∧ ∀ endpoint, endpointOf http = some endpoint → reads endpoint = false := by
  cases success with
  | shown readout => exact absurd (readout_message http h response readout) other
  | done effect writes => exact ⟨effect, writes⟩

-- The answers that report this success: task, HTTP status, data.
def reportsOf (message : String) (trace : Trace sig) : List (Nat × Nat × Data) :=
  trace.filterMap fun
    | (i, .said (.send code (.api response))) =>
        if response.error = false ∧ response.message = message ∧
          response.status = 200 then some (i, code, response.data) else none
    | _ => none

theorem mem_reports (message : String) (trace : Trace sig) (i code : Nat) (data : Data)
    (member : (i, code, data) ∈ reportsOf message trace) :
    (i, .said (.send code (.api (generate false message 200 data)))) ∈ trace := by
  obtain ⟨⟨j, note⟩, inTrace, eq⟩ := List.mem_filterMap.mp member
  split at eq
  · next k status response same =>
      cases same
      split at eq
      · next shape =>
          obtain ⟨fine, named, ok⟩ := shape
          cases response
          cases eq
          subst fine named ok
          exact inTrace
      · cases eq
  · cases eq

end Planner
