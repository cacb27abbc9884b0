import PlannerBackend.Contract

set_option autoImplicit false

namespace Planner

open Docs Resume

def Unanswered (h : History sig) : Prop := ∀ note ∈ h, isSend note = false

theorem clean_unanswered (h : History sig) (clean : Clean h) : Unanswered h := fun note member => (clean note member).1

theorem unanswered_cons (note : Note sig) (h : History sig) (silent : isSend note = false) (unanswered : Unanswered h) :
    Unanswered (note :: h) := by
  intro other member
  rcases List.mem_cons.mp member with rfl | older
  · exact silent
  · exact unanswered other older

-- One write that went through, after nothing but reads, and at most an email
-- after it.
inductive OneWrite : History sig → Prop where
  | last (op : Op) (ans : Answer op) (rest : History sig) (went : wrote op ans = true) (clean : Clean rest) :
      OneWrite (.asked op ans :: rest)
  | mailed (mail : Mail) (op : Op) (ans : Answer op) (rest : History sig) (went : wrote op ans = true) (clean : Clean rest) :
      OneWrite (.said (.mail mail) :: .asked op ans :: rest)

section Answers

variable (pkg : Packages) (http : HttpRequest) (h : History sig)

-- What every success amounts to, without the details of its endpoint.
theorem effect_shape (response : Response) (effect : Effect pkg http h response) :
    ∃ endpoint, endpointOf http = some endpoint ∧ (reads endpoint = true ∧ Clean h ∨ reads endpoint = false ∧ OneWrite h) := by
  cases effect with
  | created row doc rest route clean => exact ⟨_, route, .inr ⟨rfl, .last _ _ rest rfl clean⟩⟩
  | granted session at_ doc rest route issued =>
      exact ⟨_, route, .inr ⟨rfl, .last _ _ _ rfl (clean_asked _ _ rest rfl (issued_clean pkg _ rest session issued))⟩⟩
  | renewed session at_ auth doc rest route issued =>
      exact ⟨_, route, .inr ⟨rfl, .last _ _ _ rfl (clean_asked _ _ rest rfl (issued_clean pkg _ rest session issued))⟩⟩
  | loggedOut userId doc rest route passed =>
      exact ⟨_, route, .inr ⟨rfl, .last _ _ rest rfl (passed_clean pkg http userId rest passed)⟩⟩
  | userDeleted doc rest route clean => exact ⟨_, route, .inr ⟨rfl, .last _ _ rest rfl clean⟩⟩
  | userEdited reply rest route clean => exact ⟨_, route, .inr ⟨rfl, .last _ _ rest rfl clean⟩⟩
  | recovered doc password hash reply rest route clean =>
      exact ⟨_, route, .inr ⟨rfl, .mailed _ _ _ _ rfl (clean_asked _ _ rest rfl clean)⟩⟩
  | meetingAdded row doc rest route clean => exact ⟨_, route, .inr ⟨rfl, .mailed _ _ _ rest rfl clean⟩⟩
  | meetingUpdated found mail reply rest route clean printed =>
      exact ⟨_, route, .inr ⟨rfl, .mailed _ _ _ _ rfl (clean_asked _ _ rest rfl clean)⟩⟩
  | meetingDeleted found doc rest route clean =>
      exact ⟨_, route, .inr ⟨rfl, .mailed _ _ _ _ rfl (clean_asked _ _ rest rfl clean)⟩⟩
  | shown endpoint _ message data route reading clean => exact ⟨endpoint, route, .inl ⟨reading, clean⟩⟩

theorem effect_unanswered (response : Response) (effect : Effect pkg http h response) : Unanswered h := by
  obtain ⟨endpoint, _, ⟨_, clean⟩ | ⟨_, one⟩⟩ := effect_shape pkg http h response effect
  · exact clean_unanswered h clean
  · cases one with
    | last op ans rest went clean => exact unanswered_cons _ _ rfl (clean_unanswered rest clean)
    | mailed mail op ans rest went clean => exact unanswered_cons _ _ rfl (unanswered_cons _ _ rfl (clean_unanswered rest clean))

theorem reply_unanswered (body : Body) (reply : Reply pkg http h body) : Unanswered h := by
  cases reply with
  | refused response bad clean => exact clean_unanswered h clean
  | nobody route clean => exact clean_unanswered h clean
  | done response effect => exact effect_unanswered pkg http h response effect

theorem reply_success (response : Response) (reply : Reply pkg http h (.api response)) (fine : response.error = false)
    (done : response.status = 200) : Effect pkg http h response := by
  cases reply with
  | refused _ bad _ =>
      rw [bad.1] at fine
      cases fine
  | nobody _ _ => cases done
  | done _ effect => exact effect

theorem told_unanswered (out : Out) (allowed : mayTell pkg http h out) : Unanswered h := by
  cases out with
  | authorised userId => exact clean_unanswered h allowed.1
  | send status body => exact reply_unanswered pkg http h body allowed
  | mail mail =>
      obtain ⟨write, rest, rfl, written, clean⟩ := allowed
      refine unanswered_cons write rest ?_ (clean_unanswered rest clean)
      cases write with
      | asked => rfl
      | said => cases written

-- Not answered yet, or answered once with nothing after the answer.
def Standing : Prop :=
  Unanswered h ∨ ∃ status body past, h = .said (.send status body) :: past ∧ Unanswered past ∧ Reply pkg http past body

theorem standing_answered (standing : Standing pkg http h) (status : Nat) (body : Body) (member : .said (.send status body) ∈ h) :
    ∃ past, h = .said (.send status body) :: past ∧ Unanswered past ∧ Reply pkg http past body := by
  rcases standing with unanswered | ⟨otherStatus, otherBody, past, rfl, unanswered, reply⟩
  · cases unanswered _ member
  · rcases List.mem_cons.mp member with same | older
    · cases same
      exact ⟨past, rfl, unanswered, reply⟩
    · cases unanswered _ older

theorem standing_said (out : Out) (allowed : mayTell pkg http h out) : Standing pkg http (.said out :: h) := by
  have unanswered := told_unanswered pkg http h out allowed
  cases out with
  | send status body => exact .inr ⟨status, body, h, rfl, unanswered, allowed⟩
  | mail mail => exact .inl (unanswered_cons _ h rfl unanswered)
  | authorised userId => exact .inl (unanswered_cons _ h rfl unanswered)

end Answers

def AllStanding (pkg : Packages) (known : List HttpRequest) (trace : Trace sig) : Prop :=
  ∀ i, match known[i]? with
    | some http => Standing pkg http (view i trace)
    | none => view i trace = []

theorem standing_cons (pkg : Packages) (known : List HttpRequest) (trace : Trace sig) (i : Nat) (note : Note sig)
    (http : HttpRequest) (holds : AllStanding pkg known trace) (here : known[i]? = some http)
    (own : Standing pkg http (note :: view i trace)) :
    AllStanding pkg known ((i, note) :: trace) := by
  intro j
  by_cases same : i = j
  · subst same
    rw [here, view_cons_own]
    exact own
  · rw [view_cons_other j i note trace same]
    exact holds j

theorem standing_rule (pkg : Packages) :
    EventRule (m := server pkg) (contract pkg) unguarded (fun known trace _ => AllStanding pkg known trace) where
  born := by
    intro known trace store job holds i
    have before := holds i
    by_cases old : i < known.length
    · rw [List.getElem?_append_left old]
      exact before
    · rw [List.getElem?_eq_none (by omega)] at before
      by_cases new : i = known.length
      · subst new
        rw [List.getElem?_concat_length, before]
        exact .inl (fun _ member => by cases member)
      · rw [List.getElem?_eq_none (by rw [List.length_append, List.length_singleton]; omega)]
        exact before
  told := fun known trace _ i job out holds here allowed =>
    standing_cons pkg known trace i _ job holds here (standing_said pkg job _ out allowed)
  asked := fun known trace _ i job op _ holds here allowed _ =>
    standing_cons pkg known trace i _ job holds here (.inl (unanswered_cons _ _ rfl (clean_unanswered _ allowed.1)))

theorem standing_reached (pkg : Packages) (labels : List (Label (server pkg))) (store : Store) (cell : Body) :
    AllStanding pkg (jobs (run labels (World.initial (server pkg) store cell)))
      (run labels (World.initial (server pkg) store cell)).trace := by
  apply (standing_rule pkg).runs (app_contract pkg) labels _ (initial_tracked _ store cell)
  intro i
  rfl

-- What an answer found in the trace says about the request that gave it.
theorem answer_reply (pkg : Packages) (labels : List (Label (server pkg))) (store : Store) (cell : Body) (i : Nat)
    (http : HttpRequest) (status : Nat) (body : Body)
    (here : (jobs (run labels (World.initial (server pkg) store cell)))[i]? = some http)
    (answered : (i, .said (.send status body)) ∈ (run labels (World.initial (server pkg) store cell)).trace) :
    ∃ past, view i (run labels (World.initial (server pkg) store cell)).trace = .said (.send status body) :: past ∧
      Unanswered past ∧ Reply pkg http past body := by
  have standing := standing_reached pkg labels store cell i
  rw [here] at standing
  exact standing_answered pkg http _ standing status body ((mem_view i _ _).mpr answered)

-- The answers without data: task, HTTP status, error, message, status.
def plainAnswers (trace : Trace sig) : List (Nat × Nat × Bool × String × Nat) :=
  trace.filterMap fun
    | (i, .said (.send code (.api ⟨error, message, status, .null⟩))) => some (i, code, error, message, status)
    | _ => none

theorem mem_plain_answers (trace : Trace sig) (i code : Nat) (error : Bool) (message : String) (status : Nat)
    (member : (i, code, error, message, status) ∈ plainAnswers trace) :
    (i, .said (.send code (.api ⟨error, message, status, .null⟩))) ∈ trace := by
  obtain ⟨⟨j, note⟩, inTrace, eq⟩ := List.mem_filterMap.mp member
  split at eq
  · next same =>
      cases eq
      cases same
      exact inTrace
  · cases eq

end Planner
