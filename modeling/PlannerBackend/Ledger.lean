import PlannerBackend.Delivery
import PlannerBackend.Gate

set_option autoImplicit false

namespace Planner

open Docs Resume

def inserts : Note sig → Bool
  | .asked (.meetings cmd) ans => inserted cmd ans
  | _ => false

def removes : Note sig → Bool
  | .asked (.meetings cmd) ans => removed cmd ans
  | _ => false

def reports (message : String) : Note sig → Bool
  | .said (.send _ (.api response)) => !response.error && response.message == message
  | _ => false

def mails (subject : String) : Note sig → Bool
  | .said (.mail mail) => mail.subject == subject
  | _ => false

def meetingCreated : Note sig → Bool := reports "Meeting Created"

def meetingDeleted : Note sig → Bool := reports "Deleted Meeting successfully"

def scheduledMail : Note sig → Bool := mails "New meeting scheduled"

def canceledMail : Note sig → Bool := mails "Meeting Canceled"

-- A finished request has inserted and removed what it reported and mailed.
structure Balanced (h : History sig) : Prop where
  created : h.countP inserts = h.countP meetingCreated
  scheduled : h.countP scheduledMail = h.countP meetingCreated
  deleted : h.countP removes = h.countP meetingDeleted
  canceled : h.countP canceledMail = h.countP meetingDeleted

-- Notes that none of the counts sees.
def Silent (note : Note sig) : Prop :=
  inserts note = false ∧ removes note = false ∧ meetingCreated note = false ∧ meetingDeleted note = false ∧
    scheduledMail note = false ∧ canceledMail note = false

theorem silent_balanced (note : Note sig) (h : History sig) (silent : Silent note) (balanced : Balanced h) :
    Balanced (note :: h) := by
  obtain ⟨a, b, c, d, e, f⟩ := silent
  constructor <;> simp only [List.countP_cons, a, b, c, d, e, f]
  · exact balanced.created
  · exact balanced.scheduled
  · exact balanced.deleted
  · exact balanced.canceled

theorem clean_silent (note : Note sig) (send : isSend note = false) (mail : isMail note = false) (idle : isWritten note = false) :
    Silent note := by
  cases note with
  | said out =>
      cases out with
      | authorised => exact ⟨rfl, rfl, rfl, rfl, rfl, rfl⟩
      | send => cases send
      | mail => cases mail
  | asked op ans =>
      cases op with
      | users | auths | compare => exact ⟨rfl, rfl, rfl, rfl, rfl, rfl⟩
      | meetings cmd => exact ⟨idle_inserted cmd ans idle, idle_removed cmd ans idle, rfl, rfl, rfl, rfl⟩

theorem clean_balanced (h : History sig) (clean : Clean h) : Balanced h := by
  induction h with
  | nil => exact ⟨rfl, rfl, rfl, rfl⟩
  | cons note rest ih =>
      obtain ⟨send, mail, idle⟩ := clean note List.mem_cons_self
      exact silent_balanced note rest (clean_silent note send mail idle)
        (ih fun other member => clean other (List.mem_cons_of_mem _ member))

theorem refused_silent (status : Nat) (response : Response) (bad : response.error = true) :
    Silent (.said (.send status (.api response))) := by
  simp [Silent, inserts, removes, meetingCreated, meetingDeleted, scheduledMail, canceledMail, reports, mails, bad]

theorem other_silent (status code : Nat) (message : String) (data : Data) (notCreated : message ≠ "Meeting Created")
    (notDeleted : message ≠ "Deleted Meeting successfully") :
    Silent (.said (.send status (.api (generate false message code data)))) := by
  simp [Silent, inserts, removes, meetingCreated, meetingDeleted, scheduledMail, canceledMail, reports,
      mails, generate, notCreated, notDeleted]

theorem mail_silent (mail : Mail) (notScheduled : mail.subject ≠ "New meeting scheduled")
    (notCanceled : mail.subject ≠ "Meeting Canceled") :
    Silent (.said (.mail mail)) := by
  simp [Silent, inserts, removes, meetingCreated, meetingDeleted, scheduledMail, canceledMail,
    reports, mails, notScheduled, notCanceled]

-- Views report neither a creation nor a deletion.
def viewing (http : HttpRequest) : Spec sig where
  asks := fun _ _ => True
  tells := fun _ out => (∃ endpoint, endpointOf http = some endpoint ∧ reads endpoint = true) → Silent (.said out)
  ends := fun _ => True
  breaks := fun _ => True

theorem app_viewing (pkg : Packages) (http : HttpRequest) : Meets (viewing http) (app pkg http) none [] := by
  by_cases view : ∃ endpoint, endpointOf http = some endpoint ∧ reads endpoint = true
  · obtain ⟨endpoint, route, reading⟩ := view
    have refuse : ∀ past h response, Quiet past h → Refused response → ∀ known, Meets (viewing http) (send response) known h :=
      fun _ h response _ bad known => ⟨fun _ => refused_silent 200 response bad.1, trivial⟩
    have isGuarded : guarded endpoint = true := by cases endpoint <;> first | rfl | cases reading
    simp only [app, route, handle, if_pos isGuarded]
    apply is_authorized_rule _ _ _ _ _ _ (refuse []) trivial
    intro auth now decoded _
    refine ⟨fun _ => ⟨rfl, rfl, rfl, rfl, rfl, rfl⟩, ?_⟩
    cases endpoint with
    | getAllUsers =>
        exact get_all_users_rule _ none _ trivial (refuse _) fun _ _ =>
          ⟨fun _ => other_silent _ _ _ _ (by decide) (by decide), trivial⟩
    | getUserById =>
        exact get_user_by_id_rule _ _ none _ trivial (refuse _) fun _ _ =>
          ⟨fun _ => other_silent _ _ _ _ (by decide) (by decide), trivial⟩
    | getAllMeetingsOfUser =>
        simp only [controller, getAllMeetingsOfUser, Promise.finish]
        apply get_meetings_chain (viewing http) (requestOf http) none _ _ _ _ trivial
        · intro docs
          exact ⟨fun _ => other_silent _ _ _ _ (by decide) (by decide), trivial⟩
        · intro h response quiet bad _
          exact refuse _ h response quiet bad none
    | getMeetingByMeetingId =>
        exact get_meeting_rule _ _ none _ trivial (refuse _) fun _ _ =>
            ⟨fun _ => other_silent _ _ _ _ (by decide) (by decide), trivial⟩
    | _ => cases reading
  · exact meets_any _ (fun _ _ => trivial) (fun _ _ views => absurd views view) (fun _ => trivial) (fun _ => trivial) _ _ _

theorem update_mail_subject (pkg : Packages) (row : Row MeetingField) (body : Js.Value) (mail : Mail)
    (printed : UpdateMeeting.mail pkg row body = .ok mail) : mail.subject = "Meeting Updated" := by
  unfold UpdateMeeting.mail at printed
  obtain ⟨topic, _, printed⟩ := bind_ok _ _ _ printed
  obtain ⟨description, _, printed⟩ := bind_ok _ _ _ printed
  obtain ⟨startDate, _, printed⟩ := bind_ok _ _ _ printed
  obtain ⟨place, _, printed⟩ := bind_ok _ _ _ printed
  cases printed
  rfl

section Requests

variable (pkg : Packages) (http : HttpRequest) (h : History sig)

theorem effect_balanced (status : Nat) (response : Response) (effect : Effect pkg http h response)
    (viewed : (viewing http).tells h (.send status (.api response))) : Balanced (.said (.send status (.api response)) :: h) := by
  have report : ∀ message data rest, message ≠ "Meeting Created" → message ≠ "Deleted Meeting successfully" → Balanced rest →
      Balanced (.said (.send status (.api (generate false message 200 data))) :: rest) :=
    fun message data rest notCreated notDeleted balanced =>
      silent_balanced _ rest (other_silent status 200 message data notCreated notDeleted) balanced
  have ask : ∀ op (ans : Answer op) rest, Silent (.asked op ans) → Clean rest → Balanced (.asked op ans :: rest) :=
    fun op ans rest silent clean => silent_balanced _ rest silent (clean_balanced rest clean)
  have quiet : ∀ op (ans : Answer op), inserts (.asked op ans) = false → removes (.asked op ans) = false →
      Silent (.asked op ans) :=
    fun op ans noInsert noRemove => ⟨noInsert, noRemove, rfl, rfl, rfl, rfl⟩
  cases effect with
  | created row doc rest route clean => exact report _ _ _ (by decide) (by decide) (ask _ _ rest (quiet _ _ rfl rfl) clean)
  | granted session at_ doc rest route issued =>
      exact report _ _ _ (by decide) (by decide)
        (ask _ _ _ (quiet _ _ rfl rfl) (clean_asked _ _ rest rfl (issued_clean pkg _ rest session issued)))
  | renewed session at_ auth doc rest route issued =>
      exact report _ _ _ (by decide) (by decide)
        (ask _ _ _ (quiet _ _ rfl rfl) (clean_asked _ _ rest rfl (issued_clean pkg _ rest session issued)))
  | loggedOut userId doc rest route passed =>
      exact report _ _ _ (by decide) (by decide) (ask _ _ rest (quiet _ _ rfl rfl) (passed_clean pkg http userId rest passed))
  | userDeleted doc rest route clean => exact report _ _ _ (by decide) (by decide) (ask _ _ rest (quiet _ _ rfl rfl) clean)
  | userEdited reply rest route clean => exact report _ _ _ (by decide) (by decide) (ask _ _ rest (quiet _ _ rfl rfl) clean)
  | recovered doc password hash reply rest route clean =>
      apply report _ _ _ (by decide) (by decide)
      apply silent_balanced _ _ (mail_silent _ (by simp [RecoverForgotPassword.mail]) (by simp [RecoverForgotPassword.mail]))
      exact ask _ _ _ (quiet _ _ rfl rfl) (clean_asked _ _ rest rfl clean)
  | meetingAdded row doc rest route clean =>
      have before := clean_balanced rest clean
      constructor <;> simp [List.countP_cons, inserts, removes, inserted, removed, meetingCreated, meetingDeleted, scheduledMail,
        canceledMail, reports, mails, generate, AddMeeting.mail]
      · exact before.created
      · exact before.scheduled
      · exact before.deleted
      · exact before.canceled
  | meetingUpdated found mail reply rest route clean printed =>
      have subject := update_mail_subject pkg found.row http.body mail printed
      apply report _ _ _ (by decide) (by decide)
      apply silent_balanced _ _ (mail_silent _ (by rw [subject]; decide) (by rw [subject]; decide))
      exact ask _ _ _ (quiet _ _ rfl rfl) (clean_asked _ _ rest rfl clean)
  | meetingDeleted found doc rest route clean =>
      have before := clean_balanced rest clean
      constructor <;> simp [List.countP_cons, inserts, removes, inserted, removed, meetingCreated, meetingDeleted, scheduledMail,
        canceledMail, reports, mails, generate, DeleteMeeting.mail]
      · exact before.created
      · exact before.scheduled
      · exact before.deleted
      · exact before.canceled
  | shown endpoint _ message data route reading clean =>
      exact silent_balanced _ h (viewed ⟨endpoint, route, reading⟩) (clean_balanced h clean)

theorem reply_balanced (status : Nat) (body : Body) (reply : Reply pkg http h body)
    (viewed : (viewing http).tells h (.send status body)) :
    Balanced (.said (.send status body) :: h) := by
  cases reply with
  | refused response bad clean => exact silent_balanced _ h (refused_silent status response bad.1) (clean_balanced h clean)
  | nobody route clean => exact silent_balanced _ h (other_silent _ _ _ _ (by decide) (by decide)) (clean_balanced h clean)
  | done response effect => exact effect_balanced pkg http h status response effect viewed

theorem escape_balanced (escape : Escape pkg http h) : Balanced h := by
  cases escape with
  | hashing rest route odd clean => exact clean_balanced _ (clean_asked _ _ rest rfl clean)
  | printing found thrown reply rest route odd clean =>
      exact silent_balanced _ _ ⟨rfl, rfl, rfl, rfl, rfl, rfl⟩ (clean_balanced _ (clean_asked _ _ rest rfl clean))

end Requests

theorem finished_balanced (pkg : Packages) (labels : List (Label (server pkg))) (store : Store) (cell : Body) (i : Nat)
    (task : Task (server pkg)) (here : (run labels (World.initial (server pkg) store cell)).tasks[i]? = some task)
    (over_ : finished task.proc = true) : Balanced (view i (run labels (World.initial (server pkg) store cell)).trace) := by
  have meets := (run_tracked (contract pkg) (app_contract pkg) labels _ (initial_tracked _ store cell)).meets i task here
  have lawful := run_lawful viewing (app_viewing pkg) labels store cell
  obtain ⟨job, proc⟩ := task
  cases proc with
  | halt =>
      obtain ⟨status, body, past, shape, reply⟩ := meets
      obtain ⟨http, there, viewed⟩ := lawful_viewed (m := server pkg) viewing _ _ lawful i [] _ past shape
      cases (jobs_lookup _ i _ here).symm.trans there
      rw [shape]
      exact reply_balanced pkg job past status body reply viewed
  | crash => exact escape_balanced pkg job _ meets
  | _ => cases over_

theorem stored_balance_rule (pkg : Packages) (start : Nat) :
    EventRule (m := server pkg) (contract pkg) unguarded (fun _ trace store =>
      store.meetings.docs.length + tally removes trace = start + tally inserts trace) where
  born := fun _ _ _ _ holds => holds
  told := fun _ _ _ _ _ _ holds _ _ => by rwa [tally_cons, tally_cons]
  asked := by
    intro known trace store i job op choice holds _ _ _
    rw [tally_cons, tally_cons]
    cases op with
    | users | auths => exact holds
    | compare => cases choice <;> exact holds
    | meetings cmd =>
        have length := executed_length _ _ _ cmd _ (exec_executed pkg.castQuery cmd choice store.meetings)
        simp only [execute, removes, inserts]
        omega

theorem meetings_conserved (pkg : Packages) (store : Store) (cell : Body) (labels : List (Label (server pkg)))
    (world : World (server pkg)) (reached : world = run labels (World.initial (server pkg) store cell))
    (idle : ∀ task ∈ world.tasks, finished task.proc = true) :
    world.store.meetings.docs.length + tally meetingDeleted world.trace =
    store.meetings.docs.length + tally meetingCreated world.trace ∧
    tally scheduledMail world.trace = tally meetingCreated world.trace ∧
    tally canceledMail world.trace = tally meetingDeleted world.trace ∧
    (world.store.meetings.docs.map fun meeting => indexEntry (meeting.row .meetingId)).Nodup := by
  subst reached
  have tracked := run_tracked (contract pkg) (app_contract pkg) labels _ (initial_tracked _ store cell)
  have counted := (stored_balance_rule pkg store.meetings.docs.length).runs (app_contract pkg) labels _
    (initial_tracked _ store cell) rfl
  have bounded := tracked_bounded _ _ tracked
  have balanced : ∀ i, i < (run labels (World.initial (server pkg) store cell)).tasks.length →
      Balanced (view i (run labels (World.initial (server pkg) store cell)).trace) := by
    intro i born
    exact finished_balanced pkg labels store cell i _ (List.getElem?_eq_getElem born) (idle _ (List.getElem_mem born))
  have created := tally_balanced _ _ _ _ bounded fun i born => (balanced i born).created
  have deleted := tally_balanced _ _ _ _ bounded fun i born => (balanced i born).deleted
  rw [created, deleted] at counted
  exact ⟨counted, tally_balanced _ _ _ _ bounded fun i born => (balanced i born).scheduled,
    tally_balanced _ _ _ _ bounded fun i born => (balanced i born).canceled,
    (run labels (World.initial (server pkg) store cell)).store.meetings.indexed .meetingId rfl⟩

def Reference.meetingRequest (action : List String) (method : Method) (body : Js.Value) : HttpRequest :=
  Reference.withToken method (["api", "v1", "meeting"] ++ action) (Reference.tokenAt 5000) body

def Reference.meetingBody : Js.Value :=
  .obj (["topic", "hostId", "hostName", "participantId", "participantName", "meetingDescription", "meetingPlace"].map
    (fun name => (name, .str "x")) ++ [("meetingStartDate", .num "1000"), ("meetingEndDate", .num "2000")])

-- One meeting is added; two deletions of it interleave, and both find it.
def Reference.deletedTwice : List (Label (server Reference.packages)) :=
  .start (Reference.meetingRequest ["addMeeting"] .post Reference.meetingBody) (Reference.ambient 6000) ::
    Reference.turns 0 4 6000 ++
    .start (Reference.meetingRequest ["id", "deleteMeeting"] .post .undefined) (Reference.ambient 6000) ::
    .start (Reference.meetingRequest ["id", "deleteMeeting"] .post .undefined) (Reference.ambient 6000) ::
    Reference.turns 1 3 6000 ++ Reference.turns 2 3 6000 ++ Reference.turns 1 2 6000 ++ Reference.turns 2 2 6000

def Reference.emptied : World (server Reference.packages) :=
  run Reference.deletedTwice (World.initial (server Reference.packages) Reference.afterLogin (.thrown ""))

theorem reference_meetings_conserved :
    tally scheduledMail Reference.emptied.trace = 1 ∧ tally canceledMail Reference.emptied.trace = 1 ∧
      Reference.emptied.store.meetings.docs.length = 0 := by
  have facts : (∀ task ∈ Reference.emptied.tasks, finished task.proc = true) ∧ tally meetingCreated Reference.emptied.trace = 1 ∧
      tally meetingDeleted Reference.emptied.trace = 1 ∧ Reference.afterLogin.meetings.docs.length = 0 := by decide +kernel
  obtain ⟨idle, created, deleted, none_⟩ := facts
  obtain ⟨stored, scheduled, canceled, _⟩ :=
    meetings_conserved Reference.packages Reference.afterLogin (.thrown "") Reference.deletedTwice Reference.emptied rfl idle
  exact ⟨by omega, by omega, by omega⟩

end Planner
