import PlannerBackend.Journal
import PlannerBackend.Ledger
import PlannerBackend.Readouts
import PlannerBackend.Writes

set_option autoImplicit false

namespace Planner

open Docs Resume

def insertsAs (entry : Scalar) : Note sig → Bool
  | .asked (.meetings cmd) ans => insertedAt .meetingId entry cmd ans
  | _ => false

def removesAs (entry : Scalar) : Note sig → Bool
  | .asked (.meetings cmd) ans => removedAt .meetingId entry cmd ans
  | _ => false

def shownEntry : Data → Option Scalar
  | .meetingDetails row => some (indexEntry (row .meetingId))
  | .meeting doc => some (indexEntry (doc.row .meetingId))
  | _ => none

def reportsAs (message : String) (entry : Scalar) (note : Note sig) : Bool :=
  reports message note &&
    match note with
    | .said (.send _ (.api response)) => shownEntry response.data == some entry
    | _ => false

def createdAs : Scalar → Note sig → Bool := reportsAs "Meeting Created"

def deletedAs : Scalar → Note sig → Bool := reportsAs "Deleted Meeting successfully"

theorem unreported_as (message : String) (entry : Scalar) (note : Note sig) (unreported : reports message note = false) :
    reportsAs message entry note = false := by
  simp [reportsAs, unreported]

-- What the counts of one meeting id do not see of a note that no count of
-- meetings sees.
theorem silent_unnamed (entry : Scalar) (note : Note sig) (silent : Silent note) :
    insertsAs entry note = false ∧ removesAs entry note = false ∧ createdAs entry note = false ∧
    deletedAs entry note = false := by
  obtain ⟨noInsert, noRemove, noCreated, noDeleted, _, _⟩ := silent
  cases note with
  | asked op ans =>
      cases op with
      | meetings cmd =>
          refine ⟨?_, ?_, rfl, rfl⟩
          · simp only [insertsAs]
            unfold insertedAt
            split
            · cases noInsert
            · rfl
          · simp only [removesAs]
            unfold removedAt
            split
            · cases noRemove
            · rfl
      | _ => exact ⟨rfl, rfl, rfl, rfl⟩
  | said out =>
      exact ⟨rfl, rfl, unreported_as _ entry _ noCreated, unreported_as _ entry _ noDeleted⟩

-- A finished request has inserted and removed under an id what it reported
-- under it.
structure BalancedAs (entry : Scalar) (h : History sig) : Prop where
  created : h.countP (insertsAs entry) = h.countP (createdAs entry)
  deleted : h.countP (removesAs entry) = h.countP (deletedAs entry)

theorem silent_all_balanced (entry : Scalar) (h : History sig) (silent : ∀ note ∈ h, Silent note) : BalancedAs entry h := by
  induction h with
  | nil => exact ⟨rfl, rfl⟩
  | cons note rest ih =>
      obtain ⟨a, b, c, d⟩ := silent_unnamed entry note (silent note List.mem_cons_self)
      have before := ih fun other member => silent other (List.mem_cons_of_mem _ member)
      constructor <;> simp only [List.countP_cons, a, b, c, d]
      · exact before.created
      · exact before.deleted

theorem clean_all_silent (h : History sig) (clean : Clean h) : ∀ note ∈ h, Silent note := by
  intro note member
  obtain ⟨send, mail, idle⟩ := clean note member
  exact clean_silent note send mail idle

-- The three ways a finished request touches the meetings.
inductive Touches (pkg : Packages) : History sig → Prop where
  | not_ (h : History sig) (silent : ∀ note ∈ h, Silent note) : Touches pkg h
  | adds (status : Nat) (row : Except String (Row MeetingField)) (doc : Doc MeetingField)
      (rest : History sig) (clean : Clean rest) :
      Touches pkg (.said (.send status (.api (generate false "Meeting Created" 200 (.meetingDetails doc.row)))) ::
        .said (.mail (AddMeeting.mail pkg doc.row)) :: .asked (.meetings (.insert row)) (.ok doc) :: rest)
  | deletes (status : Nat) (path : MeetingField) (value : Js.Value) (found doc : Doc MeetingField)
      (rest : History sig) (clean : Clean rest) :
      Touches pkg (.said (.send status
        (.api (generate false "Deleted Meeting successfully" 200 (.meeting ⟨doc.id, hydrateMeeting doc.row⟩)))) ::
        .said (.mail (DeleteMeeting.mail pkg found.row)) :: .asked (.meetings (.findOneAndRemove path value))
            (.ok (some doc)) :: rest)

theorem all_silent_cons (note : Note sig) (rest : History sig) (first : Silent note) (others : ∀ other ∈ rest, Silent other) :
    ∀ other ∈ note :: rest, Silent other := by
  intro other member
  rcases List.mem_cons.mp member with rfl | later
  · exact first
  · exact others other later

section Requests

variable (pkg : Packages) (http : HttpRequest) (h : History sig)

theorem effect_touches (status : Nat) (response : Response) (effect : Effect pkg http h response)
    (viewed : (viewing http).tells h (.send status (.api response))) :
    Touches pkg (.said (.send status (.api response)) :: h) := by
  have report : ∀ message data rest, message ≠ "Meeting Created" → message ≠ "Deleted Meeting successfully" →
      (∀ note ∈ rest, Silent note) →
      Touches pkg (.said (.send status (.api (generate false message 200 data))) :: rest) :=
    fun message data rest notCreated notDeleted silent =>
      .not_ _ (all_silent_cons _ rest (other_silent status 200 message data notCreated notDeleted) silent)
  have ask : ∀ op (ans : Answer op) rest, inserts (.asked op ans) = false → removes (.asked op ans) = false → Clean rest →
      ∀ note ∈ .asked op ans :: rest, Silent note :=
    fun op ans rest noInsert noRemove clean =>
      all_silent_cons _ rest ⟨noInsert, noRemove, rfl, rfl, rfl, rfl⟩ (clean_all_silent rest clean)
  cases effect with
  | created row doc rest route clean => exact report _ _ _ (by decide) (by decide) (ask _ _ rest rfl rfl clean)
  | granted session at_ doc rest route issued =>
      exact report _ _ _ (by decide) (by decide)
        (ask _ _ _ rfl rfl (clean_asked _ _ rest rfl (issued_clean pkg _ rest session issued)))
  | renewed session at_ auth doc rest route issued =>
      exact report _ _ _ (by decide) (by decide)
        (ask _ _ _ rfl rfl (clean_asked _ _ rest rfl (issued_clean pkg _ rest session issued)))
  | loggedOut userId doc rest route passed =>
      exact report _ _ _ (by decide) (by decide) (ask _ _ rest rfl rfl (passed_clean pkg http userId rest passed))
  | userDeleted doc rest route clean => exact report _ _ _ (by decide) (by decide) (ask _ _ rest rfl rfl clean)
  | userEdited reply rest route clean => exact report _ _ _ (by decide) (by decide) (ask _ _ rest rfl rfl clean)
  | recovered doc password hash reply rest route clean =>
      apply report _ _ _ (by decide) (by decide)
      apply all_silent_cons _ _ (mail_silent _ (by simp [RecoverForgotPassword.mail]) (by simp [RecoverForgotPassword.mail]))
      exact ask _ _ _ rfl rfl (clean_asked _ _ rest rfl clean)
  | meetingAdded row doc rest route clean => exact .adds status row doc rest clean
  | meetingUpdated found mail reply rest route clean printed =>
      have subject := update_mail_subject pkg found.row http.body mail printed
      apply report _ _ _ (by decide) (by decide)
      apply all_silent_cons _ _ (mail_silent _ (by rw [subject]; decide) (by rw [subject]; decide))
      exact ask _ _ _ rfl rfl (clean_asked _ _ rest rfl clean)
  | meetingDeleted found doc rest route clean => exact .deletes status _ _ found doc _ (clean_asked _ _ rest rfl clean)
  | shown endpoint _ message data route reading clean =>
      exact .not_ _ (all_silent_cons _ h (viewed ⟨endpoint, route, reading⟩) (clean_all_silent h clean))

theorem reply_touches (status : Nat) (body : Body) (reply : Reply pkg http h body)
    (viewed : (viewing http).tells h (.send status body)) :
    Touches pkg (.said (.send status body) :: h) := by
  cases reply with
  | refused response bad clean =>
      exact .not_ _ (all_silent_cons _ h (refused_silent status response bad.1) (clean_all_silent h clean))
  | nobody route clean =>
      exact .not_ _ (all_silent_cons _ h (other_silent _ _ _ _ (by decide) (by decide)) (clean_all_silent h clean))
  | done response effect => exact effect_touches pkg http h status response effect viewed

theorem escape_touches (escape : Escape pkg http h) : Touches pkg h := by
  cases escape with
  | hashing rest route odd clean => exact .not_ _ (clean_all_silent _ (clean_asked _ _ rest rfl clean))
  | printing found thrown reply rest route odd clean =>
      exact .not_ _ (all_silent_cons _ _ ⟨rfl, rfl, rfl, rfl, rfl, rfl⟩ (clean_all_silent _ (clean_asked _ _ rest rfl clean)))

end Requests

theorem added_as (pkg : Packages) (entry : Scalar) (status : Nat) (row : Except String (Row MeetingField))
    (doc : Doc MeetingField) (rest : History sig) (before : BalancedAs entry rest) :
    BalancedAs entry (.said (.send status (.api (generate false "Meeting Created" 200 (.meetingDetails doc.row)))) ::
      .said (.mail (AddMeeting.mail pkg doc.row)) :: .asked (.meetings (.insert row)) (.ok doc) :: rest) := by
  constructor
  · simp [List.countP_cons, insertsAs, insertedAt, createdAs, reportsAs, reports, generate, shownEntry, before.created]
  · simp [removesAs, removedAt, deletedAs, reportsAs, reports, generate, before.deleted]

theorem deleted_as (pkg : Packages) (entry : Scalar) (status : Nat) (path : MeetingField) (value : Js.Value)
    (found doc : Doc MeetingField) (rest : History sig) (before : BalancedAs entry rest) :
    BalancedAs entry (.said
      (.send status (.api (generate false "Deleted Meeting successfully" 200 (.meeting ⟨doc.id, hydrateMeeting doc.row⟩)))) ::
      .said (.mail (DeleteMeeting.mail pkg found.row)) :: .asked (.meetings (.findOneAndRemove path value))
      (.ok (some doc)) :: rest) := by
  have same : hydrateMeeting doc.row .meetingId = doc.row .meetingId := by simp [hydrateMeeting, meetingDefault]
  constructor
  · simp [insertsAs, insertedAt, createdAs, reportsAs, reports, generate, before.created]
  · simp [List.countP_cons, removesAs, removedAt, deletedAs, reportsAs, reports, generate, shownEntry, same, before.deleted]

theorem touches_balanced (pkg : Packages) (h : History sig) (touches : Touches pkg h) (entry : Scalar) : BalancedAs entry h := by
  have clean_balanced_as : ∀ rest, Clean rest → BalancedAs entry rest :=
    fun rest clean => silent_all_balanced entry rest (clean_all_silent rest clean)
  cases touches with
  | not_ _ silent => exact silent_all_balanced entry h silent
  | adds status row doc rest clean => exact added_as pkg entry status row doc rest (clean_balanced_as rest clean)
  | deletes status path value found doc rest clean =>
      exact deleted_as pkg entry status path value found doc rest (clean_balanced_as rest clean)

theorem finished_balanced_as (pkg : Packages) (labels : List (Label (server pkg))) (store : Store) (cell : Body) (i : Nat)
    (task : Task (server pkg)) (here : (run labels (World.initial (server pkg) store cell)).tasks[i]? = some task)
    (over_ : finished task.proc = true) (entry : Scalar) :
    BalancedAs entry (view i (run labels (World.initial (server pkg) store cell)).trace) := by
  have meets := (run_tracked (contract pkg) (app_contract pkg) labels _ (initial_tracked _ store cell)).meets i task here
  have lawful := run_lawful viewing (app_viewing pkg) labels store cell
  apply touches_balanced pkg
  obtain ⟨job, proc⟩ := task
  cases proc with
  | halt =>
      obtain ⟨status, body, past, shape, reply⟩ := meets
      obtain ⟨http, there, viewed⟩ := lawful_viewed (m := server pkg) viewing _ _ lawful i [] _ past shape
      cases (jobs_lookup _ i _ here).symm.trans there
      rw [shape]
      exact reply_touches pkg job past status body reply viewed
  | crash => exact escape_touches pkg job _ meets
  | _ => cases over_

-- The body of an update leaves the id alone.
def KeepsMeetingId (pkg : Packages) (http : HttpRequest) : Prop :=
  endpointOf http = some .updateMeeting → ∀ effect, pkg.meetingChange http.body = .apply effect →
    ∀ row, effect row .meetingId = row .meetingId

theorem kept_entry (pkg : Packages) (http : HttpRequest) (h : History sig) (cmd : Cmd MeetingField)
    (allowed : mayWrite pkg http h (.meetings cmd)) (keeps : KeepsMeetingId pkg http) : KeepsEntry .meetingId cmd := by
  cases cmd with
  | update path value change =>
      obtain ⟨route, _, _, rfl⟩ := allowed
      cases same : pkg.meetingChange http.body with
      | apply effect => exact keeps route effect same
      | _ => trivial
  | resave => cases allowed
  | _ => trivial

theorem counted_rule (pkg : Packages) (entry : Scalar) (start : Nat) :
    EventRule (m := server pkg) (writing pkg) unguarded (fun known trace store => (∀ http ∈ known, KeepsMeetingId pkg http) →
      (contents store.meetings).count entry + tally (removesAs entry) trace = start + tally (insertsAs entry) trace) where
  born := fun known _ _ job holds keeps => holds fun http member => keeps http (List.mem_append_left [job] member)
  told := fun _ _ _ _ _ _ holds _ _ keeps => by
    rw [tally_cons, tally_cons]
    exact holds keeps
  asked := by
    intro known trace store i http op choice holds here allowed _ keeps
    have before := holds keeps
    rw [tally_cons, tally_cons]
    cases op with
    | users | auths => exact before
    | compare => cases choice <;> exact before
    | meetings cmd =>
        have kept := kept_entry pkg http _ cmd allowed (keeps http (List.mem_of_getElem? here))
        have counted := executed_count _ _ _ cmd _ (exec_executed pkg.castQuery cmd choice store.meetings) kept entry
        simp only [execute, removesAs, insertsAs]
        omega

-- When all requests are done, the deletions reported for an id and the
-- meeting still stored under it are together as many as the creations reported
-- for it and the meeting first stored under it: of any number of deletions
-- that interleave, one reports success.
theorem each_meeting_deleted_once (pkg : Packages) (store : Store) (cell : Body) (labels : List (Label (server pkg)))
    (keeps : ∀ http ∈ startedJobs labels, KeepsMeetingId pkg http)
    (idle : ∀ task ∈ (run labels (World.initial (server pkg) store cell)).tasks, finished task.proc = true) (entry : Scalar) :
    (contents (run labels (World.initial (server pkg) store cell)).store.meetings).count entry +
        tally (deletedAs entry) (run labels (World.initial (server pkg) store cell)).trace =
      (contents store.meetings).count entry +
      tally (createdAs entry) (run labels (World.initial (server pkg) store cell)).trace := by
  have tracked := run_tracked (contract pkg) (app_contract pkg) labels _ (initial_tracked _ store cell)
  have bounded := tracked_bounded _ _ tracked
  have counted := (counted_rule pkg entry ((contents store.meetings).count entry)).runs (app_writing pkg) labels _
    (initial_tracked _ store cell) (fun _ => rfl)
  rw [run_jobs] at counted
  have balanced : ∀ i, i < (run labels (World.initial (server pkg) store cell)).tasks.length →
      BalancedAs entry (view i (run labels (World.initial (server pkg) store cell)).trace) := by
    intro i born
    exact finished_balanced_as pkg labels store cell i _ (List.getElem?_eq_getElem born) (idle _ (List.getElem_mem born)) entry
  have created := tally_balanced _ _ _ _ bounded fun i born => (balanced i born).created
  have deleted := tally_balanced _ _ _ _ bounded fun i born => (balanced i born).deleted
  rw [created, deleted] at counted
  exact counted keeps

theorem reference_each_meeting_deleted_once :
    tally (createdAs (.str "id")) Reference.emptied.trace = 1 ∧
      (contents Reference.emptied.store.meetings).count (.str "id") +
      tally (deletedAs (.str "id")) Reference.emptied.trace = 1 := by
  have facts : (∀ task ∈ Reference.emptied.tasks, finished task.proc = true) ∧
      tally (createdAs (.str "id")) Reference.emptied.trace = 1 ∧
      Reference.afterLogin.meetings.docs = [] ∧
          (startedJobs Reference.deletedTwice).all (fun http => endpointOf http != some .updateMeeting) = true := by
    decide +kernel
  obtain ⟨idle, created, none_, others⟩ := facts
  have once := each_meeting_deleted_once Reference.packages Reference.afterLogin (.thrown "") Reference.deletedTwice
    (fun http member route => absurd route (by simpa using List.all_eq_true.mp others http member)) idle (.str "id")
  have empty : (contents Reference.afterLogin.meetings).count (.str "id") = 0 := by simp [Rows.count, contents, none_]
  rw [empty, Nat.zero_add] at once
  exact ⟨created, once.trans created⟩

end Planner
