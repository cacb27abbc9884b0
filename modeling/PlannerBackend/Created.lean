import PlannerBackend.Gate
import PlannerBackend.Isolation
import PlannerBackend.Journal
import PlannerBackend.Readouts
import PlannerBackend.SignUps
import PlannerBackend.Spelling
import PlannerBackend.Writes

set_option autoImplicit false

namespace Planner

open Docs Resume

section Stays

variable (pkg : Packages)

-- No request among these can write to the document.
def MeetingSpared (known : List HttpRequest) (doc : Doc MeetingField) : Prop :=
  ∀ http ∈ known, ∀ h cmd, mayWrite pkg http h (.meetings cmd) → Spares pkg.castQuery doc cmd

def UserSpared (known : List HttpRequest) (doc : Doc UserField) : Prop :=
  ∀ http ∈ known, ∀ h cmd, mayWrite pkg http h (.users cmd) → Spares pkg.castQuery doc cmd

structure Staying (known : List HttpRequest) (trace : Trace sig) (store : Store) : Prop where
  meetings : ∀ i row doc, (i, .asked (.meetings (.insert row)) (.ok doc)) ∈ trace → MeetingSpared pkg known doc →
    doc ∈ store.meetings.docs
  users : ∀ i row doc, (i, .asked (.users (.insert row)) (.ok doc)) ∈ trace → UserSpared pkg known doc → doc ∈ store.users.docs

theorem staying_other (known : List HttpRequest) (trace : Trace sig) (store after : Store) (i : Nat) (note : Note sig)
    (staying : Staying pkg known trace store) (meetings : after.meetings = store.meetings) (users : after.users = store.users)
    (noMeeting : ∀ row doc, note ≠ .asked (.meetings (.insert row)) (.ok doc))
    (noUser : ∀ row doc, note ≠ .asked (.users (.insert row)) (.ok doc)) : Staying pkg known ((i, note) :: trace) after := by
  constructor
  · intro j row doc member spared
    rw [meetings]
    rcases List.mem_cons.mp member with same | older
    · exact absurd (Prod.mk.inj same).2.symm (noMeeting row doc)
    · exact staying.meetings j row doc older spared
  · intro j row doc member spared
    rw [users]
    rcases List.mem_cons.mp member with same | older
    · exact absurd (Prod.mk.inj same).2.symm (noUser row doc)
    · exact staying.users j row doc older spared

theorem inserted_present {F : Type} {key : Option F} (cast : Js.Value → Except String Condition) (held next : Collection F key)
    (row : Except String (Row F)) (doc : Doc F) (done : Executed cast held (.insert row) (.ok doc) next) : doc ∈ next.docs := by
  cases done with
  | inserted row ok => exact (mem_push held row ok _).mpr (.inr rfl)

theorem noted_meeting (cmd other : Cmd MeetingField) (given : Ans cmd) (ans : Ans other)
    (same : (.asked (.meetings other) ans : Note sig) = .asked (.meetings cmd) given)
    (holds : (cmd : Cmd MeetingField) → Ans cmd → Prop) (known : holds cmd given) : holds other ans := by
  injection same with sameCmd sameAns
  cases sameCmd
  rw [eq_of_heq sameAns]
  exact known

theorem noted_user (cmd other : Cmd UserField) (given : Ans cmd) (ans : Ans other)
    (same : (.asked (.users other) ans : Note sig) = .asked (.users cmd) given) (holds : (cmd : Cmd UserField) → Ans cmd → Prop)
    (known : holds cmd given) : holds other ans := by
  injection same with sameCmd sameAns
  cases sameCmd
  rw [eq_of_heq sameAns]
  exact known

theorem staying_rule : EventRule (m := server pkg) (writing pkg) unguarded (Staying pkg) where
  born := by
    intro known trace store http staying
    constructor
    · intro i row doc member spared
      exact staying.meetings i row doc member fun other inKnown => spared other (List.mem_append_left _ inKnown)
    · intro i row doc member spared
      exact staying.users i row doc member fun other inKnown => spared other (List.mem_append_left _ inKnown)
  told := fun known trace store i http out staying _ _ =>
    staying_other pkg known trace store store i _ staying rfl rfl (fun _ _ same => by cases same) (fun _ _ same => by cases same)
  asked := by
    intro known trace store i http op choice staying here allowed _
    have inKnown := List.mem_of_getElem? here
    cases op with
    | meetings cmd =>
        have done := exec_executed pkg.castQuery cmd choice store.meetings
        constructor
        · intro j row doc member spared
          rcases List.mem_cons.mp member with same | older
          · have inserted := noted_meeting cmd (.insert row) _ (.ok doc) (Prod.mk.inj same).2
              (fun cmd ans => Executed pkg.castQuery store.meetings cmd ans _) done
            exact inserted_present _ _ _ row doc inserted
          · exact executed_spares _ _ _ cmd _ done doc (spared http inKnown _ cmd allowed)
              (staying.meetings j row doc older spared)
        · intro j row doc member spared
          rcases List.mem_cons.mp member with same | older
          · cases same
          · exact staying.users j row doc older spared
    | users cmd =>
        have done := exec_executed pkg.castQuery cmd choice store.users
        constructor
        · intro j row doc member spared
          rcases List.mem_cons.mp member with same | older
          · cases same
          · exact staying.meetings j row doc older spared
        · intro j row doc member spared
          rcases List.mem_cons.mp member with same | older
          · have inserted := noted_user cmd (.insert row) _ (.ok doc) (Prod.mk.inj same).2
              (fun cmd ans => Executed pkg.castQuery store.users cmd ans _) done
            exact inserted_present _ _ _ row doc inserted
          · exact executed_spares _ _ _ cmd _ done doc (spared http inKnown _ cmd allowed) (staying.users j row doc older spared)
    | auths cmd =>
        exact staying_other pkg known trace store _ i _ staying rfl rfl (fun _ _ same => by cases same)
          (fun _ _ same => by cases same)
    | compare password hash =>
        have kept : (execute pkg (.compare password hash) choice store).2 = store := by cases choice <;> rfl
        exact staying_other pkg known trace store _ i _ staying (congrArg Store.meetings kept) (congrArg Store.users kept)
          (fun _ _ same => by cases same) (fun _ _ same => by cases same)

theorem staying_reached (labels : List (Label (server pkg))) (store : Store) (cell : Body) :
    Staying pkg (startedJobs labels) (run labels (World.initial (server pkg) store cell)).trace
      (run labels (World.initial (server pkg) store cell)).store := by
  have staying := (staying_rule pkg).runs (app_writing pkg) labels _ (initial_tracked _ store cell)
    ⟨by simp [World.initial], by simp [World.initial]⟩
  rw [run_jobs] at staying
  simpa [jobs, World.initial] using staying

end Stays

theorem string_misses (pkg : Packages) (strings : StringQueries pkg) (value : Js.Value) (s : String) (given : value = .str s)
    (stored : Option Scalar) (other : stored ≠ some (.str s)) (condition : Condition)
    (seen : pkg.castQuery value = .ok condition) :
    condition stored = false := by
  subst given
  obtain ⟨_, same, iff⟩ := strings s
  cases seen.symm.trans same
  exact Bool.eq_false_iff.mpr fun holds => other ((iff stored).mp holds)

section Created

variable (pkg : Packages) (labels : List (Label (server pkg))) (store : Store) (cell : Body) (i : Nat) (status : Nat)

theorem meeting_created_noted (row : Row MeetingField)
    (created : (i, .said (.send status (.api (generate false "Meeting Created" 200 (.meetingDetails row))))) ∈
      (run labels (World.initial (server pkg) store cell)).trace) :
    ∃ given doc, (i, .asked (.meetings (.insert given)) (.ok doc)) ∈ (run labels (World.initial (server pkg) store cell)).trace ∧
      doc.row = row := by
  obtain ⟨http, past, _, shape, success⟩ := answered_success pkg labels store cell i status _ created rfl rfl
  obtain ⟨effect, writes⟩ := success_done pkg http past _ success (by simp [generate])
  generalize reported : generate false "Meeting Created" 200 (.meetingDetails row) = response at effect shape
  cases effect with
  | meetingAdded given doc rest route clean =>
      have same : doc.row = row := by simpa [generate, eq_comm] using reported
      refine ⟨given, doc, ?_, same⟩
      rw [← mem_view, shape]
      simp
  | shown endpoint _ message data route reading clean =>
      rw [writes endpoint route] at reading
      cases reading
  | _ => simp [generate] at reported

theorem user_created_noted (details : Row UserField)
    (created : (i, .said (.send status (.api (generate false "user created" 200 (.details details))))) ∈
      (run labels (World.initial (server pkg) store cell)).trace) :
    ∃ given doc, (i, .asked (.users (.insert given)) (.ok doc)) ∈ (run labels (World.initial (server pkg) store cell)).trace ∧
      without doc.row [.password] = details := by
  obtain ⟨http, past, _, shape, success⟩ := answered_success pkg labels store cell i status _ created rfl rfl
  obtain ⟨effect, writes⟩ := success_done pkg http past _ success (by simp [generate])
  generalize reported : generate false "user created" 200 (.details details) = response at effect shape
  cases effect with
  | created given doc rest route clean =>
      have same : without doc.row [.password] = details := by simpa [generate, eq_comm] using reported
      refine ⟨given, doc, ?_, same⟩
      rw [← mem_view, shape]
      simp
  | shown endpoint _ message data route reading clean =>
      rw [writes endpoint route] at reading
      cases reading
  | _ => simp [generate] at reported

end Created

-- The path of the url names this string as the parameter.
def Addresses (http : HttpRequest) (endpoints : List Endpoint) (param : String) (s : String) : Prop :=
  (∃ endpoint ∈ endpoints, endpointOf http = some endpoint) ∧ (requestOf http).param param = .str s

theorem meeting_spared (pkg : Packages) (strings : StringQueries pkg) (known : List HttpRequest) (doc : Doc MeetingField)
    (untouched : ∀ http ∈ known, ∀ s, Addresses http [.updateMeeting, .deleteMeeting] "meetingId" s →
      doc.row .meetingId ≠ some (.str s)) :
    MeetingSpared pkg known doc := by
  intro http member h cmd allowed
  cases cmd with
  | update path value change =>
      obtain ⟨route, rfl, rfl, _⟩ := allowed
      obtain ⟨s, given⟩ := param_given http .updateMeeting route "meetingId" (by decide)
      exact string_misses pkg strings _ s given _ (untouched http member s ⟨⟨_, by simp, route⟩, given⟩)
  | findOneAndRemove path value =>
      obtain ⟨route, rfl, rfl⟩ := allowed
      obtain ⟨s, given⟩ := param_given http .deleteMeeting route "meetingId" (by decide)
      exact string_misses pkg strings _ s given _ (untouched http member s ⟨⟨_, by simp, route⟩, given⟩)
  | resave => cases allowed
  | _ => trivial

theorem user_spared (pkg : Packages) (strings : StringQueries pkg) (known : List HttpRequest) (doc : Doc UserField)
    (unaddressed : ∀ http ∈ known, ∀ s, Addresses http [.editUser, .deleteUserById] "userId" s → doc.row .userId ≠ some (.str s))
    (unrecovered : ∀ http ∈ known, ∀ s, Addresses http [.recoverForgotPassword] "email" s → doc.row .email ≠ some (.str s)) :
    UserSpared pkg known doc := by
  intro http member h cmd allowed
  cases cmd with
  | update path value change =>
      rcases allowed with ⟨route, rfl, rfl, _⟩ | ⟨route, rfl, rfl, _⟩
      · obtain ⟨s, given⟩ := param_given http .editUser route "userId" (by decide)
        exact string_misses pkg strings _ s given _ (unaddressed http member s ⟨⟨_, by simp, route⟩, given⟩)
      · obtain ⟨s, given⟩ := param_given http .recoverForgotPassword route "email" (by decide)
        exact string_misses pkg strings _ s given _ (unrecovered http member s ⟨⟨_, by simp, route⟩, given⟩)
  | findOneAndRemove path value =>
      obtain ⟨route, rfl, rfl⟩ := allowed
      obtain ⟨s, given⟩ := param_given http .deleteUserById route "userId" (by decide)
      exact string_misses pkg strings _ s given _ (unaddressed http member s ⟨⟨_, by simp, route⟩, given⟩)
  | resave => cases allowed
  | _ => trivial

-- A created meeting stays stored as it was reported, in any interleaving, as
-- long as nobody asks to update or delete it by its id.
theorem created_meetings_stay (pkg : Packages) (strings : StringQueries pkg) (labels : List (Label (server pkg))) (store : Store)
    (cell : Body) (i : Nat) (status : Nat) (row : Row MeetingField)
    (created : (i, .said (.send status (.api (generate false "Meeting Created" 200 (.meetingDetails row))))) ∈
      (run labels (World.initial (server pkg) store cell)).trace)
    (untouched : ∀ http ∈ startedJobs labels, ∀ s, Addresses http [.updateMeeting, .deleteMeeting] "meetingId" s →
      row .meetingId ≠ some (.str s)) :
    ∃ doc ∈ (run labels (World.initial (server pkg) store cell)).store.meetings.docs, doc.row = row := by
  obtain ⟨given, doc, noted, rfl⟩ := meeting_created_noted pkg labels store cell i status row created
  exact ⟨doc, (staying_reached pkg labels store cell).meetings i given doc noted
    (meeting_spared pkg strings _ doc untouched), rfl⟩

-- One meeting is added while another id is deleted.
def Reference.added : List (Label (server Reference.packages)) :=
  .start (Reference.meetingRequest ["addMeeting"] .post Reference.meetingBody) (Reference.ambient 6000) ::
    .start (Reference.meetingRequest ["other", "deleteMeeting"] .post .undefined) (Reference.ambient 6000) ::
    Reference.turns 0 2 6000 ++ Reference.turns 1 3 6000 ++ Reference.turns 0 2 6000

def meetingRow : Data → Option (Row MeetingField)
  | .meetingDetails row => some row
  | _ => none

theorem reference_created_meetings_stay :
    ∃ row : Row MeetingField, row .meetingId = some (.str "id") ∧
      ∃ doc ∈ (run Reference.added
        (World.initial (server Reference.packages) Reference.afterLogin (.thrown ""))).store.meetings.docs,
        doc.row = row := by
  have facts : (reportsOf "Meeting Created"
        (run Reference.added (World.initial (server Reference.packages) Reference.afterLogin (.thrown ""))).trace).map
          (fun report => (meetingRow report.2.2).map fun row => row .meetingId) = [some (some (.str "id"))] ∧
      (startedJobs Reference.added).map (fun http => (requestOf http).params "meetingId") =
        [none, some "other"] := by decide +kernel
  obtain ⟨created, params⟩ := facts
  obtain ⟨⟨i, code, data⟩, only, shown⟩ := List.map_eq_singleton_iff.mp created
  obtain ⟨row, isRow, named⟩ := Option.map_eq_some_iff.mp shown
  have shape : data = .meetingDetails row := by
    cases data <;> simp [meetingRow] at isRow ⊢
    exact isRow
  subst shape
  refine ⟨row, named, created_meetings_stay Reference.packages reference_string_queries Reference.added Reference.afterLogin
    (.thrown "") i code row (mem_reports _ _ _ _ _ (only ▸ List.mem_singleton_self _)) ?_⟩
  intro http member s addressed
  have listed := List.mem_map_of_mem (f := fun http => (requestOf http).params "meetingId") member
  have given := addressed.2
  rw [params] at listed
  simp only [Request.param] at given
  rcases List.mem_cons.mp listed with absent | rest
  · rw [absent] at given
    cases given
  · rw [List.mem_singleton.mp rest] at given
    cases given
    rw [named]
    decide

-- So does a created user, as long as nobody asks to edit or delete it by its
-- id or to recover the password for its email.
theorem created_users_stay (pkg : Packages) (strings : StringQueries pkg) (labels : List (Label (server pkg))) (store : Store)
    (cell : Body) (i : Nat) (status : Nat) (details : Row UserField)
    (created : (i, .said (.send status (.api (generate false "user created" 200 (.details details))))) ∈
      (run labels (World.initial (server pkg) store cell)).trace)
    (unaddressed : ∀ http ∈ startedJobs labels, ∀ s, Addresses http [.editUser, .deleteUserById] "userId" s →
      details .userId ≠ some (.str s))
    (unrecovered : ∀ http ∈ startedJobs labels, ∀ s, Addresses http [.recoverForgotPassword] "email" s →
      details .email ≠ some (.str s)) :
    ∃ doc ∈ (run labels (World.initial (server pkg) store cell)).store.users.docs, without doc.row [.password] = details := by
  obtain ⟨given, doc, noted, rfl⟩ := user_created_noted pkg labels store cell i status details created
  have spared := user_spared pkg strings _ doc
    (fun http member s named => by simpa [without] using unaddressed http member s named)
    (fun http member s named => by simpa [without] using unrecovered http member s named)
  exact ⟨doc, (staying_reached pkg labels store cell).users i given doc noted spared, rfl⟩

-- Two users sign up, and the second recovers the password.
def Reference.registered : List (Label (server Reference.packages)) :=
  Reference.twoSignUps "a@b.co" "c@d.co" ++ .start (Reference.recoverRequest "c@d.co") (Reference.ambient 4000) ::
    Reference.signUpTurns 2 4

def detailsOf : Data → Option (Row UserField)
  | .details row => some row
  | _ => none

theorem reference_created_users_stay :
    ∃ details : Row UserField, details .email = some (.str "a@b.co") ∧
      ∃ doc ∈ (run Reference.registered
        (World.initial (server Reference.packages) ⟨.none, .none, .none⟩ (.thrown ""))).store.users.docs,
        without doc.row [.password] = details := by
  have facts : (reportsOf "user created"
        (run Reference.registered (World.initial (server Reference.packages) ⟨.none, .none, .none⟩ (.thrown ""))).trace).map
          (fun report => (detailsOf report.2.2).map fun row => row .email) =
            [some (some (.str "c@d.co")), some (some (.str "a@b.co"))] ∧
      (startedJobs Reference.registered).map (fun http => ((requestOf http).params "email", (requestOf http).params "userId")) =
        [(none, none), (none, none), (some "c@d.co", none)] := by decide +kernel
  obtain ⟨created, params⟩ := facts
  have second : some (some (.str "a@b.co")) ∈ (reportsOf "user created"
      (run Reference.registered (World.initial (server Reference.packages) ⟨.none, .none, .none⟩ (.thrown ""))).trace).map
        (fun report => (detailsOf report.2.2).map fun row => row .email) := by
    rw [created]
    simp
  obtain ⟨⟨i, code, data⟩, member, shown⟩ := List.mem_map.mp second
  obtain ⟨details, isRow, named⟩ := Option.map_eq_some_iff.mp shown
  have shape : data = .details details := by
    cases data <;> simp [detailsOf] at isRow ⊢
    exact isRow
  subst shape
  refine ⟨details, named, created_users_stay Reference.packages reference_string_queries Reference.registered
    ⟨.none, .none, .none⟩ (.thrown "") i code details (mem_reports _ _ _ _ _ member) ?_ ?_⟩
  all_goals
    intro http inJobs s addressed
    have listed := List.mem_map_of_mem
      (f := fun http => ((requestOf http).params "email", (requestOf http).params "userId")) inJobs
    have given := addressed.2
    simp only [Request.param] at given
    rw [params] at listed
    simp only [List.mem_cons, List.not_mem_nil, or_false, Prod.mk.injEq] at listed
    rcases listed with ⟨email, userId⟩ | ⟨email, userId⟩ | ⟨email, userId⟩ <;> simp [email, userId, stringValue] at given
  subst given
  rw [named]
  decide

end Planner
