import PlannerBackend.Created
import PlannerBackend.Moments

set_option autoImplicit false

namespace Planner

open Docs Resume

theorem meetings_executed (pkg : Packages) (cmd : Cmd MeetingField) (choice : Choice) (store : Store) (ans : Ans cmd)
    (answer : (execute pkg (.meetings cmd) choice store).1 = ans) :
    Executed pkg.castQuery store.meetings cmd ans (execute pkg (.meetings cmd) choice store).2.meetings := by
  subst answer
  exact exec_executed pkg.castQuery cmd choice store.meetings

section Later

variable (pkg : Packages) (store : Store) (cell : Body) (before after : List (Label (server pkg))) (http : HttpRequest)
  (env : Nat → Ambient) (start world : World (server pkg)) (isStart : start = run before (World.initial (server pkg) store cell))
  (reached : world = run (.start http env :: after) start)

include isStart reached

-- A point of the run at which all that was traced when the request arrived had
-- already happened.
structure Since (soFar : List (Label (server pkg))) : Prop where
  labelled : ∃ later, before ++ .start http env :: after = soFar ++ later
  kept : ∀ entry ∈ start.trace, entry ∈ (run soFar (World.initial (server pkg) store cell)).trace

theorem since_jobs (soFar : List (Label (server pkg))) (since : Since pkg store cell before after http env start soFar)
    (other : HttpRequest) (member : other ∈ startedJobs soFar) : other ∈ jobs world := by
  obtain ⟨later, labelled⟩ := since.labelled
  rw [reached, isStart, ← run_append, labelled, run_append, run_jobs, run_jobs]
  simp [member]

-- Whatever a request asks is answered by the store of such a point.
theorem asked_later (op : Op) (ans : Answer op) (asked : (start.tasks.length, .asked op ans) ∈ world.trace) :
    ∃ soFar choice, Since pkg store cell before after http env start soFar ∧
      ans = (execute pkg op choice (run soFar (World.initial (server pkg) store cell)).store).1 := by
  have tracked := run_tracked (contract pkg) (app_contract pkg) before _ (initial_tracked _ store cell)
  have unborn : (start.tasks.length, .asked op ans) ∉ start.trace := by
    rw [← isStart] at tracked
    exact fun member => Nat.lt_irrefl _ (tracked_bounded _ _ tracked _ member)
  obtain ⟨newer, older, split⟩ := List.append_of_mem asked
  obtain ⟨added, grown⟩ := run_extends (.start http env :: after) start
  have resumed : world = run (before ++ .start http env :: after) (World.initial (server pkg) store cell) := by
    rw [reached, run_append, isStart]
  rw [resumed] at split
  obtain ⟨soFar, choice, _, rest, _, _, labelled, then_, _, answer⟩ :=
    run_moment (before ++ .start http env :: after) _ newer older _ op ans split (by simp [World.initial])
  refine ⟨soFar, choice, ⟨⟨_, labelled⟩, ?_⟩, answer⟩
  intro entry member
  rw [then_]
  rw [← resumed, reached, grown] at split
  -- the note is not among the old ones, so the old ones lie below it
  rcases List.append_eq_append_iff.mp split with ⟨more, _, short⟩ | ⟨more, _, short⟩
  · exact absurd (by rw [short]; simp) unborn
  · cases more with
    | nil => exact absurd (by rw [← List.nil_append start.trace, ← short]; simp) unborn
    | cons first more =>
        rw [(List.cons.inj short).2]
        exact List.mem_append_right _ member

theorem answered_readout (endpoint : Endpoint) (route : endpointOf http = some endpoint) (reading : reads endpoint = true)
    (code : Nat) (response : Response) (answered : (start.tasks.length, .said (.send code (.api response))) ∈ world.trace)
    (fine : response.error = false) :
    ∃ past, Readout http past response ∧ ∀ note ∈ past, (start.tasks.length, note) ∈ world.trace := by
  have lawful := run_lawful showing (app_showing pkg) (before ++ .start http env :: after) store cell
  have owned : (jobs world)[start.tasks.length]? = some http := by
    rw [reached, run_jobs, List.getElem?_append_right (by simp [jobs])]
    simp [jobs, startedJobs]
  rw [run_append, ← isStart, ← reached] at lawful
  obtain ⟨newer, older, split⟩ := List.append_of_mem answered
  obtain ⟨job, here, allowed⟩ := lawful newer _ _ older split
  cases owned.symm.trans here
  refine ⟨_, allowed fine endpoint route reading, ?_⟩
  intro note member
  rw [split]
  exact List.mem_append_right _ (List.mem_cons_of_mem _ ((mem_view _ _ _).mp member))

-- The request asks for this meeting, by its participant or by its id.
def AsksForMeeting (http : HttpRequest) (row : Row MeetingField) : Prop :=
  (∃ s, Addresses http [.getAllMeetingsOfUser] "userId" s ∧ row .participantId = some (.str s)) ∨
    ∃ s, Addresses http [.getMeetingByMeetingId] "meetingId" s ∧ row .meetingId = some (.str s)

def meetingRows : Data → List (Row MeetingField)
  | .meetings docs => docs.map Doc.row
  | .meetingDetails row => [row]
  | _ => []

end Later

-- Whoever asks for a meeting after its creation was answered is shown it as it
-- was created, unless somebody has asked to update or delete it by its id.
theorem created_meetings_are_shown (pkg : Packages) (strings : StringQueries pkg) (store : Store) (cell : Body)
    (before after : List (Label (server pkg))) (http : HttpRequest) (env : Nat → Ambient) (start world : World (server pkg))
    (isStart : start = run before (World.initial (server pkg) store cell))
    (reached : world = run (.start http env :: after) start) (i : Nat) (status : Nat) (row : Row MeetingField)
    (created : (i, .said (.send status (.api (generate false "Meeting Created" 200 (.meetingDetails row))))) ∈ start.trace)
    (untouched : ∀ http ∈ jobs world, ∀ s, Addresses http [.updateMeeting, .deleteMeeting] "meetingId" s →
      row .meetingId ≠ some (.str s))
    (asks : AsksForMeeting http row) (code : Nat) (response : Response)
    (answered : (start.tasks.length, .said (.send code (.api response))) ∈ world.trace) (fine : response.error = false) :
    row ∈ meetingRows response.data := by
  have stored : ∀ soFar, Since pkg store cell before after http env start soFar →
      ∃ doc ∈ (run soFar (World.initial (server pkg) store cell)).store.meetings.docs, doc.row = row := by
    intro soFar since
    obtain ⟨given, doc, noted, rfl⟩ := meeting_created_noted pkg soFar store cell i status row (since.kept _ created)
    exact ⟨doc, (staying_reached pkg soFar store cell).meetings i given doc noted
      (meeting_spared pkg strings _ doc fun other member =>
        untouched other (since_jobs pkg store cell before after http env start world isStart
        reached soFar since other member)), rfl⟩
  rcases asks with ⟨s, ⟨⟨_, among, route⟩, given⟩, named⟩ | ⟨s, ⟨⟨_, among, route⟩, given⟩, named⟩
  · cases List.mem_singleton.mp among
    obtain ⟨past, readout, noted⟩ :=
      answered_readout pkg store cell before after http env start world isStart reached _ route rfl code response answered fine
    cases readout with
    | meetings docs rest _ =>
        rw [given] at noted
        obtain ⟨soFar, choice, since, answer⟩ := asked_later pkg store cell before after http env start world isStart reached _ _
          (noted _ List.mem_cons_self)
        obtain ⟨doc, member, rfl⟩ := stored soFar since
        have done := meetings_executed pkg _ choice _ _ answer.symm
        exact (listed_contents pkg.castQuery _ _ s (strings s) .participantId docs done doc.row).mpr
          ⟨⟨_, contents_member _ doc member⟩, named⟩
    | _ => cases route.symm.trans ‹endpointOf http = some _›
  · cases List.mem_singleton.mp among
    obtain ⟨past, readout, noted⟩ :=
      answered_readout pkg store cell before after http env start world isStart reached _ route rfl code response answered fine
    cases readout with
    | meeting found rest _ =>
        rw [given] at noted
        obtain ⟨soFar, choice, since, answer⟩ := asked_later pkg store cell before after http env start world isStart reached _ _
          (noted _ List.mem_cons_self)
        obtain ⟨doc, member, rfl⟩ := stored soFar since
        have done := meetings_executed pkg _ choice _ _ answer.symm
        have shown := found_contents pkg.castQuery _ _ s (strings s) (some found) done
        have here := contents_member _ doc member
        rw [named] at here
        exact List.mem_singleton.mpr (Option.some.inj (here.symm.trans shown.symm))
    | _ => cases route.symm.trans ‹endpointOf http = some _›

-- The participant lists the meetings after one was added.
def Reference.lookUp : List (Label (server Reference.packages)) :=
  .start (Reference.meetingRequest ["x", "view", "all"] .get .undefined) (Reference.ambient 7000) :: Reference.turns 2 4 7000

def Reference.addedWorld : World (server Reference.packages) :=
  run Reference.added (World.initial (server Reference.packages) Reference.afterLogin (.thrown ""))

theorem reference_created_meetings_are_shown :
    ∃ row : Row MeetingField, row .meetingId = some (.str "id") ∧ ∃ code data,
      (2, code, data) ∈ reportsOf "Meetings Found and Listed" (run Reference.lookUp Reference.addedWorld).trace ∧
      row ∈ meetingRows data := by
  have facts : ((reportsOf "Meeting Created" Reference.addedWorld.trace).map
        fun report => (meetingRow report.2.2).map fun row => (row .meetingId, row .participantId)) =
          [some (some (.str "id"), some (.str "x"))] ∧
      (reportsOf "Meetings Found and Listed" (run Reference.lookUp Reference.addedWorld).trace).map
          (fun report => report.1) = [2] ∧
      (jobs (run Reference.lookUp Reference.addedWorld)).map (fun http => (requestOf http).params "meetingId") =
          [none, some "other", none] ∧
      Reference.addedWorld.tasks.length = 2 := by decide +kernel
  obtain ⟨created, listed, params, born⟩ := facts
  obtain ⟨⟨i, status, data⟩, only, shown⟩ := List.map_eq_singleton_iff.mp created
  obtain ⟨row, isRow, named⟩ := Option.map_eq_some_iff.mp shown
  obtain ⟨isId, isParticipant⟩ := Prod.mk.inj named
  have shape : data = .meetingDetails row := by
    cases data <;> simp [meetingRow] at isRow ⊢
    exact isRow
  subst shape
  obtain ⟨⟨k, code, data⟩, answer, isSecond⟩ := List.map_eq_singleton_iff.mp listed
  obtain rfl : k = 2 := isSecond
  have reported : (2, code, data) ∈ reportsOf "Meetings Found and Listed" (run Reference.lookUp Reference.addedWorld).trace :=
    answer ▸ List.mem_singleton_self _
  refine ⟨row, isId, code, data, reported, ?_⟩
  refine created_meetings_are_shown Reference.packages reference_string_queries Reference.afterLogin
    (.thrown "") Reference.added _ _ _
    Reference.addedWorld _ rfl rfl i status row (mem_reports _ _ _ _ _ (only ▸ List.mem_singleton_self _)) ?_
    (.inl ⟨"x", ⟨⟨_, List.mem_singleton_self _, rfl⟩, rfl⟩, isParticipant⟩) code _
      (by rw [born]; exact mem_reports _ _ _ _ _ reported) rfl
  intro http member s addressed
  have given := addressed.2
  have among := List.mem_map_of_mem (f := fun http => (requestOf http).params "meetingId") member
  rw [show jobs (run (_ :: _) Reference.addedWorld) = jobs (run Reference.lookUp Reference.addedWorld) from rfl, params] at among
  simp only [Request.param] at given
  simp only [List.mem_cons, List.not_mem_nil, or_false] at among
  rcases among with absent | other | absent
  · rw [absent] at given
    cases given
  · rw [other] at given
    cases given
    rw [isId]
    decide
  · rw [absent] at given
    cases given

end Planner
