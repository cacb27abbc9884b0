import PlannerBackend.Commuting
import PlannerBackend.Mailing

set_option autoImplicit false

namespace Planner

open Docs Resume

-- What the email of a deletion names.
def quoted : List MeetingField := [.participantEmail, .participantName, .hostName, .topic]

def Quotes (first second : Row MeetingField) : Prop := ∀ path ∈ quoted, first path = second path

theorem mail_quotes (pkg : Packages) (first second : Row MeetingField) (same : Quotes first second) :
    DeleteMeeting.mail pkg first = DeleteMeeting.mail pkg second := by
  simp only [DeleteMeeting.mail]
  rw [same .participantEmail (by decide), same .participantName (by decide), same .hostName (by decide), same .topic (by decide)]

-- The request has read the meeting and is about to remove it.
structure Deleting (requests : List HttpRequest) (trace : Trace sig) (j : Nat) (http : HttpRequest)
    (found : Doc MeetingField) : Prop where
  here : requests[j]? = some http
  route : endpointOf http = some .deleteMeeting
  read : ∃ rest, view j trace = meetingLookup http found :: rest

-- No update changes what the email names while a deletion of the meeting is
-- between its two commands.
def undisturbed (pkg : Packages) (requests : List HttpRequest) : Guard (server pkg) := fun trace store _ op =>
  ∀ j http found change, Deleting requests trace j http found →
    op = .meetings (.update .meetingId ((requestOf http).param "meetingId") change) →
    ∀ doc ∈ store.meetings.docs, doc.row .meetingId = found.row .meetingId → Quotes doc.row (change.on doc.row)

-- Meetings are not created, and keep their meetingId.
structure Stable (http : HttpRequest) : Prop where
  creates : endpointOf http ≠ some .addMeeting
  renames : endpointOf http = some .updateMeeting → Plain http.body ∧ ¬ Names http.body MeetingField.meetingId

structure Current (requests : List HttpRequest) (trace : Trace sig) (meetings : List (Doc MeetingField)) : Prop where
  named : ∀ j http found, Deleting requests trace j http found →
    ∃ name, (requestOf http).param "meetingId" = .str name ∧ found.row .meetingId = some (.str name)
  stored : ∀ j http found, Deleting requests trace j http found →
    ∀ doc ∈ meetings, doc.row .meetingId = found.row .meetingId → Quotes found.row doc.row
  removed : ∀ j http found doc newer rest, requests[j]? = some http → endpointOf http = some .deleteMeeting →
    view j trace = newer ++ meetingRemoval http doc :: meetingLookup http found :: rest → Quotes found.row doc.row

theorem deleting_cons (requests : List HttpRequest) (trace : Trace sig) (i j : Nat) (note : Note sig) (http : HttpRequest)
    (found : Doc MeetingField) (deleting : Deleting requests ((i, note) :: trace) j http found) :
    j = i ∧ note = meetingLookup http found ∨ Deleting requests trace j http found := by
  obtain ⟨here, route, rest, shape⟩ := deleting
  by_cases own : i = j
  · subst own
    rw [view_cons_own] at shape
    exact .inl ⟨rfl, (List.cons.inj shape).1⟩
  · rw [view_cons_other j i note trace own] at shape
    exact .inr ⟨here, route, rest, shape⟩

theorem removed_cons (requests : List HttpRequest) (trace : Trace sig) (meetings : List (Doc MeetingField))
    (current : Current requests trace meetings) (i : Nat) (note : Note sig)
    (removes : ∀ http found doc, note = meetingRemoval http doc → Deleting requests trace i http found → Quotes found.row doc.row)
    (j : Nat) (http : HttpRequest) (found doc : Doc MeetingField) (newer rest : History sig) (here : requests[j]? = some http)
    (route : endpointOf http = some .deleteMeeting)
    (shape : view j ((i, note) :: trace) = newer ++ meetingRemoval http doc :: meetingLookup http found :: rest) :
    Quotes found.row doc.row := by
  by_cases own : i = j
  · subst own
    rw [view_cons_own] at shape
    rcases split_cons _ _ _ _ _ shape with ⟨_, same, before⟩ | ⟨later, _, before⟩
    · exact removes http found doc same ⟨here, route, rest, before⟩
    · exact current.removed i http found doc later rest here route before
  · rw [view_cons_other j i note trace own] at shape
    exact current.removed j http found doc newer rest here route shape

theorem current_other (requests : List HttpRequest) (trace : Trace sig) (meetings : List (Doc MeetingField))
    (current : Current requests trace meetings) (i : Nat) (note : Note sig)
    (unread : ∀ http found, note ≠ meetingLookup http found) (unremoved : ∀ http doc, note ≠ meetingRemoval http doc) :
    Current requests ((i, note) :: trace) meetings := by
  have before : ∀ j http found, Deleting requests ((i, note) :: trace) j http found → Deleting requests trace j http found := by
    intro j http found deleting
    rcases deleting_cons requests trace i j note http found deleting with ⟨_, same⟩ | old
    · exact absurd same (unread http found)
    · exact old
  refine ⟨fun j http found deleting => current.named j http found (before j http found deleting),
    fun j http found deleting => current.stored j http found (before j http found deleting), ?_⟩
  exact removed_cons requests trace meetings current i note fun http found doc same => absurd same (unremoved http doc)

theorem meetings_noted (pkg : Packages) (cmd other : Cmd MeetingField) (choice : Choice) (store : Store) (ans : Ans other)
    (same : (.asked (.meetings cmd) (execute pkg (.meetings cmd) choice store).1 : Note sig) = .asked (.meetings other) ans) :
    cmd = other ∧ Executed pkg.castQuery store.meetings other ans (execute pkg (.meetings cmd) choice store).2.meetings := by
  have done : Executed pkg.castQuery store.meetings cmd (execute pkg (.meetings cmd) choice store).1
      (execute pkg (.meetings cmd) choice store).2.meetings := exec_executed pkg.castQuery cmd choice store.meetings
  injection same with sameOp sameAns
  cases sameOp
  rw [eq_of_heq sameAns] at done
  exact ⟨rfl, done⟩

section Rule

variable (pkg : Packages) (strings : StringQueries pkg) (updates : UpdatesBy (meetingCast pkg) pkg.meetingChange)

include strings updates

-- A meeting after a command was there before, or was updated under its meetingId.
theorem meeting_origin (http : HttpRequest) (stable : Stable http) (h : History sig) (cmd : Cmd MeetingField)
    (allowed : mayWrite pkg http h (.meetings cmd)) (choice : Choice) (store : Store) (doc : Doc MeetingField)
    (member : doc ∈ (execute pkg (.meetings cmd) choice store).2.meetings.docs) :
    doc ∈ store.meetings.docs ∨ ∃ old ∈ store.meetings.docs, ∃ name change, cmd = .update .meetingId (.str name) change ∧
      old.row .meetingId = some (.str name) ∧ doc.row .meetingId = some (.str name) ∧ doc.row = change.on old.row := by
  have done := exec_executed pkg.castQuery cmd choice store.meetings
  change doc ∈ (exec pkg.castQuery cmd choice store.meetings).2.docs at member
  generalize (exec pkg.castQuery cmd choice store.meetings).1 = ans at done
  generalize (exec pkg.castQuery cmd choice store.meetings).2 = next at done member
  cases done with
  | error | missing | found | listedAll | listed | unremoved | skipped | unmatched => exact .inl member
  | inserted row ok => exact absurd allowed.1 stable.creates
  | resaved given paths stored inside same ok => cases allowed
  | removed path value condition found seen inside holds => exact .inl ((mem_remove _ found.id doc).mp member).1
  | updated path value effect condition old changed seen inside holds ok =>
      obtain ⟨route, rfl, rfl, change⟩ := allowed
      obtain ⟨name, named⟩ := meeting_named http (.inr route)
      rw [named] at seen
      have selected := selected_named pkg strings name condition seen _ holds
      rcases (mem_replace _ _ _ ok doc).mp member with ⟨before, _⟩ | ⟨rfl, _⟩
      · exact .inl before
      · obtain ⟨plain, unnamed⟩ := stable.renames route
        have sets := updates http.body plain
        rw [← change] at sets
        refine .inr ⟨old, inside, name, .apply effect, by rw [named], selected, ?_, rfl⟩
        exact (unnamed_kept (meetingCast pkg) http.body _ sets .meetingId unnamed old.row).trans selected

theorem current_asked (requests : List HttpRequest) (trace : Trace sig) (store : Store)
    (current : Current requests trace store.meetings.docs) (i : Nat) (http : HttpRequest) (stable : Stable http)
    (cmd : Cmd MeetingField) (allowed : mayWrite pkg http (view i trace) (.meetings cmd))
    (guard : undisturbed pkg requests trace store i (.meetings cmd)) (choice : Choice) :
    Current requests ((i, .asked (.meetings cmd) (execute pkg (.meetings cmd) choice store).1) :: trace)
      (execute pkg (.meetings cmd) choice store).2.meetings.docs := by
  -- A lookup that has just been made found the stored meeting itself.
  have read : ∀ job found, endpointOf job = some .deleteMeeting →
      (.asked (.meetings cmd) (execute pkg (.meetings cmd) choice store).1 : Note sig) = meetingLookup job found →
      found ∈ store.meetings.docs ∧ (execute pkg (.meetings cmd) choice store).2.meetings = store.meetings ∧
        ∃ name, (requestOf job).param "meetingId" = .str name ∧ found.row .meetingId = some (.str name) := by
    intro job found route same
    obtain ⟨_, done⟩ := meetings_noted pkg cmd _ choice store _ same
    obtain ⟨inside, condition, seen, holds⟩ := executed_found _ _ _ _ _ _ done
    obtain ⟨name, named⟩ := meeting_named job (.inl route)
    rw [named] at seen
    exact ⟨inside, executed_idle _ _ _ _ _ done rfl, name, named, selected_named pkg strings name condition seen _ holds⟩
  refine ⟨?_, ?_, ?_⟩
  · intro j job found deleting
    rcases deleting_cons requests trace i j _ job found deleting with ⟨_, same⟩ | before
    · exact (read job found deleting.route same).2.2
    · exact current.named j job found before
  · intro j job found deleting doc member named
    rcases deleting_cons requests trace i j _ job found deleting with ⟨_, same⟩ | before
    · obtain ⟨inside, kept, _⟩ := read job found deleting.route same
      rw [kept] at member
      obtain rfl := same_index_same_doc store.meetings .meetingId rfl doc found member inside named
      exact fun _ _ => rfl
    · rcases meeting_origin pkg strings updates http stable _ cmd allowed choice store doc member with
        old | ⟨old, inside, name, change, rfl, oldNamed, newNamed, rewritten⟩
      · exact current.stored j job found before doc old named
      · obtain ⟨target, given, foundNamed⟩ := current.named j job found before
        have sameName : name = target := by simpa [newNamed, foundNamed] using named
        subst sameName
        have quotes := current.stored j job found before old inside (by rw [oldNamed, foundNamed])
        have unchanged := guard j job found change before (by rw [given]) old inside (by rw [oldNamed, foundNamed])
        intro path listed
        rw [rewritten]
        exact (quotes path listed).trans (unchanged path listed)
  · apply removed_cons requests trace _ current i
    intro job found doc same deleting
    obtain ⟨_, done⟩ := meetings_noted pkg cmd _ choice store _ same
    obtain ⟨inside, ⟨condition, seen, holds⟩, _⟩ := executed_removed _ _ _ _ _ _ done
    obtain ⟨name, given, foundNamed⟩ := current.named i job found deleting
    rw [given] at seen
    exact current.stored i job found deleting doc inside
      ((selected_named pkg strings name condition seen _ holds).trans foundNamed.symm)

theorem current_rule (requests : List HttpRequest) (stable : ∀ http ∈ requests, Stable http) :
    EventRule (m := server pkg) (writing pkg) (undisturbed pkg requests) (fun known trace store =>
      known <+: requests → Current requests trace store.meetings.docs) where
  born := by
    intro known trace store job holds listed
    exact holds ((List.prefix_append known [job]).trans listed)
  told := by
    intro known trace store i job out holds _ _ listed
    apply current_other requests trace _ (holds listed) i
    · intro http found same
      cases same
    · intro http doc same
      cases same
  asked := by
    intro known trace store i http op choice holds here allowed guard listed
    have current := holds listed
    have elsewhere : (∀ cmd, op ≠ .meetings cmd) →
        Current requests ((i, .asked op (execute pkg op choice store).1) :: trace) store.meetings.docs := by
      intro other
      apply current_other requests trace _ current i
      · intro job found same
        exact other _ (Note.asked.inj same).1
      · intro job doc same
        exact other _ (Note.asked.inj same).1
    cases op with
    | users | auths => exact elsewhere fun _ => by simp
    | compare =>
        have same := elsewhere fun _ => by simp
        cases choice <;> exact same
    | meetings cmd =>
        obtain ⟨after, rfl⟩ := listed
        have stable := stable http (List.mem_append_left _ (List.mem_of_getElem? here))
        exact current_asked pkg strings updates _ trace store current i http stable cmd allowed guard choice

end Rule

theorem undisturbed_cancellations_name_removed_meeting (pkg : Packages) (strings : StringQueries pkg)
    (updates : UpdatesBy (meetingCast pkg) pkg.meetingChange) (store : Store) (cell : Body) (labels : List (Label (server pkg)))
    (world : World (server pkg)) (reached : world = run labels (World.initial (server pkg) store cell))
    (stable : ∀ http ∈ jobs world, Stable http)
    (guarded : AllGuarded (undisturbed pkg (jobs world)) labels (World.initial (server pkg) store cell)) (i : Nat) (mail : Mail)
    (newer older : Trace sig) (sent : world.trace = newer ++ (i, .said (.mail mail)) :: older)
    (canceled : mail.subject = "Meeting Canceled") :
    ∃ http doc rest, (jobs world)[i]? = some http ∧ view i older = meetingRemoval http doc :: rest ∧
    mail = DeleteMeeting.mail pkg doc.row := by
  have current : Current (jobs world) world.trace world.store.meetings.docs := by
    have runs := (current_rule pkg strings updates (jobs world) stable).guarded_runs (app_writing pkg) labels _
      (initial_tracked (m := server pkg) (writing pkg) store cell) guarded
    rw [← reached] at runs
    apply runs _ (List.prefix_refl _)
    intro _
    refine ⟨?_, ?_, ?_⟩
    · rintro j http found ⟨_, _, rest, shape⟩
      cases shape
    · rintro j http found ⟨_, _, rest, shape⟩
      cases shape
    · intro j http found doc newer rest _ _ shape
      simp [World.initial] at shape
  have lawful := run_lawful (m := server pkg) (notifying pkg) (app_notifying pkg) labels store cell
  rw [← reached] at lawful
  obtain ⟨http, here, notice⟩ := lawful newer i _ older sent
  obtain ⟨route, found, doc, rest, shape, rfl⟩ := canceled_notice pkg http _ mail notice canceled
  refine ⟨http, doc, _, here, shape, ?_⟩
  apply mail_quotes
  apply current.removed i http found doc (view i newer ++ [.said (.mail (DeleteMeeting.mail pkg found.row))]) rest here route
  rw [sent, view_append, view_cons_own, shape]
  simp

def sparesQuoted (world : World (server Reference.packages)) (_ : Nat) : Op → Bool
  | .meetings (.update _ _ change) => world.store.meetings.docs.all fun doc => quoted.all fun path =>
    doc.row path == change.on doc.row path
  | _ => true

theorem spares_undisturbed (requests : List HttpRequest) (world : World (server Reference.packages)) (i : Nat) (op : Op)
    (spared : sparesQuoted world i op = true) : undisturbed Reference.packages requests world.trace world.store i op := by
  rintro j http found change _ rfl doc member _ path listed
  exact eq_of_beq (List.all_eq_true.mp (List.all_eq_true.mp spared doc member) path listed)

def Reference.invitation : Doc MeetingField where
  id := 0
  row := fun
    | .meetingId => some (.str "id")
    | .participantEmail => some (.str "a@b.co")
    | .meetingDescription | .meetingStartDate | .meetingEndDate | .createdOn => none
    | _ => some (.str "old")

def Reference.invited : Store :=
  { Reference.oneOfEach with meetings := ⟨[Reference.invitation], 1, by simp [Reference.invitation], by simp, by simp⟩ }

-- The update falls between the lookup and the removal of the deletion.
def Reference.deletedDuring (body : Js.Value) : List (Label (server Reference.packages)) :=
  .start (Reference.meetingRequest ["id", "deleteMeeting"] .post .undefined) (Reference.ambient 6000) ::
    .start (Reference.meetingRequest ["id", "updateMeeting"] .put body) (Reference.ambient 6000) ::
    Reference.turns 0 3 6000 ++ Reference.turns 1 5 6000 ++ Reference.turns 0 2 6000

def canceledTo : Note sig → Option (Option Scalar)
  | .said (.mail mail) => if mail.subject = "Meeting Canceled" then some mail.email else none
  | _ => none

theorem canceled_to_mail (note : Note sig) (canceled : (canceledTo note).isSome = true) :
    ∃ mail, note = .said (.mail mail) ∧ mail.subject = "Meeting Canceled" := by
  cases note with
  | asked op ans => cases canceled
  | said out =>
      cases out with
      | send | authorised => cases canceled
      | mail mail =>
          refine ⟨mail, rfl, ?_⟩
          simpa [canceledTo] using canceled

def removedWith : Note sig → Option (Option Scalar)
  | .asked (.meetings (.findOneAndRemove _ _)) (.ok (some doc)) => some (doc.row .participantEmail)
  | _ => none

-- An update of the venue does no harm.
def Reference.movedDuring : World (server Reference.packages) :=
  run (Reference.deletedDuring Reference.placeBody) (World.initial (server Reference.packages) Reference.invited (.thrown ""))

theorem reference_cancellation_names_removed :
    ∃ http doc, (0, meetingRemoval http doc) ∈ Reference.movedDuring.trace ∧
      (0, .said (.mail (DeleteMeeting.mail Reference.packages doc.row))) ∈ Reference.movedDuring.trace := by
  have facts : (Reference.movedDuring.trace.any fun entry => entry.1 == 0 && (canceledTo entry.2).isSome) = true ∧
      allPass sparesQuoted (Reference.deletedDuring Reference.placeBody)
        (World.initial (server Reference.packages) Reference.invited (.thrown "")) = true := by decide +kernel
  obtain ⟨passed, spared⟩ := facts
  obtain ⟨⟨j, note⟩, member, named⟩ := List.any_eq_true.mp passed
  obtain ⟨own, isCanceled⟩ := Bool.and_eq_true_iff.mp named
  obtain rfl : j = 0 := by simpa using own
  obtain ⟨mail, rfl, canceled⟩ := canceled_to_mail note isCanceled
  obtain ⟨newer, older, split⟩ := List.append_of_mem member
  have stable : ∀ http ∈ jobs Reference.movedDuring, Stable http := by
    rw [Reference.movedDuring, run_jobs]
    intro http inside
    rcases List.mem_cons.mp inside with rfl | inside
    · exact ⟨by decide, fun route => absurd route (by decide)⟩
    · rw [List.mem_singleton.mp inside]
      exact ⟨by decide, fun _ => ⟨⟨_, rfl, by decide⟩, by decide⟩⟩
  obtain ⟨http, doc, rest, _, shape, rfl⟩ :=
    undisturbed_cancellations_name_removed_meeting Reference.packages reference_string_queries
    reference_meeting_updates Reference.invited (.thrown "") (Reference.deletedDuring Reference.placeBody)
    Reference.movedDuring rfl stable
    (all_pass_guarded (writing Reference.packages) (app_writing Reference.packages) _ sparesQuoted
      (fun world i op _ => spares_undisturbed _ world i op) _ _ (initial_tracked _ _ _) spared) 0 mail newer older split canceled
  refine ⟨http, doc, ?_, member⟩
  have removal : meetingRemoval http doc ∈ view 0 older := by simp [shape]
  rw [split]
  exact List.mem_append_right _ (List.mem_cons_of_mem _ ((mem_view 0 _ older).mp removal))

theorem update_before_removal_misleads_email :
    let world := run (Reference.deletedDuring (.obj [("participantEmail", .str "c@d.co")]))
      (World.initial (server Reference.packages) Reference.invited (.thrown ""))
    (view 0 world.trace).filterMap canceledTo = [some (.str "a@b.co")] ∧
      (view 0 world.trace).filterMap removedWith = [some (.str "c@d.co")] := by
  decide +kernel

end Planner
