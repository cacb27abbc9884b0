import PlannerBackend.Commuting
import PlannerBackend.Mailing

set_option autoImplicit false

namespace Planner

open Docs Resume

-- What the template of an update takes from the body.
structure Printed where
  topic : String
  description : String
  startDate : String
  venue : String

def UpdateMeeting.printed (options : Js.Value) : Except Js.Thrown Printed := do
  let topic ← Js.toText (options.get "topic")
  let meetingDescription ← Js.toText (options.get "meetingDescription")
  let meetingStartDate ← Js.toText (options.get "meetingStartDate")
  let meetingPlace ← Js.toText (options.get "meetingPlace")
  return ⟨topic, meetingDescription, meetingStartDate, meetingPlace⟩

def UpdateMeeting.filled (pkg : Packages) (meetingDetails : Row MeetingField) (printed : Printed) : Mail where
  email := meetingDetails .participantEmail
  subject := "Meeting Updated"
  html := html (scalarText pkg (meetingDetails .participantName)) (scalarText pkg (meetingDetails .hostName))
    (scalarText pkg (meetingDetails .topic)) printed.topic printed.description printed.startDate printed.venue

theorem mail_filled (pkg : Packages) (row : Row MeetingField) (body : Js.Value) :
    UpdateMeeting.mail pkg row body = (UpdateMeeting.printed body).map (UpdateMeeting.filled pkg row) := by
  unfold UpdateMeeting.mail UpdateMeeting.printed
  cases Js.toText (body.get "topic") <;> cases Js.toText (body.get "meetingDescription") <;>
    cases Js.toText (body.get "meetingStartDate") <;> cases Js.toText (body.get "meetingPlace") <;> rfl

-- Mongoose stores a string as it is.
def CastsStrings (pkg : Packages) : Prop := ∀ s, pkg.castString (.str s) = .ok (.str s)

def isDate : MeetingField → Bool
  | .meetingStartDate => true
  | .meetingEndDate => true
  | .createdOn => true
  | _ => false

-- Some of the schema's fields, without meetingId, with values of their types.
structure ValidUpdate (pkg : Packages) (body : Js.Value) : Prop where
  plain : Plain body
  unnamed : ¬ Names body MeetingField.meetingId
  texts : ∀ path : MeetingField, isDate path = false → Names body path → ∃ s, body.get (Paths.label path) = .str s
  dates : ∀ path : MeetingField, isDate path = true → Names body path →
    ∃ scalar, pkg.castDate (body.get (Paths.label path)) = .ok scalar

-- The email is about the meeting as it is stored. The start date may stand
-- there as the body writes it, in any notation of the date that is stored.
structure Shows (pkg : Packages) (body : Js.Value) (mail : Mail) (printed : Printed) (stored : Row MeetingField) : Prop where
  topic : printed.topic = scalarText pkg (stored .topic)
  description : printed.description = scalarText pkg (stored .meetingDescription)
  startDate : printed.startDate = scalarText pkg (stored .meetingStartDate) ∨ Names body MeetingField.meetingStartDate ∧
    Js.toText (body.get "meetingStartDate") = .ok printed.startDate ∧
    ∃ scalar, pkg.castDate (body.get "meetingStartDate") = .ok scalar ∧ stored .meetingStartDate = some scalar
  venue : printed.venue = scalarText pkg (stored .meetingPlace)
  addressed : mail.email = stored .participantEmail

-- The body names what the email prints from it, and leaves the address alone.
structure Repeats (pkg : Packages) (body : Js.Value) (found : Row MeetingField) : Prop where
  entries : ∀ path ∈ [MeetingField.topic, .meetingDescription, .meetingStartDate, .meetingPlace],
    Names body path ∨ scalarText pkg (found path) = "undefined"
  address : ∀ s, body.get "participantEmail" = .str s → found .participantEmail = some (.str s)

section Entries

variable (pkg : Packages) (casts : CastsStrings pkg) (body : Js.Value) (valid : ValidUpdate pkg body) (found : Row MeetingField)

theorem unnamed_undefined (path : MeetingField) (unnamed : ¬ Names body path) : body.get (Paths.label path) = .undefined := by
  cases value : body.get (Paths.label path) <;> simp [Names, value, Js.isUndefined] at unnamed
  rfl

theorem unnamed_found (path : MeetingField) (unnamed : ¬ Names body path) :
    overlay (valuesOf (meetingCast pkg) body) found path = found path := by
  simp [overlay, unnamed_unset (meetingCast pkg) body path unnamed]

include casts valid

theorem named_text (path : MeetingField) (isText : isDate path = false) (named : Names body path) :
    ∃ s, body.get (Paths.label path) = .str s ∧ overlay (valuesOf (meetingCast pkg) body) found path = some (.str s) := by
  obtain ⟨s, value⟩ := valid.texts path isText named
  refine ⟨s, value, ?_⟩
  have cast : meetingCast pkg path = pkg.castString := by cases path <;> first | rfl | cases isText
  simp [overlay, valuesOf, value, Js.isUndefined, cast, casts s, Except.toOption]

theorem text_shown_iff (path : MeetingField) (isText : isDate path = false) (printed : String)
    (shown : Js.toText (body.get (Paths.label path)) = .ok printed) :
    printed = scalarText pkg (overlay (valuesOf (meetingCast pkg) body) found path) ↔
      Names body path ∨ scalarText pkg (found path) = "undefined" := by
  by_cases named : Names body path
  · obtain ⟨s, value, stored⟩ := named_text pkg casts body valid found path isText named
    rw [value] at shown
    cases shown
    simp [stored, scalarText, named]
  · rw [unnamed_undefined body path named] at shown
    cases shown
    rw [unnamed_found pkg body found path named]
    simp [named, eq_comm]

omit casts in
theorem date_shown_iff (printed : String) (shown : Js.toText (body.get "meetingStartDate") = .ok printed) :
    (printed = scalarText pkg (overlay (valuesOf (meetingCast pkg) body) found .meetingStartDate) ∨
      Names body MeetingField.meetingStartDate ∧
      Js.toText (body.get "meetingStartDate") = .ok printed ∧ ∃ scalar, pkg.castDate (body.get "meetingStartDate") = .ok scalar ∧
        overlay (valuesOf (meetingCast pkg) body) found .meetingStartDate = some scalar) ↔
      Names body MeetingField.meetingStartDate ∨ scalarText pkg (found .meetingStartDate) = "undefined" := by
  by_cases named : Names body MeetingField.meetingStartDate
  · obtain ⟨scalar, cast⟩ := valid.dates .meetingStartDate rfl named
    have stored : overlay (valuesOf (meetingCast pkg) body) found .meetingStartDate = some scalar := by
      have given : Js.isUndefined (body.get (Paths.label MeetingField.meetingStartDate)) = false := named
      simp [overlay, valuesOf, given, meetingCast, cast, Except.toOption]
    exact ⟨fun _ => .inl named, fun _ => .inr ⟨named, shown, scalar, cast, stored⟩⟩
  · rw [show body.get "meetingStartDate" = .undefined from unnamed_undefined body .meetingStartDate named] at shown
    cases shown
    rw [unnamed_found pkg body found .meetingStartDate named]
    simp [named, eq_comm]

theorem address_kept_iff :
    found .participantEmail = overlay (valuesOf (meetingCast pkg) body) found .participantEmail ↔
      ∀ s, body.get "participantEmail" = .str s → found .participantEmail = some (.str s) := by
  by_cases named : Names body MeetingField.participantEmail
  · obtain ⟨s, value, stored⟩ := named_text pkg casts body valid found .participantEmail rfl named
    rw [stored]
    constructor
    · intro same other given
      cases value.symm.trans given
      exact same
    · intro kept
      exact kept s value
  · rw [unnamed_found pkg body found .participantEmail named]
    refine ⟨fun _ s given => ?_, fun _ => rfl⟩
    have missing : body.get "participantEmail" = .undefined := unnamed_undefined body .participantEmail named
    cases missing.symm.trans given

theorem shows_iff_repeats (printed : Printed) (shown : UpdateMeeting.printed body = .ok printed) :
    Shows pkg body (UpdateMeeting.filled pkg found printed) printed (overlay (valuesOf (meetingCast pkg) body) found) ↔
      Repeats pkg body found := by
  unfold UpdateMeeting.printed at shown
  obtain ⟨topic, topicText, shown⟩ := bind_ok _ _ _ shown
  obtain ⟨description, descriptionText, shown⟩ := bind_ok _ _ _ shown
  obtain ⟨startDate, startDateText, shown⟩ := bind_ok _ _ _ shown
  obtain ⟨venue, venueText, shown⟩ := bind_ok _ _ _ shown
  cases shown
  have topics := text_shown_iff pkg casts body valid found .topic rfl topic topicText
  have descriptions := text_shown_iff pkg casts body valid found .meetingDescription rfl description descriptionText
  have dates := date_shown_iff pkg body valid found startDate startDateText
  have venues := text_shown_iff pkg casts body valid found .meetingPlace rfl venue venueText
  have address := address_kept_iff pkg casts body valid found
  constructor
  · intro shows
    refine ⟨?_, address.mp shows.addressed⟩
    intro path listed
    simp only [List.mem_cons, List.not_mem_nil, or_false] at listed
    rcases listed with rfl | rfl | rfl | rfl
    · exact topics.mp shows.topic
    · exact descriptions.mp shows.description
    · exact dates.mp shows.startDate
    · exact venues.mp shows.venue
  · intro repeats
    exact ⟨topics.mpr (repeats.entries _ (by simp)), descriptions.mpr (repeats.entries _ (by simp)),
      dates.mpr (repeats.entries _ (by simp)), venues.mpr (repeats.entries _ (by simp)), address.mpr repeats.address⟩

end Entries

-- With the store to itself, the request reads the meeting and overwrites it.
theorem mailed_update (pkg : Packages) (strings : StringQueries pkg) (updates : UpdatesBy (meetingCast pkg) pkg.meetingChange)
    (visit : Visit (server pkg)) (cell : Body) (store : Store) (route : endpointOf visit.job = some .updateMeeting)
    (plain : Plain visit.job.body) (mail : Mail) (sent : .said (.mail mail) ∈ (visit.serve cell store).notes) :
    ∃ found ∈ store.meetings.docs, UpdateMeeting.mail pkg found.row visit.job.body = .ok mail ∧
      (visit.serve cell store).store.meetings.docs =
        rewritten store.meetings.docs found.id (overlay (valuesOf (meetingCast pkg) visit.job.body) found.row) := by
  obtain ⟨status, response, past, shape, before, effect⟩ := mailed_effect pkg visit cell store mail sent
  have chain := (visit_contract pkg visit cell store).1
  rw [shape] at chain
  generalize (visit.serve cell store).store = after at chain
  obtain ⟨name, named⟩ := meeting_named visit.job (.inr route)
  obtain ⟨condition, seen, means⟩ := strings name
  cases effect with
  | meetingUpdated found printed reply rest _ clean print =>
      have same : mail = printed := by
        have quiet : .said (.mail mail) ∉ rest := fun member => by cases (clean _ member).2.1
        simpa [quiet] using before
      subst same
      generalize (requestOf visit.job).param "meetingId" = value at named chain
      subst named
      have written := chain_said store after _ _ (chain_said store after _ _ chain)
      obtain ⟨middle, choice, earlier, answer, rfl⟩ := chain_asked store after _ _ _ written
      obtain ⟨start, looks, first, read, rfl⟩ := chain_asked store middle _ _ rest earlier
      cases chain_clean pkg store start rest first clean
      have kept : ((server pkg).exec (.meetings (.findOne .meetingId (.str name))) looks store).2 = store :=
        execute_idle pkg _ looks store rfl
      rw [kept] at answer ⊢
      obtain ⟨member, other, alsoSeen, holds⟩ := find_one_found pkg.castQuery store.meetings _ _ looks found read
      cases seen.symm.trans alsoSeen
      have done := exec_executed pkg.castQuery
        (.update .meetingId (.str name) (pkg.meetingChange visit.job.body)) choice store.meetings
      rw [show (exec pkg.castQuery (.update .meetingId (.str name) (pkg.meetingChange visit.job.body)) choice store.meetings).1 =
        .ok reply from answer] at done
      have stored := update_rewrites pkg.castQuery .meetingId store.meetings _ store.meetings.docs found found.row name
        (rewritten_self store.meetings found member).symm member ((means _).mp holds) condition seen means _ _ done
      have accepted := executed_accepted _ _ _ _ _ done _ rfl
      refine ⟨found, member, print, stored.trans ?_⟩
      exact congrArg (rewritten store.meetings.docs found.id)
        (accepted_overlays (meetingCast pkg) visit.job.body _ (updates visit.job.body plain) accepted found.row)
  | shown endpoint _ _ _ other reading _ =>
      cases route.symm.trans other
      cases reading
  | _ => cases route.symm.trans ‹endpointOf visit.job = some _›

theorem update_email_shows_stored_iff (pkg : Packages) (strings : StringQueries pkg) (casts : CastsStrings pkg)
    (updates : UpdatesBy (meetingCast pkg) pkg.meetingChange) (visit : Visit (server pkg)) (cell : Body) (store : Store)
    (route : endpointOf visit.job = some .updateMeeting) (valid : ValidUpdate pkg visit.job.body) (mail : Mail)
    (sent : .said (.mail mail) ∈ (visit.serve cell store).notes) :
    ∃ found printed stored, found ∈ store.meetings.docs ∧ UpdateMeeting.printed visit.job.body = .ok printed ∧
      mail = UpdateMeeting.filled pkg found.row printed ∧
      (visit.serve cell store).store.meetings.docs = rewritten store.meetings.docs found.id stored ∧
      (Shows pkg visit.job.body mail printed stored ↔ Repeats pkg visit.job.body found.row) := by
  obtain ⟨found, member, printing, docs⟩ := mailed_update pkg strings updates visit cell store route valid.plain mail sent
  rw [mail_filled] at printing
  cases shown : UpdateMeeting.printed visit.job.body with
  | error thrown =>
      rw [shown] at printing
      cases printing
  | ok printed =>
      rw [shown] at printing
      cases printing
      exact ⟨found, printed, _, member, rfl, rfl, docs, shows_iff_repeats pkg casts visit.job.body valid found.row printed shown⟩

theorem reference_casts_strings : CastsStrings Reference.packages := fun _ => rfl

def Reference.updateVisit (body : Js.Value) : Visit (server Reference.packages) where
  job := Reference.meetingRequest ["id", "updateMeeting"] .put body
  choices := fun _ => .pick 0
  env := Reference.ambient 6000

def Reference.updateAlone (body : Js.Value) : Finished (server Reference.packages) :=
  (Reference.updateVisit body).serve (.thrown "") Reference.oneOfEach

def Reference.fullBody : Js.Value :=
  .obj [("topic", .str "new"), ("meetingDescription", .str "new"), ("meetingStartDate", .num "5"), ("meetingPlace", .str "new")]

theorem reference_full_body_valid : ValidUpdate Reference.packages Reference.fullBody where
  plain := ⟨_, rfl, by decide⟩
  unnamed := by decide
  texts := by
    intro path isText named
    cases path <;> first | exact ⟨_, rfl⟩ | exact absurd named (by decide) | cases isText
  dates := by
    intro path isDated named
    cases path <;> first | exact ⟨_, rfl⟩ | exact absurd named (by decide) | cases isDated

theorem mails_in_said (notes : History sig) (mail : Mail) (member : mail ∈ mailsIn notes) : .said (.mail mail) ∈ notes := by
  obtain ⟨note, inside, seen⟩ := List.mem_filterMap.mp member
  cases note with
  | asked => cases seen
  | said out =>
      cases out with
      | send | authorised => cases seen
      | mail sent =>
          cases seen
          exact inside

theorem reference_email_shows_stored :
    ∃ mail printed stored, .said (.mail mail) ∈ (Reference.updateAlone Reference.fullBody).notes ∧
      (Reference.updateAlone Reference.fullBody).store.meetings.docs = rewritten [Reference.meeting] 0 stored ∧
      Shows Reference.packages Reference.fullBody mail printed stored := by
  have mailed : (mailsIn (Reference.updateAlone Reference.fullBody).notes).head?.isSome = true := by decide +kernel
  obtain ⟨mail, first⟩ := Option.isSome_iff_exists.mp mailed
  have sent := mails_in_said _ mail (List.mem_of_mem_head? first)
  obtain ⟨found, printed, stored, member, _, _, docs, shows⟩ :=
    update_email_shows_stored_iff Reference.packages reference_string_queries
    reference_casts_strings reference_meeting_updates (Reference.updateVisit Reference.fullBody)
    (.thrown "") Reference.oneOfEach rfl reference_full_body_valid mail sent
  cases List.mem_singleton.mp member
  refine ⟨mail, printed, stored, sent, docs, shows.mpr ⟨?_, ?_⟩⟩
  · intro path listed
    left
    revert path
    decide
  · intro s given
    cases given

-- The body leaves the venue out: the email calls it undefined.
theorem omitted_venue_blanks_email :
    (mailsIn (Reference.updateAlone Reference.topicBody).notes).map Mail.html =
      [UpdateMeeting.html "undefined" "undefined" "old" "new" "undefined" "undefined" "undefined"] ∧
    (Reference.updateAlone Reference.topicBody).store.meetings.docs.map (fun meeting => meeting.row .meetingPlace) =
    [some (.str "old")] := by
  refine ⟨rfl, ?_⟩
  decide +kernel

end Planner
