import PlannerBackend.Rules

set_option autoImplicit false

namespace Planner

open Docs Resume

section Stages

variable (spec : Spec sig) (pkg : Packages) (req : Request) (known : Option Body) (past : History sig)

def Complete : Prop := (AddMeeting.demanded.all fun name => Js.truthy (req.body.get name)) = true

theorem add_validate_rule (resolve : Unit → Process) (reject : Body → Process)
    (ok : Complete req → Meets spec (resolve ()) known past)
    (bad : ∀ h response, Quiet past h → Refused response → ∀ known, Meets spec (reject (.api response)) known h) :
    Meets spec (AddMeeting.validateUserInput req resolve reject) known past := by
  unfold AddMeeting.validateUserInput
  by_cases given : (AddMeeting.demanded.all fun name => Js.truthy (req.body.get name)) = true
  · rw [if_pos given]
    exact ok given
  · rw [if_neg given]
    exact bad past _ .here (refused_generate _ 400 rfl) known

theorem add_meeting_rule (resolve : Row MeetingField → Process) (reject : Body → Process)
    (ask : ∀ id createdOn, spec.asks past (.meetings (.insert (AddMeeting.newMeeting pkg req id createdOn))))
    (bad : ∀ h response, Quiet past h → Refused response → ∀ known, Meets spec (reject (.api response)) known h)
    (done : ∀ row doc, Meets spec (.emit (.mail (AddMeeting.mail pkg doc.row)) (resolve doc.row)) none
      (.asked (.meetings (.insert row)) (.ok doc) :: past)) :
    Meets spec (AddMeeting.addMeetingAfterValidation pkg req resolve reject) known past := by
  intro id at_
  refine ⟨ask id.shortid (timeNow at_), ?_⟩
  intro ans
  cases ans with
  | error message => exact bad _ _ (.asked _ _ _ .here rfl) (refused_generate _ 500 rfl) none
  | ok doc => exact done _ doc

theorem find_meeting_rule (resolve : Doc MeetingField → Process) (reject : Body → Process)
    (look : spec.asks past (.meetings (.findOne .meetingId (req.param "meetingId"))))
    (bad : ∀ h response, Quiet past h → Refused response → ∀ known, Meets spec (reject (.api response)) known h)
    (found : ∀ doc, Meets spec (resolve doc) none
      (.asked (.meetings (.findOne .meetingId (req.param "meetingId"))) (.ok (some doc)) :: past)) :
    Meets spec (findMeetingDetails req resolve reject) known past := by
  refine ⟨look, ?_⟩
  intro ans
  cases ans with
  | error message => exact bad _ _ (.asked _ _ _ .here rfl) (refused_generate _ 500 rfl) none
  | ok result =>
      apply meets_when_found spec none _ result _ _ _ (fun doc => is_empty_lean doc.row)
      · intro absent
        subst absent
        exact bad _ _ (.asked _ _ _ .here rfl) (refused_generate _ 404 rfl) none
      · intro doc here
        subst here
        exact found doc

-- The acknowledged update can still fail to be answered: the email template
-- prints the raw body inside the callback.
theorem update_meeting_rule (meetingDetails : Doc MeetingField) (resolve : UpdateReply → Process) (reject : Body → Process)
    (ask : spec.asks past (.meetings (.update .meetingId (req.param "meetingId") (pkg.meetingChange req.body))))
    (bad : ∀ h response, Quiet past h → Refused response → ∀ known, Meets spec (reject (.api response)) known h)
    (escape : ∀ reply thrown, UpdateMeeting.mail pkg meetingDetails.row req.body = .error thrown → spec.breaks
      (.asked (.meetings (.update .meetingId (req.param "meetingId") (pkg.meetingChange req.body))) (.ok reply) :: past))
    (done : ∀ reply mail, UpdateMeeting.mail pkg meetingDetails.row req.body = .ok mail →
      Meets spec (.emit (.mail mail) (resolve reply)) none
        (.asked (.meetings (.update .meetingId (req.param "meetingId") (pkg.meetingChange req.body))) (.ok reply) :: past)) :
    Meets spec (UpdateMeeting.updateMeetingAfterFinding pkg req meetingDetails resolve reject) known past := by
  refine ⟨ask, ?_⟩
  intro ans
  cases ans with
  | error message => exact bad _ _ (.asked _ _ _ .here rfl) (refused_generate _ 500 rfl) none
  | ok reply =>
      dsimp only
      rw [when_found_some reply replyValue _ _ (is_empty_reply reply)]
      cases printed : UpdateMeeting.mail pkg meetingDetails.row req.body with
      | error thrown => exact escape reply thrown printed
      | ok mail => exact done reply mail printed

theorem delete_meeting_rule (meetingDetails : Doc MeetingField) (resolve : Response → Process) (reject : Body → Process)
    (ask : spec.asks past (.meetings (.findOneAndRemove .meetingId (req.param "meetingId"))))
    (bad : ∀ h response, Quiet past h → Refused response → ∀ known, Meets spec (reject (.api response)) known h)
    (done : ∀ doc, Meets spec (.emit (.mail (DeleteMeeting.mail pkg meetingDetails.row))
      (resolve (generate false "Deleted Meeting successfully" 200 (.meeting ⟨doc.id, hydrateMeeting doc.row⟩)))) none
      (.asked (.meetings (.findOneAndRemove .meetingId (req.param "meetingId"))) (.ok (some doc)) :: past)) :
    Meets spec (DeleteMeeting.deleteMeeting pkg req meetingDetails resolve reject) known past := by
  refine ⟨ask, ?_⟩
  intro ans
  cases ans with
  | error message => exact bad _ _ (.asked _ _ _ .here rfl) (refused_generate _ 500 rfl) none
  | ok result =>
      apply meets_when_found spec none _ result documentValue _ _ is_empty_document
      · intro absent
        subst absent
        exact bad _ _ (.asked _ _ _ .here rfl) (refused_generate _ 404 rfl) none
      · intro doc here
        subst here
        exact done doc

theorem validate_url_param_rule (resolve : Unit → Process) (reject : Body → Process)
    (ok : Meets spec (resolve ()) known past)
    (bad : ∀ h response, Quiet past h → Refused response → ∀ known, Meets spec (reject (.api response)) known h) :
    Meets spec (GetAllMeetingsOfUser.validateUrlParam req resolve reject) known past := by
  unfold GetAllMeetingsOfUser.validateUrlParam
  by_cases given : Js.truthy (req.param "userId") = true
  · rw [if_pos given]
    exact ok
  · rw [if_neg given]
    exact bad past _ .here (refused_generate _ 400 rfl) known

theorem find_meetings_rule (resolve : List (Doc MeetingField) → Process) (reject : Body → Process)
    (look : spec.asks past (.meetings (.find (some (.participantId, req.param "userId")))))
    (bad : ∀ h response, Quiet past h → Refused response → ∀ known, Meets spec (reject (.api response)) known h)
    (found : ∀ docs, Meets spec (resolve docs) none
      (.asked (.meetings (.find (some (.participantId, req.param "userId")))) (.ok docs) :: past)) :
    Meets spec (GetAllMeetingsOfUser.findMeetings req resolve reject) known past := by
  refine ⟨look, ?_⟩
  intro ans
  cases ans with
  | error message => exact bad _ _ (.asked _ _ _ .here rfl) (refused_generate _ 500 rfl) none
  | ok docs =>
      simp only [is_empty_rows]
      cases (docs.map Doc.row).isEmpty with
      | true => exact bad _ _ (.asked _ _ _ .here rfl) (refused_generate _ 404 rfl) none
      | false => exact found docs

theorem get_meeting_rule (ask : spec.asks past (.meetings (.findOne .meetingId (req.param "meetingId"))))
    (refuse : ∀ h response, Quiet past h → Refused response → ∀ known, Meets spec (send response) known h)
    (done : ∀ doc row, Meets spec (send (generate false "Meeting Found" 200 (.meetingDetails row))) none
      (.asked (.meetings (.findOne .meetingId (req.param "meetingId"))) (.ok (some doc)) :: past)) :
    Meets spec (getMeetingByMeetingId req) known past := by
  refine ⟨ask, ?_⟩
  intro ans
  cases ans with
  | error message => exact refuse _ _ (.asked _ _ _ .here rfl) (refused_generate _ 500 rfl) none
  | ok result =>
      apply meets_when_found spec none _ _ leanValue _ _ is_empty_lean
      · intro absent
        cases result with
        | none => exact refuse _ _ (.asked _ _ _ .here rfl) (refused_generate _ 404 rfl) none
        | some doc => cases absent
      · intro row here
        cases result with
        | none => cases here
        | some doc => exact done doc row

end Stages

-- The stages of each endpoint in a row: whatever stage rejects, the history
-- since the start holds no write.
section Chains

variable (spec : Spec sig) (pkg : Packages) (req : Request) (known : Option Body) (past : History sig) (reject : Body → Process)
  (bad : ∀ h response, Quiet past h → Refused response → ∀ known, Meets spec (reject (.api response)) known h)

include bad

theorem add_meeting_chain (resolve : Row MeetingField → Process)
    (ask : Complete req → ∀ id createdOn, spec.asks past (.meetings (.insert (AddMeeting.newMeeting pkg req id createdOn))))
    (done : ∀ row doc, Meets spec (.emit (.mail (AddMeeting.mail pkg doc.row)) (resolve doc.row)) none
      (.asked (.meetings (.insert row)) (.ok doc) :: past)) :
    Meets spec (Promise.andThen (AddMeeting.validateUserInput req)
      (fun _ => AddMeeting.addMeetingAfterValidation pkg req) resolve reject)
      known past := by
  apply add_validate_rule spec req known past _ reject _ bad
  intro complete
  exact add_meeting_rule spec pkg req none past resolve reject (ask complete) bad done

theorem update_meeting_chain (resolve : UpdateReply → Process)
    (look : spec.asks past (.meetings (.findOne .meetingId (req.param "meetingId"))))
    (ask : ∀ found, spec.asks (.asked (.meetings (.findOne .meetingId (req.param "meetingId"))) (.ok (some found)) :: past)
      (.meetings (.update .meetingId (req.param "meetingId") (pkg.meetingChange req.body))))
    (escape : ∀ found reply thrown, UpdateMeeting.mail pkg found.row req.body = .error thrown → spec.breaks
      (.asked (.meetings (.update .meetingId (req.param "meetingId") (pkg.meetingChange req.body))) (.ok reply) ::
        .asked (.meetings (.findOne .meetingId (req.param "meetingId"))) (.ok (some found)) :: past))
    (done : ∀ found reply mail, UpdateMeeting.mail pkg found.row req.body = .ok mail →
      Meets spec (.emit (.mail mail) (resolve reply)) none
        (.asked (.meetings (.update .meetingId (req.param "meetingId") (pkg.meetingChange req.body))) (.ok reply) ::
          .asked (.meetings (.findOne .meetingId (req.param "meetingId"))) (.ok (some found)) :: past)) :
    Meets spec (Promise.andThen (findMeetingDetails req) (UpdateMeeting.updateMeetingAfterFinding pkg req) resolve reject)
    known past := by
  apply find_meeting_rule spec req known past _ reject look bad
  intro found
  exact update_meeting_rule spec pkg req none _ found resolve reject (ask found) (bad_later spec past reject bad _ _ rfl)
    (escape found) (done found)

theorem delete_meeting_chain (resolve : Response → Process)
    (look : spec.asks past (.meetings (.findOne .meetingId (req.param "meetingId"))))
    (ask : ∀ found, spec.asks (.asked (.meetings (.findOne .meetingId (req.param "meetingId"))) (.ok (some found)) :: past)
      (.meetings (.findOneAndRemove .meetingId (req.param "meetingId"))))
    (done : ∀ (found doc : Doc MeetingField), Meets spec (.emit (.mail (DeleteMeeting.mail pkg found.row))
      (resolve (generate false "Deleted Meeting successfully" 200 (.meeting ⟨doc.id, hydrateMeeting doc.row⟩)))) none
      (.asked (.meetings (.findOneAndRemove .meetingId (req.param "meetingId"))) (.ok (some doc)) ::
        .asked (.meetings (.findOne .meetingId (req.param "meetingId"))) (.ok (some found)) :: past)) :
    Meets spec (Promise.andThen (findMeetingDetails req) (DeleteMeeting.deleteMeeting pkg req) resolve reject) known past := by
  apply find_meeting_rule spec req known past _ reject look bad
  intro found
  exact delete_meeting_rule spec pkg req none _ found resolve reject (ask found)
    (bad_later spec past reject bad _ _ rfl) (done found)

theorem get_meetings_chain (resolve : List (Doc MeetingField) → Process)
    (look : spec.asks past (.meetings (.find (some (.participantId, req.param "userId")))))
    (found : ∀ docs, Meets spec (resolve docs) none
      (.asked (.meetings (.find (some (.participantId, req.param "userId")))) (.ok docs) :: past)) :
    Meets spec (Promise.andThen (GetAllMeetingsOfUser.validateUrlParam req)
      (fun _ => GetAllMeetingsOfUser.findMeetings req) resolve reject)
      known past :=
  validate_url_param_rule spec req known past _ reject (find_meetings_rule spec req none past resolve reject look bad found) bad

end Chains

end Planner
