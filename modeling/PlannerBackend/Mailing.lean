import PlannerBackend.Ledger
import PlannerBackend.SessionMap
import PlannerBackend.Writes

set_option autoImplicit false

namespace Planner

open Docs Resume

def meetingLookup (http : HttpRequest) (found : Doc MeetingField) : Note sig :=
  .asked (.meetings (.findOne .meetingId ((requestOf http).param "meetingId"))) (.ok (some found))

def meetingRemoval (http : HttpRequest) (doc : Doc MeetingField) : Note sig :=
  .asked (.meetings (.findOneAndRemove .meetingId ((requestOf http).param "meetingId"))) (.ok (some doc))

-- An email is queued right after the write it tells of, and printed from what
-- its request has read before.
inductive Notice (pkg : Packages) (http : HttpRequest) : History sig → Mail → Prop where
  | recovered (doc : Doc UserField) (password salt : String) (reply : UpdateReply) (rest : History sig)
      (route : endpointOf http = some .recoverForgotPassword) :
      Notice pkg http
        (.asked (.users (.update .email ((requestOf http).param "email") (.apply (overlay (recoveredRow pkg doc password salt)))))
          (.ok reply) :: .asked (.users (.findOne .email ((requestOf http).param "email"))) (.ok (some doc)) :: rest)
        (RecoverForgotPassword.mail pkg (requestOf http) (recoveredRow pkg doc password salt) password)
  | scheduled (row : Except String (Row MeetingField)) (doc : Doc MeetingField) (rest : History sig)
      (route : endpointOf http = some .addMeeting) :
      Notice pkg http (.asked (.meetings (.insert row)) (.ok doc) :: rest) (AddMeeting.mail pkg doc.row)
  | updated (found : Doc MeetingField) (mail : Mail) (reply : UpdateReply) (rest : History sig)
      (route : endpointOf http = some .updateMeeting) (printed : UpdateMeeting.mail pkg found.row http.body = .ok mail) :
      Notice pkg http (acknowledged pkg http reply :: meetingLookup http found :: rest) mail
  | canceled (found doc : Doc MeetingField) (rest : History sig) (route : endpointOf http = some .deleteMeeting) :
      Notice pkg http (meetingRemoval http doc :: meetingLookup http found :: rest) (DeleteMeeting.mail pkg found.row)

def mayNotify (pkg : Packages) (http : HttpRequest) (h : History sig) : Out → Prop
  | .mail mail => Notice pkg http h mail
  | _ => True

def notifying (pkg : Packages) (http : HttpRequest) : Spec sig where
  asks := fun _ _ => True
  tells := mayNotify pkg http
  ends := fun _ => True
  breaks := fun _ => True

theorem app_notifying (pkg : Packages) (http : HttpRequest) : Meets (notifying pkg http) (app pkg http) none [] := by
  apply meets_mono (script pkg http) _ (fun _ _ _ => trivial) _ (fun _ _ => trivial)
    (fun _ _ => trivial) _ none [] (app_script pkg http)
  intro h out tells
  cases tells with
  | authorised | answered => trivial
  | recovered doc password salt reply route => exact .recovered doc password salt reply [] route
  | scheduled _ h row doc route => exact .scheduled row doc h route
  | updated _ h found reply mail route _ printed => exact .updated found mail reply h route printed
  | canceled _ h found doc route => exact .canceled found doc h route

-- Only a deletion sends this subject.
theorem canceled_notice (pkg : Packages) (http : HttpRequest) (h : History sig) (mail : Mail) (notice : Notice pkg http h mail)
    (canceled : mail.subject = "Meeting Canceled") :
    endpointOf http = some .deleteMeeting ∧ ∃ found doc rest, h = meetingRemoval http doc :: meetingLookup http found :: rest ∧
      mail = DeleteMeeting.mail pkg found.row := by
  cases notice with
  | recovered | scheduled => exact absurd canceled (by simp [RecoverForgotPassword.mail, AddMeeting.mail])
  | updated found _ reply rest route printed => exact absurd canceled (by simp [update_mail_subject pkg _ _ mail printed])
  | canceled found doc rest route => exact ⟨route, found, doc, rest, rfl, rfl⟩

theorem always_named : ∀ route ∈ routes, route.endpoint = .deleteMeeting ∨ route.endpoint = .updateMeeting →
    .param "meetingId" ∈ route.path := by
  decide

theorem meeting_named (http : HttpRequest)
    (route : endpointOf http = some .deleteMeeting ∨ endpointOf http = some .updateMeeting) :
    ∃ name, (requestOf http).param "meetingId" = .str name := by
  rcases route with route | route
  · exact param_given http _ route _ fun other member same => always_named other member (.inl same)
  · exact param_given http _ route _ fun other member same => always_named other member (.inr same)

theorem selected_named (pkg : Packages) (strings : StringQueries pkg) (name : String) (condition : Condition)
    (seen : pkg.castQuery (.str name) = .ok condition) (stored : Option Scalar) (holds : condition stored = true) :
    stored = some (.str name) := by
  obtain ⟨other, same, means⟩ := strings name
  cases seen.symm.trans same
  exact (means stored).mp holds

def mailsIn (notes : History sig) : List Mail :=
  notes.filterMap fun
    | .said (.mail mail) => some mail
    | _ => none

-- A request that was served alone and has sent an email has gone through.
theorem mailed_effect (pkg : Packages) (visit : Visit (server pkg)) (cell : Body) (store : Store) (mail : Mail)
    (sent : .said (.mail mail) ∈ (visit.serve cell store).notes) :
    ∃ status response past, (visit.serve cell store).notes = .said (.send status (.api response)) :: past ∧
      .said (.mail mail) ∈ past ∧ Effect pkg visit.job past response := by
  have outcome := (visit_contract pkg visit cell store).2
  generalize (visit.serve cell store).notes = notes at sent outcome
  have quiet : ∀ h, Clean h → .said (.mail mail) ∉ h := by
    intro h clean member
    cases (clean _ member).2.1
  split at outcome
  · cases outcome with
    | hashing rest _ _ clean => exact absurd (by simpa using sent) (quiet rest clean)
    | printing found thrown reply rest _ _ clean => exact absurd (by simpa using sent) (quiet rest clean)
  · obtain ⟨status, body, past, rfl, reply⟩ := outcome
    have before : .said (.mail mail) ∈ past := by simpa using sent
    cases reply with
    | refused response bad clean => exact absurd before (quiet past clean)
    | nobody _ clean => exact absurd before (quiet past clean)
    | done response effect => exact ⟨status, response, past, rfl, before, effect⟩

end Planner
