import PlannerBackend.Ledger
import PlannerBackend.Overwrite
import PlannerBackend.SignUps

set_option autoImplicit false

namespace Planner

open Docs Resume

def userCast (pkg : Packages) : UserField → Js.Value → Except String Scalar
  | .mobileNumber => pkg.castNumber
  | .createdOn => pkg.castDate
  | _ => pkg.castString

def meetingCast (pkg : Packages) : MeetingField → Js.Value → Except String Scalar
  | .meetingStartDate => pkg.castDate
  | .meetingEndDate => pkg.castDate
  | .createdOn => pkg.castDate
  | _ => pkg.castString

-- What sign-up establishes of a user's password and email.
def wellFormedAt (pkg : Packages) : UserField → Option Scalar → Prop
  | .password, stored => ∃ password salt hash, hashPassword pkg password salt = .ok hash ∧ stored = some (.str hash)
  | .email, stored => ∃ email, stored = some (.str email) ∧ toLowerCase email = email ∧ Email (.str email) = .ok true
  | _, _ => True

abbrev WellFormed (pkg : Packages) (row : Row UserField) : Prop := Fits (wellFormedAt pkg) row

-- A body of plain fields, with a password or an email only as sign-up stores them.
def FitProfile (pkg : Packages) (body : Js.Value) : Prop :=
  Plain body ∧ FitsWhereSet (wellFormedAt pkg) (valuesOf (userCast pkg) body)

def foundUser (path : UserField) (value : Js.Value) (user : Doc UserField) : Note sig :=
  .asked (.users (.findOne path value)) (.ok (some user))

theorem asked_found (pkg : Packages) (store : Store) (op : Op) (choice : Choice) (path : UserField) (value : Js.Value)
    (user : Doc UserField) (same : (.asked op (execute pkg op choice store).1 : Note sig) = foundUser path value user) :
    user ∈ store.users.docs ∧ ∃ condition, pkg.castQuery value = .ok condition ∧ condition (user.row path) = true := by
  injection same with sameOp sameAns
  subst sameOp
  exact find_one_found pkg.castQuery store.users path value choice user (eq_of_heq sameAns)

section Users

variable (pkg : Packages) (updates : UpdatesBy (userCast pkg) pkg.userChange)

theorem sign_up_well_formed (req : Request) (row : Row UserField) (made : SignUpRow pkg req (.ok row)) : WellFormed pkg row := by
  obtain ⟨email, password, id, salt, createdOn, _, _, accepted, saved⟩ := made
  obtain ⟨_, lowered, hashed⟩ := new_user_ok pkg req id _ _ createdOn row saved.symm
  intro path
  cases path with
  | password => exact ⟨.str password, salt, _, rfl, hashed⟩
  | email => exact ⟨_, lowered, lower_case_idempotent email, lower_case_accepted email accepted⟩
  | _ => trivial

theorem recovered_well_formed (doc : Doc UserField) (password salt : String) (fits : WellFormed pkg doc.row) (row : Row UserField)
    (before : WellFormed pkg row) : WellFormed pkg (overlay (recoveredRow pkg doc password salt) row) := by
  apply fits_overlay _ _ _ _ before
  intro path
  right
  cases path with
  | password => exact ⟨.str password, salt, _, rfl, rfl⟩
  | _ => exact fits _

include updates

theorem user_write_preserves (http : HttpRequest) (h : History sig) (cmd : Cmd UserField) (asks : Asks pkg http h (.users cmd))
    (fit : ∀ userId, .said (.authorised userId) ∈ h → endpointOf http = some .editUser → FitProfile pkg http.body)
    (reads : ∀ path value user, foundUser path value user ∈ h → WellFormed pkg user.row) : Preserves (WellFormed pkg) cmd := by
  cases asks with
  | account | listUsers | showUser | removeUser | recover => trivial
  | signUp row route made =>
      cases row with
      | error message => trivial
      | ok row => exact sign_up_well_formed pkg _ row made
  | editUser userId h route passed =>
      cases change : pkg.userChange http.body with
      | rejected | empty => trivial
      | apply effect =>
          intro row before
          obtain ⟨plain, set⟩ := fit userId (passed_told pkg http userId h passed) route
          rw [applied_values (userCast pkg) pkg.userChange updates http.body plain effect change]
          exact fits_overlay _ _ _ set before
  | reset doc password salt route =>
      exact recovered_well_formed pkg doc password salt (reads .email _ doc (List.mem_singleton_self _))

end Users

-- The requests to the endpoint that isAuthorized lets through have fit bodies.
def Vetted (fit : Js.Value → Prop) (endpoint : Endpoint) (known : List HttpRequest) (trace : Trace sig) : Prop :=
  ∀ i userId http, (i, .said (.authorised userId)) ∈ trace → known[i]? = some http →
    endpointOf http = some endpoint → fit http.body

section Vetting

variable {fit : Js.Value → Prop} {endpoint : Endpoint} {known : List HttpRequest} {trace : Trace sig}

theorem vetted_born (job : HttpRequest) (vetted : Vetted fit endpoint (known ++ [job]) trace) :
    Vetted fit endpoint known trace := by
  intro i userId http told here
  apply vetted i userId http told
  rw [List.getElem?_append_left (List.getElem?_eq_some_iff.mp here).1]
  exact here

theorem vetted_before (entry : Nat × Note sig) (vetted : Vetted fit endpoint known (entry :: trace)) :
    Vetted fit endpoint known trace :=
  fun i userId http told => vetted i userId http (List.mem_cons_of_mem _ told)

theorem vetted_own (vetted : Vetted fit endpoint known trace) (i : Nat) (http : HttpRequest) (here : known[i]? = some http)
    (userId : Option String) (told : .said (.authorised userId) ∈ view i trace)
    (route : endpointOf http = some endpoint) : fit http.body :=
  vetted i userId http ((mem_view i _ trace).mp told) here route

end Vetting

structure Sound (pkg : Packages) (trace : Trace sig) (store : Store) : Prop where
  stored : ∀ user ∈ store.users.docs, WellFormed pkg user.row
  reads : ∀ i path value user, (i, foundUser path value user) ∈ trace → WellFormed pkg user.row

theorem sound_rule (pkg : Packages) (updates : UpdatesBy (userCast pkg) pkg.userChange) :
    EventRule (m := server pkg) (script pkg) unguarded (fun known trace store =>
      Vetted (FitProfile pkg) .editUser known trace → Sound pkg trace store) where
  born := fun _ _ _ job holds vetted => holds (vetted_born job vetted)
  told := by
    intro known trace store i http out holds _ _ vetted
    obtain ⟨stored, reads⟩ := holds (vetted_before _ vetted)
    refine ⟨stored, fun j path value user member => ?_⟩
    rcases List.mem_cons.mp member with same | older
    · cases same
    · exact reads j path value user older
  asked := by
    intro known trace store i http op choice holds here asks _ vetted
    have before := vetted_before _ vetted
    obtain ⟨stored, reads⟩ := holds before
    constructor
    · cases op with
      | auths | meetings => exact stored
      | compare => cases choice <;> exact stored
      | users cmd =>
          apply executed_preserves _ _ _ _ cmd _ (exec_executed pkg.castQuery cmd choice store.users) _ stored
          apply user_write_preserves pkg updates http _ cmd asks (vetted_own before i http here)
          intro path value user member
          exact reads i path value user ((mem_view i _ trace).mp member)
    · intro j path value user member
      rcases List.mem_cons.mp member with same | older
      · exact stored user (asked_found pkg store op choice path value user (Prod.mk.inj same).2.symm).1
      · exact reads j path value user older

section Reference

variable {F : Type} [DecidableEq F] (cast : F → Except String Scalar)

def Reference.castAll (named : List F) : Except String (List (F × Scalar)) :=
  named.mapM fun path => (cast path).map fun scalar => (path, scalar)

theorem cast_all_lookup (named : List F) (sets : List (F × Scalar)) (done : Reference.castAll cast named = .ok sets) (path : F) :
    sets.lookup path = (if path ∈ named then (cast path).toOption else none) ∧
    (path ∈ named → ∃ scalar, cast path = .ok scalar) := by
  induction named generalizing sets with
  | nil =>
      cases done
      simp
  | cons first rest ih =>
      rw [Reference.castAll, List.mapM_cons] at done
      obtain ⟨pair, one, done⟩ := bind_ok _ _ _ done
      obtain ⟨others, more, done⟩ := bind_ok _ _ _ done
      cases done
      cases casted : cast first with
      | error message =>
          rw [casted] at one
          cases one
      | ok scalar =>
          rw [casted] at one
          cases one
          obtain ⟨same, fits⟩ := ih others more
          by_cases here : path = first
          · subst here
            simp [casted, Except.toOption]
          · have apart : (path == first) = false := by simpa using here
            simpa [List.lookup_cons, apart, here] using ⟨same, fits⟩

end Reference

theorem change_of_updates {F : Type} [Paths F] [DecidableEq F] (cast : F → Js.Value → Except String Scalar)
    (complete : ∀ path : F, path ∈ (Paths.all : List F)) : UpdatesBy cast (Reference.changeOf cast) := by
  intro body _
  have listed : ∀ path : F, path ∈
      (Paths.all : List F).filter (fun path => !Js.isUndefined (body.get (Paths.label path))) ↔ Names body path := by
    intro path
    simp [List.mem_filter, complete path, Names]
  unfold Reference.changeOf
  generalize (Paths.all : List F).filter (fun path => !Js.isUndefined (body.get (Paths.label path))) = named at listed
  cases named with
  | nil => exact .empty fun path names => by cases (listed path).mpr names
  | cons first rest =>
      cases done : Reference.castAll (fun path => cast path (body.get (Paths.label path))) (first :: rest) with
      | error message =>
          simp only [Reference.castAll] at done
          simp only [List.isEmpty_cons, done]
          exact .rejected message
      | ok sets =>
          have looked := cast_all_lookup (fun path => cast path (body.get (Paths.label path))) (first :: rest) sets done
          simp only [Reference.castAll] at done
          simp only [List.isEmpty_cons, done]
          have same : (fun path => sets.lookup path) = valuesOf cast body := by
            funext path
            rw [(looked path).1]
            by_cases names : Names body path
            · rw [if_pos ((listed path).mpr names), valuesOf, if_neg (by rw [show Js.isUndefined _ = false from names]; decide)]
            · rw [if_neg fun member => names ((listed path).mp member), valuesOf, if_pos (by simpa [Names] using names)]
          rw [same]
          exact .apply fun path names => (looked path).2 ((listed path).mpr names)

theorem reference_user_updates : UpdatesBy (userCast Reference.packages) Reference.packages.userChange := by
  have same : userCast Reference.packages = Reference.userCast := by
    funext path
    cases path <;> rfl
  rw [same]
  exact change_of_updates Reference.userCast fun path => by cases path <;> decide

theorem reference_meeting_updates : UpdatesBy (meetingCast Reference.packages) Reference.packages.meetingChange := by
  have same : meetingCast Reference.packages = Reference.meetingCast := by
    funext path
    cases path <;> rfl
  rw [same]
  exact change_of_updates Reference.meetingCast fun path => by cases path <;> decide

theorem fit_edits_keep_users_well_formed (pkg : Packages) (updates : UpdatesBy (userCast pkg) pkg.userChange) (store : Store)
    (empty : store.users.docs = []) (cell : Body) (labels : List (Label (server pkg)))
    (fit : Vetted (FitProfile pkg) .editUser (startedJobs labels) (run labels (World.initial (server pkg) store cell)).trace) :
    ∀ user ∈ (run labels (World.initial (server pkg) store cell)).store.users.docs, WellFormed pkg user.row := by
  have sound := (sound_rule pkg updates).runs (app_script pkg) labels _ (initial_tracked _ store cell)
    (fun _ => ⟨by simp [World.initial, empty], by simp [World.initial]⟩)
  rw [run_jobs] at sound
  exact (sound fit).stored

def Reference.editedBy (body : Js.Value) : List (Label (server Reference.packages)) :=
  Reference.signUpLogIn ++ .start (Reference.withToken .put ["api", "v1", "user", "id", "edit"] Reference.sessionToken body)
    (Reference.ambient 6000) :: Reference.turns 2 2 6000

theorem reference_users_well_formed :
    let users := (run (Reference.editedBy (.obj [("firstName", .str "x")])) Reference.noUsers).store.users.docs
    users.map (fun user => user.row .firstName) = [some (.str "x")] ∧ ∀ user ∈ users, WellFormed Reference.packages user.row := by
  refine ⟨by decide +kernel, ?_⟩
  apply fit_edits_keep_users_well_formed Reference.packages reference_user_updates ⟨.none, .none, .none⟩ rfl (.thrown "")
  intro i userId http _ here edits
  have member := List.mem_of_getElem? here
  have body : http.body = .obj [("firstName", .str "x")] := by
    simp only [Reference.editedBy, Reference.signUpLogIn] at member
    rcases List.mem_cons.mp member with rfl | member
    · cases edits
    rcases List.mem_cons.mp member with rfl | member
    · cases edits
    rw [List.mem_singleton.mp member]
    rfl
  rw [body]
  refine ⟨⟨_, rfl, by simp⟩, ?_⟩
  intro path
  cases path with
  | password => exact .inl rfl
  | email => exact .inl rfl
  | _ => exact .inr trivial

theorem edit_stores_any_password_and_email :
    (run (Reference.editedBy (.obj [("password", .str "x"), ("email", .str "X")])) Reference.noUsers).store.users.docs.map
      (fun user => (user.row .password, user.row .email)) = [(some (.str "x"), some (.str "X"))] ∧
    ¬ wellFormedAt Reference.packages .password (some (.str "x")) ∧
    ¬ wellFormedAt Reference.packages .email (some (.str "X")) := by
  refine ⟨by decide +kernel, ?_, ?_⟩
  · intro formed
    obtain ⟨password, salt, hash, hashed, same⟩ := formed
    cases same
    cases password with
    | str p =>
        have spelled : Reference.hash p salt = "x" := Except.ok.inj hashed
        have joined : Words.join [salt.toList, p.toList] = ['x'] := by simpa [Reference.hash] using congrArg String.toList spelled
        have read := Words.split_join [salt.toList, p.toList]
        rw [joined] at read
        cases read
    | _ => cases hashed
  · intro formed
    obtain ⟨email, same, lower, _⟩ := formed
    cases same
    exact absurd lower (by decide)

-- What addMeeting demands of a new meeting.
def filledAt : MeetingField → Option Scalar → Prop
  | .topic, stored | .hostId, stored | .hostName, stored | .participantId, stored | .participantName, stored
  | .meetingDescription, stored | .meetingPlace, stored => ∃ s, stored = some (.str s) ∧ s ≠ ""
  | .meetingStartDate, stored | .meetingEndDate, stored => ∃ ms, stored = some (.date ms)
  | _, _ => True

abbrev Filled (row : Row MeetingField) : Prop := Fits filledAt row

def FitMeeting (pkg : Packages) (body : Js.Value) : Prop := Plain body ∧ FitsWhereSet filledAt (valuesOf (meetingCast pkg) body)

-- A value that counts as present is cast to text that is not empty, and to a date.
structure CastsPresent (pkg : Packages) : Prop where
  strings : ∀ value scalar, Js.truthy value = true → pkg.castString value = .ok scalar → ∃ s, scalar = .str s ∧ s ≠ ""
  dates : ∀ value scalar, Js.truthy value = true → pkg.castDate value = .ok scalar → ∃ ms, scalar = .date ms

section Meetings

variable (pkg : Packages) (casts : CastsPresent pkg)

theorem cast_path_present (cast : Js.Value → Except String Scalar) (preset : Scalar) (value : Js.Value)
    (given : Js.truthy value = true) :
    castPath cast preset value = cast value := by
  cases value with
  | undefined => cases given
  | _ => rfl

include casts

theorem new_meeting_filled (req : Request) (complete : Complete req) (id : String) (createdOn : Scalar) (row : Row MeetingField)
    (made : AddMeeting.newMeeting pkg req id createdOn = .ok row) : Filled row := by
  have given : ∀ name ∈ AddMeeting.demanded, Js.truthy (req.body.get name) = true := List.all_eq_true.mp complete
  have string : ∀ name preset scalar, name ∈ AddMeeting.demanded →
      castPath pkg.castString preset (req.body.get name) = .ok scalar →
      ∃ s, some scalar = some (.str s) ∧ s ≠ "" := by
    intro name preset scalar demanded done
    rw [cast_path_present _ _ _ (given name demanded)] at done
    obtain ⟨s, rfl, filled⟩ := casts.strings _ scalar (given name demanded) done
    exact ⟨s, rfl, filled⟩
  have date : ∀ name preset scalar, name ∈ AddMeeting.demanded → castPath pkg.castDate preset (req.body.get name) = .ok scalar →
      ∃ ms, some scalar = some (.date ms) := by
    intro name preset scalar demanded done
    rw [cast_path_present _ _ _ (given name demanded)] at done
    obtain ⟨ms, rfl⟩ := casts.dates _ scalar (given name demanded) done
    exact ⟨ms, rfl⟩
  unfold AddMeeting.newMeeting at made
  obtain ⟨topic, hasTopic, made⟩ := bind_ok _ _ _ made
  obtain ⟨hostId, hasHostId, made⟩ := bind_ok _ _ _ made
  obtain ⟨hostName, hasHostName, made⟩ := bind_ok _ _ _ made
  obtain ⟨participantId, hasParticipantId, made⟩ := bind_ok _ _ _ made
  obtain ⟨participantName, hasParticipantName, made⟩ := bind_ok _ _ _ made
  obtain ⟨participantEmail, _, made⟩ := bind_ok _ _ _ made
  obtain ⟨meetingStartDate, hasStart, made⟩ := bind_ok _ _ _ made
  obtain ⟨meetingEndDate, hasEnd, made⟩ := bind_ok _ _ _ made
  obtain ⟨meetingDescription, hasDescription, made⟩ := bind_ok _ _ _ made
  obtain ⟨meetingPlace, hasPlace, made⟩ := bind_ok _ _ _ made
  cases made
  intro path
  cases path with
  | topic => exact string _ _ _ (by decide) hasTopic
  | hostId => exact string _ _ _ (by decide) hasHostId
  | hostName => exact string _ _ _ (by decide) hasHostName
  | participantId => exact string _ _ _ (by decide) hasParticipantId
  | participantName => exact string _ _ _ (by decide) hasParticipantName
  | meetingDescription => exact string _ _ _ (by decide) hasDescription
  | meetingPlace => exact string _ _ _ (by decide) hasPlace
  | meetingStartDate => exact date _ _ _ (by decide) hasStart
  | meetingEndDate => exact date _ _ _ (by decide) hasEnd
  | meetingId | participantEmail | createdOn => trivial

theorem meeting_write_preserves (updates : UpdatesBy (meetingCast pkg) pkg.meetingChange) (http : HttpRequest) (h : History sig)
    (cmd : Cmd MeetingField) (asks : Asks pkg http h (.meetings cmd))
    (fit : ∀ userId, .said (.authorised userId) ∈ h → endpointOf http = some .updateMeeting → FitMeeting pkg http.body) :
    Preserves Filled cmd := by
  cases asks with
  | findMeeting | removeMeeting | listMeetings => trivial
  | addMeeting _ _ id createdOn _ _ complete =>
      cases made : AddMeeting.newMeeting pkg (requestOf http) id createdOn with
      | error message => trivial
      | ok row => exact new_meeting_filled pkg casts _ complete id createdOn row made
  | updateMeeting userId h found route passed =>
      cases change : pkg.meetingChange http.body with
      | rejected | empty => trivial
      | apply effect =>
          intro row before
          obtain ⟨plain, set⟩ := fit userId (List.mem_cons_of_mem _ (passed_told pkg http userId h passed)) route
          rw [applied_values (meetingCast pkg) pkg.meetingChange updates http.body plain effect change]
          exact fits_overlay _ _ _ set before

end Meetings

theorem filled_rule (pkg : Packages) (casts : CastsPresent pkg) (updates : UpdatesBy (meetingCast pkg) pkg.meetingChange) :
    EventRule (m := server pkg) (script pkg) unguarded (fun known trace store =>
      Vetted (FitMeeting pkg) .updateMeeting known trace → ∀ meeting ∈ store.meetings.docs, Filled meeting.row) where
  born := fun _ _ _ job holds vetted => holds (vetted_born job vetted)
  told := fun _ _ _ _ _ _ holds _ _ vetted => holds (vetted_before _ vetted)
  asked := by
    intro known trace store i http op choice holds here asks _ vetted
    have before := vetted_before _ vetted
    cases op with
    | auths | users => exact holds before
    | compare => cases choice <;> exact holds before
    | meetings cmd =>
        apply executed_preserves _ _ _ _ cmd _ (exec_executed pkg.castQuery cmd choice store.meetings) _ (holds before)
        exact meeting_write_preserves pkg casts updates http _ cmd asks (vetted_own before i http here)

theorem fit_updates_keep_meetings_filled (pkg : Packages) (casts : CastsPresent pkg)
    (updates : UpdatesBy (meetingCast pkg) pkg.meetingChange) (store : Store) (empty : store.meetings.docs = []) (cell : Body)
    (labels : List (Label (server pkg)))
    (fit : Vetted (FitMeeting pkg) .updateMeeting (startedJobs labels)
      (run labels (World.initial (server pkg) store cell)).trace) :
    ∀ meeting ∈ (run labels (World.initial (server pkg) store cell)).store.meetings.docs, Filled meeting.row := by
  have filled := (filled_rule pkg casts updates).runs (app_script pkg) labels _ (initial_tracked _ store cell)
    (fun _ => by simp [World.initial, empty])
  rw [run_jobs] at filled
  exact filled fit

theorem reference_casts_present : CastsPresent Reference.packages where
  strings := by
    intro value scalar given done
    cases value with
    | str s =>
        cases done
        exact ⟨s, rfl, by simpa [Js.truthy] using given⟩
    | num text =>
        change Reference.castString (.num text) = .ok scalar at done
        by_cases blank : text = ""
        · simp [Reference.castString, blank] at done
        · simp only [Reference.castString, if_neg blank] at done
          cases done
          exact ⟨text, rfl, blank⟩
    | bool b =>
        cases b with
        | false => cases given
        | true =>
            cases done
            exact ⟨"true", rfl, by decide⟩
    | undefined | null => cases given
    | arr | obj | host => cases done
  dates := by
    intro value scalar given done
    cases value with
    | num text =>
        cases done
        exact ⟨_, rfl⟩
    | str s =>
        change Reference.castDate (.str s) = .ok scalar at done
        unfold Reference.castDate at done
        split at done
        all_goals simp_all [Js.truthy]
    | undefined | null => cases given
    | bool | arr | obj | host => cases done

def Reference.updatedBy (body : Js.Value) : List (Label (server Reference.packages)) :=
  .start (Reference.meetingRequest ["addMeeting"] .post Reference.meetingBody) (Reference.ambient 6000) ::
    Reference.turns 0 4 6000 ++
    .start (Reference.meetingRequest ["id", "updateMeeting"] .put body) (Reference.ambient 6000) :: Reference.turns 1 5 6000

def Reference.noMeetings : World (server Reference.packages) :=
  World.initial (server Reference.packages) Reference.afterLogin (.thrown "")

theorem reference_meetings_filled :
    let meetings := (run (Reference.updatedBy (.obj [("topic", .str "y")])) Reference.noMeetings).store.meetings.docs
    meetings.map (fun meeting => meeting.row .topic) = [some (.str "y")] ∧ ∀ meeting ∈ meetings, Filled meeting.row := by
  refine ⟨by decide +kernel, ?_⟩
  apply fit_updates_keep_meetings_filled Reference.packages reference_casts_present reference_meeting_updates Reference.afterLogin
    (List.length_eq_zero_iff.mp (by decide +kernel)) (.thrown "")
  intro i userId http _ here updates
  have member := List.mem_of_getElem? here
  have body : http.body = .obj [("topic", .str "y")] := by
    simp only [Reference.updatedBy] at member
    rcases List.mem_cons.mp member with rfl | member
    · cases updates
    rw [List.mem_singleton.mp member]
    rfl
  rw [body]
  refine ⟨⟨_, rfl, by simp⟩, ?_⟩
  intro path
  cases path with
  | topic => exact .inr ⟨"y", rfl, by decide⟩
  | meetingId | participantEmail | createdOn => exact .inr trivial
  | _ => exact .inl rfl

theorem update_stores_empty_topic :
    (run (Reference.updatedBy (.obj [("topic", .str "")])) Reference.noMeetings).store.meetings.docs.map
    (fun meeting => meeting.row .topic) =
      [some (.str "")] ∧ ¬ filledAt .topic (some (.str "")) := by
  refine ⟨by decide +kernel, ?_⟩
  intro filled
  obtain ⟨s, same, nonempty⟩ := filled
  cases same
  exact nonempty rfl

end Planner
