import PlannerBackend.Sessions

set_option autoImplicit false

namespace Planner

open Docs Resume

def succeeded : History sig → Bool
  | .said (.send _ (.api response)) :: _ => !response.error
  | _ => false

def returnedToken : History sig → Option String
  | .said (.send _ (.api response)) :: _ =>
      match response.data with
      | .session authToken _ => authToken
      | _ => none
  | _ => none

def account (notes : History sig) : Option (Doc UserField) :=
  notes.findSome? fun
    | .asked (.users (.findOne _ _)) (.ok found) => found
    | _ => none

-- The abstract session map, from what can be seen of each answered request.
def Sessions.after (sessions : Sessions) (http : HttpRequest) (notes : History sig) : Sessions :=
  if succeeded notes then
    match endpointOf http with
    | some .logInUser =>
        match account notes, returnedToken notes with
        | some doc, some token => Function.update sessions (userIdOf doc.row) (some token)
        | _, _ => sessions
    | some .logout =>
        match authorisedUser notes with
        | some userId => Function.update sessions userId none
        | none => sessions
    | _ => sessions
  else sessions

def sessionsOf : List (HttpRequest × History sig) → Sessions
  | [] => fun _ => none
  | (http, notes) :: older => (sessionsOf older).after http notes

theorem after_failed (sessions : Sessions) (http : HttpRequest) (notes : History sig) (failed : succeeded notes = false) :
    sessions.after http notes = sessions := by
  simp [Sessions.after, failed]

theorem after_other (sessions : Sessions) (http : HttpRequest) (notes : History sig)
    (noLogin : endpointOf http ≠ some .logInUser) (noLogout : endpointOf http ≠ some .logout) :
    sessions.after http notes = sessions := by
  unfold Sessions.after
  by_cases answered : succeeded notes = true
  · rw [if_pos answered]
    cases route : endpointOf http with
    | none => rfl
    | some endpoint =>
        cases endpoint with
        | logInUser => exact absurd route noLogin
        | logout => exact absurd route noLogout
        | _ => rfl
  · rw [if_neg answered]

theorem after_login (pkg : Packages) (sessions : Sessions) (http : HttpRequest) (route : endpointOf http = some .logInUser)
    (status : Nat) (session : LogInUser.Session) (found : Option (Doc AuthField)) (cmd : Cmd AuthField) (ans : Ans cmd)
    (rest : History sig) (issued : Issued pkg (requestOf http) rest session) :
    sessions.after http (.said (.send status (.api (generate false "login successfull" 200
        (.session (some session.tokenDetails.token) session.userDetails)))) ::
      .asked (.auths cmd) ans :: lookupByUserId session.userId found :: rest) =
    Function.update sessions session.userId (some session.tokenDetails.token) := by
  obtain ⟨user, rfl, named⟩ := issued_account pkg _ rest session issued
  simp only [Sessions.after, succeeded, generate, route, account, lookupByUserId, checkedBy, returnedToken, List.findSome?, named]
  rfl

def writesAuths : Note sig → Bool
  | .asked (.auths cmd) ans => performed cmd ans
  | _ => false

theorem clean_writes_no_auths (h : History sig) (clean : Clean h) (note : Note sig) (member : note ∈ h) :
    writesAuths note = false := by
  have idle := (clean note member).2.2
  cases note with
  | said => rfl
  | asked op ans =>
      cases op with
      | auths cmd => exact idle
      | users | meetings | compare => rfl

theorem chain_keeps_auths (pkg : Packages) (start store : Store) (h : History sig) (chain : Chain (server pkg) start h store)
    (idle : ∀ note ∈ h, writesAuths note = false) : store.auths = start.auths := by
  refine chain_keeps (m := server pkg) Store.auths (fun note => writesAuths note = false) ?_ start store h chain idle
  intro op choice store quiet
  cases op with
  | users | meetings => rfl
  | compare => cases choice <;> rfl
  | auths cmd => exact executed_idle _ _ _ cmd _ (exec_executed pkg.castQuery cmd choice store.auths) quiet

theorem chain_clean (pkg : Packages) (start store : Store) (h : History sig) (chain : Chain (server pkg) start h store)
    (clean : Clean h) : store = start :=
  chain_keeps (m := server pkg) id (fun note => isWritten note = false) (execute_idle pkg) start store h chain
    (fun note member => (clean note member).2.2)

theorem visit_contract (pkg : Packages) (visit : Visit (server pkg)) (cell : Body) (start : Store) :
    Chain (server pkg) start (visit.serve cell start).notes (visit.serve cell start).store ∧
      if (visit.serve cell start).crashed then Escape pkg visit.job (visit.serve cell start).notes
      else ∃ status body past, (visit.serve cell start).notes = .said (.send status body) :: past ∧
      Reply pkg visit.job past body := by
  have met := alone_meets (m := server pkg) (contract pkg visit.job) visit.choices visit.env (app pkg visit.job) 0 0 cell start
    none [] (by simp) (app_contract pkg visit.job)
  have chain := alone_chain (m := server pkg) visit.choices visit.env (app pkg visit.job) 0 0 cell start start [] .nil
  rw [List.append_nil] at met chain
  exact ⟨chain, met⟩

def LookedUp (auths : Collection AuthField none) (userId : Option String) : Option (Doc AuthField) → Prop
  | none => ∀ auth ∈ auths.docs, owner auth.row ≠ userId
  | some auth => auth ∈ auths.docs ∧ owner auth.row = userId

section Serving

variable (pkg : Packages) (strings : StringQueries pkg) (nulls : NullQueries pkg) (start store : Store) (sessions : Sessions)
  (http : HttpRequest) (stored : SessionStore pkg start.auths sessions)

include stored

theorem untouched_sessions (notes : History sig) (chain : Chain (server pkg) start notes store)
    (idle : ∀ note ∈ notes, writesAuths note = false) (same : sessions.after http notes = sessions) :
    SessionStore pkg store.auths (sessions.after http notes) := by
  rw [same, chain_keeps_auths pkg start store notes chain idle]
  exact stored

include strings nulls

theorem lookup_answer (session : LogInUser.Session) (found : Option (Doc AuthField)) (choice : Choice)
    (answer : (execute pkg (.auths (.findOne .userId (LogInUser.idScalar session.userId).value)) choice start).1 = .ok found) :
    (execute pkg (.auths (.findOne .userId (LogInUser.idScalar session.userId).value)) choice start).2 = start ∧
      LookedUp start.auths session.userId found := by
  refine ⟨execute_idle pkg _ choice start rfl, ?_⟩
  have done := auths_executed pkg _ choice start _ answer
  cases found with
  | none =>
      obtain ⟨condition, seen, absent⟩ := executed_missing _ _ _ _ _ done
      intro auth member named
      have holds := (genuine_matches pkg strings nulls auth (stored.genuine auth member) session.userId condition seen).mpr named
      rw [absent auth member] at holds
      cases holds
  | some auth =>
      obtain ⟨member, condition, seen, holds⟩ := executed_found _ _ _ _ _ auth done
      exact ⟨member, (genuine_matches pkg strings nulls auth (stored.genuine auth member) session.userId condition seen).mp holds⟩

theorem login_served (session : LogInUser.Session) (found : Option (Doc AuthField)) (cmd : Cmd AuthField) (ans : Ans cmd)
    (rest : History sig) (issued : Issued pkg (requestOf http) rest session)
    (chain : Chain (server pkg) start (.asked (.auths cmd) ans :: lookupByUserId session.userId found :: rest) store) :
    Executed pkg.castQuery start.auths cmd ans store.auths ∧ LookedUp start.auths session.userId found := by
  obtain ⟨mid, choice, chainMid, answer, rfl⟩ := chain_asked _ _ _ _ _ chain
  obtain ⟨before, first, chainRest, looked, rfl⟩ := chain_asked _ _ _ _ _ chainMid
  obtain rfl := chain_clean pkg start before rest chainRest (issued_clean pkg _ rest session issued)
  obtain ⟨kept, reached⟩ := lookup_answer pkg strings nulls before sessions stored session found first looked
  rw [kept] at answer ⊢
  exact ⟨auths_executed pkg cmd choice before ans answer, reached⟩

theorem effect_refines (h : History sig) (response : Response) (status : Nat) (effect : Effect pkg http h response)
    (chain : Chain (server pkg) start h store) :
    SessionStore pkg store.auths (sessions.after http (.said (.send status (.api response)) :: h)) := by
  have seen : Chain (server pkg) start (.said (.send status (.api response)) :: h) store :=
    Chain.said (m := server pkg) _ h store chain
  have unchanged : ∀ endpoint, endpointOf http = some endpoint → endpoint ≠ .logInUser → endpoint ≠ .logout →
      (∀ note ∈ h, writesAuths note = false) →
      SessionStore pkg store.auths (sessions.after http (.said (.send status (.api response)) :: h)) := by
    intro endpoint route noLogin noLogout idle
    refine untouched_sessions pkg start store sessions http stored _ seen (by simpa [writesAuths] using idle) ?_
    exact after_other sessions http _ (by simpa [route] using noLogin) (by simpa [route] using noLogout)
  cases effect with
  | granted session at_ doc rest route issued =>
      obtain ⟨done, absent⟩ := login_served pkg strings nulls start store sessions http stored session none _ _ rest issued chain
      obtain ⟨refines, token⟩ := session_inserted pkg start.auths _ sessions stored _ rest session at_ issued doc absent done
      rw [token, after_login pkg sessions http route status session none _ _ rest issued]
      exact refines
  | renewed session at_ auth doc rest route issued =>
      obtain ⟨done, member, owned⟩ :=
        login_served pkg strings nulls start store sessions http stored session (some auth) _ _ rest issued chain
      obtain ⟨refines, token⟩ :=
          session_resaved pkg start.auths _ sessions stored _ rest session at_ issued auth doc member owned done
      rw [token, after_login pkg sessions http route status session (some auth) _ _ rest issued]
      exact refines
  | loggedOut userId doc rest route passed =>
      obtain ⟨before, choice, chainRest, answer, rfl⟩ := chain_asked _ _ _ _ _ chain
      obtain rfl := chain_clean pkg start before rest chainRest (passed_clean pkg http userId rest passed)
      have refines := session_removed pkg before.auths _ sessions strings nulls stored userId doc
        (auths_executed pkg _ choice before _ answer)
      obtain ⟨auth, now, decoded, rfl, _⟩ := passed
      simp only [Sessions.after, succeeded, generate, route, authorisedUser, List.findSome?]
      exact refines
  | created _ _ rest route clean | userDeleted _ rest route clean | userEdited _ rest route clean
  | recovered _ _ _ _ rest route clean
  | meetingAdded _ _ rest route clean | meetingUpdated _ _ _ rest route clean | meetingDeleted _ _ rest route clean =>
      exact unchanged _ route (by decide) (by decide) (by simpa [writesAuths] using clean_writes_no_auths rest clean)
  | shown endpoint h message data route reading clean =>
      have reader : ∀ other, reads other = false → endpoint ≠ other := by
        intro other writer same
        rw [same, writer] at reading
        cases reading
      exact unchanged endpoint route (reader _ rfl) (reader _ rfl) (clean_writes_no_auths h clean)

theorem visit_refines (visit : Visit (server pkg)) (cell : Body) (here : visit.job = http) :
    SessionStore pkg (visit.serve cell start).store.auths (sessions.after http (visit.serve cell start).notes) := by
  subst here
  obtain ⟨chain, met⟩ := visit_contract pkg visit cell start
  generalize visit.serve cell start = done at *
  obtain ⟨store, cell, notes, crashed⟩ := done
  dsimp only at *
  have idle : ∀ out past, Clean past → ∀ note ∈ Note.said out :: past, writesAuths note = false :=
    fun out past clean => by simpa [writesAuths] using clean_writes_no_auths past clean
  cases crashed with
  | true =>
      cases met with
      | hashing rest route odd clean =>
          refine untouched_sessions pkg start store sessions _ stored _ chain ?_ (after_failed _ _ _ rfl)
          simpa [writesAuths] using clean_writes_no_auths rest clean
      | printing found thrown reply rest route odd clean =>
          refine untouched_sessions pkg start store sessions _ stored _ chain ?_ (after_failed _ _ _ rfl)
          simpa [writesAuths] using clean_writes_no_auths rest clean
  | false =>
      obtain ⟨status, body, past, rfl, reply⟩ := met
      cases reply with
      | refused response bad clean =>
          refine untouched_sessions pkg start store sessions _ stored _ chain (idle _ past clean) (after_failed _ _ _ ?_)
          simp [succeeded, bad.1]
      | nobody route clean =>
          refine untouched_sessions pkg start store sessions _ stored _ chain (idle _ past clean) ?_
          exact after_other _ _ _ (by simp [route]) (by simp [route])
      | done response effect =>
          exact effect_refines pkg strings nulls start store sessions visit.job stored past response status effect
            (chain_said (m := server pkg) _ _ _ _ chain)

end Serving

-- A login that succeeds found its account in the state it was served in.
theorem login_account_stored (pkg : Packages) (start store : Store) (http : HttpRequest) (h : History sig) (response : Response)
    (effect : Effect pkg http h response) (route : endpointOf http = some .logInUser) (chain : Chain (server pkg) start h store) :
    ∃ doc ∈ start.users.docs, ∀ status, account (.said (.send status (.api response)) :: h) = some doc := by
  have current : ∀ session found write ans rest, Issued pkg (requestOf http) rest session →
      Chain (server pkg) start (.asked (.auths write) ans :: lookupByUserId session.userId found :: rest) store →
      ∃ doc ∈ start.users.docs, ∀ status,
        account (.said (.send status (.api response)) :: .asked (.auths write) ans ::
            lookupByUserId session.userId found :: rest) = some doc := by
    intro session found write ans rest issued all
    obtain ⟨_, _, chainMid, _⟩ := chain_asked (m := server pkg) _ _ _ _ _ all
    obtain ⟨_, _, chainRest, _⟩ := chain_asked (m := server pkg) _ _ _ _ _ chainMid
    obtain ⟨user, rfl, _⟩ := issued_account pkg _ rest session issued
    obtain ⟨_, _, chainFirst, _⟩ := chain_asked (m := server pkg) _ _ _ _ _ chainRest
    obtain ⟨before, choice, chainNil, answer, _⟩ := chain_asked (m := server pkg) _ _ _ _ _ chainFirst
    cases chainNil
    exact ⟨user, (find_one_found pkg.castQuery start.users .email _ choice user answer).1, fun _ => rfl⟩
  cases effect with
  | granted session at_ doc rest _ issued => exact current session none _ _ rest issued chain
  | renewed session at_ auth doc rest _ issued => exact current session (some auth) _ _ rest issued chain
  | shown endpoint h message data other reading clean =>
      cases route.symm.trans other
      cases reading
  | _ => cases route.symm.trans ‹endpointOf http = some _›

theorem visit_account_stored (pkg : Packages) (visit : Visit (server pkg)) (cell : Body) (start : Store)
    (route : endpointOf visit.job = some .logInUser) (success : succeeded (visit.serve cell start).notes = true) :
    ∃ doc ∈ start.users.docs, account (visit.serve cell start).notes = some doc := by
  obtain ⟨chain, met⟩ := visit_contract pkg visit cell start
  generalize visit.serve cell start = done at *
  obtain ⟨store, cell, notes, crashed⟩ := done
  dsimp only at *
  cases crashed with
  | true => cases met <;> cases success
  | false =>
      obtain ⟨status, body, past, rfl, reply⟩ := met
      cases reply with
      | refused response bad clean => simp [succeeded, bad.1] at success
      | nobody other clean => cases route.symm.trans other
      | done response effect =>
          obtain ⟨doc, member, found⟩ := login_account_stored pkg start store visit.job past response effect route
            (chain_said (m := server pkg) _ _ _ _ chain)
          exact ⟨doc, member, found status⟩

theorem log_refines (pkg : Packages) (strings : StringQueries pkg) (nulls : NullQueries pkg) (visits : List (Visit (server pkg)))
    (store : Store) (empty : store.auths.docs = []) (cell : Body) :
    SessionStore pkg (serveAll visits ⟨cell, store, []⟩ : Log (server pkg)).store.auths
      (sessionsOf (serveAll visits ⟨cell, store, []⟩ : Log (server pkg)).past) := by
  apply serve_all_induct (fun log : Log (server pkg) => SessionStore pkg log.store.auths (sessionsOf log.past))
  · intro log visit stored
    exact visit_refines pkg strings nulls log.store (sessionsOf log.past) visit.job stored visit log.cell rfl
  · exact ⟨by simp [empty], represents_empty _ _ _ empty⟩

theorem authorised_iff_session (pkg : Packages) (undoes : VerifyUndoesSign pkg) (blank : RejectsBlank pkg)
    (strings : StringQueries pkg) (store : Store) (sessions : Sessions) (stored : SessionStore pkg store.auths sessions)
    (req : Request) (token : String) (presented : presentedToken req = .str token) (n : Nat) (at_ : Ambient)
    (userId : Option String) :
    authorisedAs pkg req (.pick n) at_ store = some userId ↔
      sessions userId = some token ∧ (pkg.jwtVerify token secretKey at_.now).isSome = true := by
  constructor
  · intro accepted
    obtain ⟨auth, member, isToken, decoded, verified, named⟩ :=
      accepted_held pkg strings store stored.genuine req token presented at_ _ _ accepted
    rw [genuine_verdict pkg undoes auth (stored.genuine auth member) token isToken _ decoded verified] at named
    refine ⟨(stored.map.maps _ _).mpr ⟨auth, member, named, ?_⟩, by simp [verified]⟩
    rw [heldToken, isToken]
    rfl
  · intro live
    obtain ⟨session, accepted⟩ := live
    obtain ⟨decoded, verified⟩ := Option.isSome_iff_exists.mp accepted
    obtain ⟨auth, member, named, held⟩ := (stored.map.maps _ _).mp session
    obtain ⟨other, _, isToken, _⟩ := (stored.genuine auth member).signed
    rw [heldToken, isToken] at held
    cases held
    rw [← named, ← genuine_verdict pkg undoes auth (stored.genuine auth member) token isToken _ decoded verified]
    exact held_accepted pkg strings store stored.genuine req token presented at_ blank n auth member isToken decoded verified

theorem session_store_refines_map (pkg : Packages) (undoes : VerifyUndoesSign pkg) (blank : RejectsBlank pkg)
    (strings : StringQueries pkg) (nulls : NullQueries pkg) (visits : List (Visit (server pkg))) (store : Store)
    (empty : store.auths.docs = []) (cell : Body) (log : Log (server pkg)) (served : log = serveAll visits ⟨cell, store, []⟩) :
    Represents log.store.auths owner heldToken (sessionsOf log.past) ∧
    (∀ req token, presentedToken req = .str token → ∀ n at_ userId,
      (authorisedAs pkg req (.pick n) at_ log.store = some userId ↔
        sessionsOf log.past userId = some token ∧ (pkg.jwtVerify token secretKey at_.now).isSome = true)) ∧
    (∀ visit : Visit (server pkg), endpointOf visit.job = some .logInUser →
      succeeded (visit.serve log.cell log.store).notes = true →
      ∃ doc ∈ log.store.users.docs, account (visit.serve log.cell log.store).notes = some doc) ∧
    ∃ labels, (run labels (World.initial (server pkg) store cell)).store = log.store := by
  subst served
  have stored := log_refines pkg strings nulls visits store empty cell
  obtain ⟨labels, same, _⟩ := serve_all_run visits store cell
  refine ⟨stored.map, ?_, fun visit => visit_account_stored pkg visit _ _, labels, same⟩
  intro req token presented n at_ userId
  exact authorised_iff_session pkg undoes blank strings _ _ stored req token presented n at_ userId

def Reference.logInVisit (now : Nat) : Visit (server Reference.packages) :=
  ⟨Reference.logInRequest, fun _ => .pick 0, Reference.ambient now⟩

theorem reference_session_map :
    sessionsOf (serveAll [Reference.logInVisit 5000] ⟨.thrown "", Reference.oneUser, []⟩ : Log (server Reference.packages)).past
      (some "u1") = some (Reference.tokenAt 5000) := by
  have refines := session_store_refines_map Reference.packages reference_verify_undoes_sign reference_rejects_blank
    reference_string_queries reference_null_queries [Reference.logInVisit 5000] Reference.oneUser rfl (.thrown "") _ rfl
  have passes : authorisedAs Reference.packages
      (requestOf (Reference.withToken .get ["api", "v1", "user", "view", "all"] (Reference.tokenAt 5000) .undefined)) (.pick 0)
      (Reference.ambient 6000 0)
      (serveAll [Reference.logInVisit 5000] ⟨.thrown "", Reference.oneUser, []⟩ : Log (server Reference.packages)).store =
        some (some "u1") := by decide +kernel
  exact ((refines.2.1 _ _ rfl 0 _ _).mp passes).1

end Planner
