import PlannerBackend.Revocation

set_option autoImplicit false

namespace Planner

open Docs Resume

def HasUser (store : Store) (userId : Option String) : Prop := ∃ user ∈ store.users.docs, userIdOf user.row = userId

def rewritesUsers : Endpoint → Bool
  | .deleteUserById => true
  | .editUser => true
  | .recoverForgotPassword => true
  | _ => false

-- One step of the run left no user record with a userId that one had before.
def TakenAway (pkg : Packages) (labels : List (Label (server pkg))) (start : World (server pkg))
    (userId : Option String) : Prop :=
  ∃ before i choice env after http endpoint, labels = before ++ .resume i choice env :: after ∧
    HasUser (run before start).store userId ∧ ¬ HasUser (step (run before start) (.resume i choice env)).store userId ∧
    (jobs (run before start))[i]? = some http ∧ endpointOf http = some endpoint ∧ rewritesUsers endpoint = true

theorem user_rewrite_endpoint (pkg : Packages) (http : HttpRequest) (h : History sig) (cmd : Cmd UserField)
    (allowed : mayAsk pkg http h (.users cmd)) (loses : keeps cmd = false) :
    ∃ endpoint, endpointOf http = some endpoint ∧ rewritesUsers endpoint = true := by
  cases cmd with
  | findOne | find | insert => cases loses
  | resave => cases allowed
  | findOneAndRemove => exact ⟨_, allowed.1, rfl⟩
  | update =>
      rcases allowed with recover | ⟨edit, _⟩
      · exact ⟨_, recover, rfl⟩
      · exact ⟨_, edit, rfl⟩

theorem lost_user_taken_away (pkg : Packages) (store : Store) (cell : Body) (before rest : List (Label (server pkg)))
    (userId : Option String) (first : HasUser (run before (World.initial (server pkg) store cell)).store userId)
    (lost : ¬ HasUser (run rest (run before (World.initial (server pkg) store cell))).store userId) :
    TakenAway pkg (before ++ rest) (World.initial (server pkg) store cell) userId := by
  obtain ⟨between, label, after, split, held, ended⟩ :=
    run_crossing (fun world => HasUser world.store userId) rest (run before (World.initial (server pkg) store cell)) first lost
  rw [← run_append] at held ended
  have tracked := run_tracked (contract pkg) (app_contract pkg) (before ++ between) _ (initial_tracked _ store cell)
  rcases step_store (run (before ++ between) (World.initial (server pkg) store cell)) label with
    same | ⟨i, choice, env, job, op, next, rfl, here, after_⟩
  · rw [same] at ended
    exact absurd held ended
  · obtain ⟨user, member, named⟩ := held
    have gone : user ∉ (execute pkg op choice
        (run (before ++ between) (World.initial (server pkg) store cell)).store).2.users.docs := by
      intro still
      rw [after_] at ended
      exact ended ⟨user, still, named⟩
    obtain ⟨cmd, rfl, loses⟩ := execute_users pkg op choice _ user member gone
    obtain ⟨endpoint, route, rewrites⟩ := user_rewrite_endpoint pkg job _ cmd (tracked.meets i _ here).1.2 loses
    exact ⟨before ++ between, i, choice, env, after, job, endpoint,
      by rw [split, List.append_assoc], ⟨user, member, named⟩, ended, jobs_lookup _ i _ here, route, rewrites⟩

theorem opened_reached (pkg : Packages) (labels : List (Label (server pkg))) (store : Store)
    (empty : store.auths.docs = []) (cell : Body) :
    ∀ auth ∈ (run labels (World.initial (server pkg) store cell)).store.auths.docs,
      ∃ entry ∈ (run labels (World.initial (server pkg) store cell)).trace, Opens (owner auth.row) entry.2 := by
  have rule := auth_event_rule pkg unguarded
    (fun trace auths => ∀ auth ∈ auths.docs, ∃ entry ∈ trace, Opens (owner auth.row) entry.2) (by
      intro trace auths i note _ opened auth member
      obtain ⟨entry, inTrace, opens⟩ := opened auth member
      exact ⟨entry, List.mem_cons_of_mem _ inTrace, opens⟩)
    (by
      intro trace store i http cmd choice opened allowed _ auth member
      have done := exec_executed pkg.castQuery cmd choice store.auths
      rcases auth_origin pkg http _ cmd allowed _ _ _ done auth member
        with ⟨old, inHeld, _, owned⟩ | ⟨_, session, at_, rest, isInsert, _⟩
      · obtain ⟨entry, inTrace, opens⟩ := opened old inHeld
        exact ⟨entry, List.mem_cons_of_mem _ inTrace, by rw [owned]; exact opens⟩
      · subst isInsert
        exact ⟨_, List.mem_cons_self, rfl⟩)
  apply rule.runs (app_contract pkg) labels _ (initial_tracked _ store cell)
  simp [World.initial, empty]

theorem owner_had_account (pkg : Packages) (labels : List (Label (server pkg))) (store : Store) (empty : store.auths.docs = [])
    (cell : Body) (auth : Doc AuthField) (member : auth ∈ (run labels (World.initial (server pkg) store cell)).store.auths.docs) :
    ∃ before after, labels = before ++ after ∧
    HasUser (run before (World.initial (server pkg) store cell)).store (owner auth.row) := by
  obtain ⟨⟨j, note⟩, inTrace, opens⟩ := opened_reached pkg labels store empty cell auth member
  have lawful := run_lawful (contract pkg) (app_contract pkg) labels store cell
  obtain ⟨http, value, doc, _, _, found, named⟩ := opens_login pkg _ _ lawful j note inTrace (owner auth.row) opens
  rcases run_asked labels _ j _ _ found with initially | ⟨before, choice, env, after, split, answer⟩
  · cases initially
  · have inUsers := (find_one_found pkg.castQuery (run before (World.initial (server pkg) store cell)).store.users .email
      value choice doc answer.symm).1
    exact ⟨before, _, split, doc, inUsers, named⟩

theorem accepted_owner (pkg : Packages) (undoes : VerifyUndoesSign pkg) (store : Store)
    (genuine : ∀ auth ∈ store.auths.docs, Genuine pkg auth) (req : Request) (choice : Choice) (at_ : Ambient)
    (userId : Option String) (accepted : authorisedAs pkg req choice at_ store = some userId) :
    ∃ auth ∈ store.auths.docs, owner auth.row = userId := by
  obtain ⟨_, auth, decoded, found, verdict, named⟩ := (authorised_as_iff pkg req choice at_ store userId).mp accepted
  obtain ⟨member, _⟩ := find_one_found pkg.castQuery store.auths .authToken _ choice auth found
  obtain ⟨token, _, isToken, _⟩ := (genuine auth member).signed
  rw [genuine_verify pkg auth (genuine auth member) token isToken] at verdict
  refine ⟨auth, member, ?_⟩
  rw [← genuine_verdict pkg undoes auth (genuine auth member) token isToken _ decoded verdict]
  exact named

theorem orphaned_sessions_lost_their_user (pkg : Packages) (undoes : VerifyUndoesSign pkg) (strings : StringQueries pkg)
    (nulls : NullQueries pkg) (store : Store) (empty : store.auths.docs = []) (cell : Body) (labels : List (Label (server pkg)))
    (world : World (server pkg)) (reached : world = run labels (World.initial (server pkg) store cell)) :
    (∀ auth ∈ world.store.auths.docs, HasUser world.store (owner auth.row) ∨
      TakenAway pkg labels (World.initial (server pkg) store cell) (owner auth.row)) ∧
    ∀ req choice at_ userId, authorisedAs pkg req choice at_ world.store = some userId →
      HasUser world.store userId ∨ TakenAway pkg labels (World.initial (server pkg) store cell) userId := by
  have owned : ∀ auth ∈ world.store.auths.docs, HasUser world.store (owner auth.row) ∨
      TakenAway pkg labels (World.initial (server pkg) store cell) (owner auth.row) := by
    intro auth member
    rw [reached] at member
    obtain ⟨before, rest, split, first⟩ := owner_had_account pkg labels store empty cell auth member
    by_cases now : HasUser world.store (owner auth.row)
    · exact .inl now
    · right
      rw [split]
      apply lost_user_taken_away pkg store cell before rest (owner auth.row) first
      rw [← run_append, ← split, ← reached]
      exact now
  refine ⟨owned, ?_⟩
  intro req choice at_ userId accepted
  have genuine := (recorded_reached pkg strings nulls labels store empty cell).genuine
  rw [← reached] at genuine
  obtain ⟨auth, member, named⟩ := accepted_owner pkg undoes world.store genuine req choice at_ userId accepted
  rw [← named]
  exact owned auth member

def Reference.noUsers : World (server Reference.packages) :=
  World.initial (server Reference.packages) ⟨.none, .none, .none⟩ (.thrown "")

def Reference.signUpRequest : HttpRequest :=
  { Reference.logInRequest with path := ["api", "v1", "user", "signup"] }

def Reference.signUpLogIn : List (Label (server Reference.packages)) :=
  .start Reference.signUpRequest (Reference.ambient 4000) :: Reference.turns 0 4 4000 ++
    .start Reference.logInRequest (Reference.ambient 5000) :: Reference.turns 1 8 5000

-- The token of the session that the login opened.
def Reference.sessionToken : String :=
  ((run Reference.signUpLogIn Reference.noUsers).store.auths.docs.head?.bind fun auth => heldToken auth.row).getD ""

def Reference.deleteRequest : HttpRequest :=
  Reference.withToken .post ["api", "v1", "user", "id", "delete"] Reference.sessionToken .undefined

theorem reference_session_has_user :
    HasUser (run Reference.signUpLogIn Reference.noUsers).store (some "id") ∨
      TakenAway Reference.packages Reference.signUpLogIn Reference.noUsers (some "id") :=
  (orphaned_sessions_lost_their_user Reference.packages reference_verify_undoes_sign
    reference_string_queries reference_null_queries
    ⟨.none, .none, .none⟩ rfl (.thrown "") Reference.signUpLogIn _ rfl).2 (requestOf Reference.deleteRequest) (.pick 0)
    (Reference.ambient 6000 0) (some "id") (by decide +kernel)

theorem deleted_user_stays_authorised :
    let left := run (.start Reference.deleteRequest (Reference.ambient 6000) :: Reference.turns 2 2 6000)
      (run Reference.signUpLogIn Reference.noUsers)
    (left.tasks.all fun task => finished task.proc) = true ∧ left.store.users.docs.map (fun user => userIdOf user.row) = [] ∧
    left.store.auths.docs.map (fun auth => owner auth.row) = [some "id"] ∧
    authorisedAs Reference.packages (requestOf Reference.deleteRequest) (.pick 0) (Reference.ambient 7000 0) left.store =
        some (some "id") := by
  decide +kernel

end Planner
