import PlannerBackend.Journal
import PlannerBackend.Presence
import PlannerBackend.Revocation

set_option autoImplicit false

namespace Planner

open Docs Resume

-- The command has stored this token for this user.
def Saves (userId : Option String) (token : String) : Note sig → Prop
  | .asked (.auths (.insert (.ok row))) (.ok _) => owner row = userId ∧ row .authToken = some (.str token)
  | .asked (.auths (.resave given paths)) (.ok _) => owner given.row = userId ∧ paths .authToken = some (.str token)
  | _ => False

-- The command may take the token of this user away.
def Closes (userId : Option String) : Note sig → Prop
  | .asked (.auths (.resave given _)) _ => owner given.row = userId
  | .asked (.auths (.findOneAndRemove _ value)) _ => value = (LogInUser.idScalar userId).value
  | _ => False

def Holds (auths : Collection AuthField none) (userId : Option String) (token : String) : Prop :=
  ∃ auth ∈ auths.docs, auth.row .authToken = some (.str token) ∧ owner auth.row = userId

-- A saved token is held until a command closes the session.
structure Lasting (pkg : Packages) (trace : Trace sig) (auths : Collection AuthField none) : Prop where
  recorded : Recorded pkg trace auths
  held : ∀ newer i note older userId token, trace = newer ++ (i, note) :: older → Saves userId token note →
    (∀ entry ∈ newer, ¬ Closes userId entry.2) → Holds auths userId token

section Rule

variable (pkg : Packages) (trace : Trace sig) (store : Store) (i : Nat) (http : HttpRequest) (cmd : Cmd AuthField)
  (recorded : Recorded pkg trace store.auths) (allowed : mayAsk pkg http (view i trace) (.auths cmd)) (ans : Ans cmd)
  (next : Collection AuthField none) (done : Executed pkg.castQuery store.auths cmd ans next)
    (userId : Option String) (token : String)

include recorded allowed done

theorem saves_holds (saves : Saves userId token (.asked (.auths cmd) ans)) : Holds next userId token := by
  cases done with
  | inserted row ok => exact ⟨_, (mem_push store.auths row ok _).mpr (.inr rfl), saves.2, saves.1⟩
  | resaved given paths stored here same ok =>
      obtain ⟨_, session, at_, rest, rfl, shape, _⟩ := allowed
      have read : (i, lookupByUserId session.userId (some given)) ∈ trace := by
        rw [← mem_view, shape]
        exact List.mem_cons_self
      obtain ⟨named, _, kept⟩ := recorded.looked i session.userId given read
      refine ⟨_, (mem_replace store.auths stored.id _ ok _).mpr (.inr ⟨rfl, stored, here, rfl⟩), saves.2, ?_⟩
      exact (kept stored here same).trans (named.symm.trans saves.1)
  | error cmd message =>
      cases cmd with
      | insert row => cases row <;> cases saves
      | _ => cases saves
  | _ => cases saves

omit done in
theorem unclosed_spares (strings : StringQueries pkg) (nulls : NullQueries pkg) (auth : Doc AuthField)
    (member : auth ∈ store.auths.docs) (owned : owner auth.row = userId) (stays : ¬ Closes userId (.asked (.auths cmd) ans)) :
    Spares pkg.castQuery auth cmd := by
  cases cmd with
  | findOne | find | insert => trivial
  | update => cases allowed
  | resave given paths =>
      obtain ⟨_, session, at_, rest, _, shape, _⟩ := allowed
      have read : (i, lookupByUserId session.userId (some given)) ∈ trace := by
        rw [← mem_view, shape]
        exact List.mem_cons_self
      obtain ⟨named, _, kept⟩ := recorded.looked i session.userId given read
      intro same
      exact stays (named.trans ((kept auth member same.symm).symm.trans owned))
  | findOneAndRemove path value =>
      obtain ⟨_, rfl, other, _, rfl⟩ := allowed
      intro condition seen
      refine Bool.eq_false_iff.mpr fun matches_ => stays ?_
      have named := (genuine_matches pkg strings nulls auth (recorded.genuine auth member) other condition seen).mp matches_
      exact congrArg (fun id => (LogInUser.idScalar id).value) (named.symm.trans owned)

theorem holds_kept (strings : StringQueries pkg) (nulls : NullQueries pkg) (holds : Holds store.auths userId token)
    (stays : ¬ Closes userId (.asked (.auths cmd) ans)) : Holds next userId token := by
  obtain ⟨auth, member, isToken, owned⟩ := holds
  have spares := unclosed_spares pkg trace store i http cmd recorded allowed ans userId strings nulls auth member owned stays
  exact ⟨auth, executed_spares pkg.castQuery store.auths next cmd ans done auth spares member, isToken, owned⟩

end Rule

theorem lasting_reached (pkg : Packages) (strings : StringQueries pkg) (nulls : NullQueries pkg)
    (labels : List (Label (server pkg))) (store : Store) (empty : store.auths.docs = []) (cell : Body) :
    Lasting pkg (run labels (World.initial (server pkg) store cell)).trace
    (run labels (World.initial (server pkg) store cell)).store.auths := by
  have rule : EventRule (m := server pkg) (contract pkg) unguarded (fun _ trace store => Lasting pkg trace store.auths) := by
    apply auth_event_rule pkg unguarded (Lasting pkg)
    · intro trace auths i note other lasting
      refine ⟨recorded_other pkg trace auths i note other lasting.recorded, ?_⟩
      intro newer j mark older userId token split saves stays
      rcases split_cons _ trace newer older _ split with ⟨_, same, _⟩ | ⟨rest, rfl, before⟩
      · cases same
        cases note with
        | said => cases saves
        | asked op ans =>
            cases op with
            | auths cmd => exact absurd rfl (other cmd ans)
            | _ => cases saves
      · exact lasting.held rest j mark older userId token before saves fun entry member =>
            stays entry (List.mem_cons_of_mem _ member)
    · intro trace store i http cmd choice lasting allowed _
      have done := exec_executed pkg.castQuery cmd choice store.auths
      refine ⟨recorded_asked pkg strings nulls trace store i http cmd choice lasting.recorded allowed, ?_⟩
      intro newer j mark older userId token split saves stays
      rcases split_cons _ trace newer older _ split with ⟨_, same, _⟩ | ⟨rest, rfl, before⟩
      · cases same
        exact saves_holds pkg trace store i http cmd lasting.recorded allowed _ _ done userId token saves
      · have held := lasting.held rest j mark older userId token before saves fun entry member =>
            stays entry (List.mem_cons_of_mem _ member)
        exact holds_kept pkg trace store i http cmd lasting.recorded allowed _ _ done userId token strings nulls held
          (stays _ List.mem_cons_self)
  apply rule.runs (app_contract pkg) labels _ (initial_tracked _ store cell)
  exact ⟨⟨by simp [World.initial, empty], by simp [World.initial]⟩, by simp [World.initial]⟩

-- The request logs this user in, or was let through as this user to log out.
def ChangesSession (known : List HttpRequest) (trace : Trace sig) (userId : Option String) (j : Nat) : Prop :=
  LoginOf known trace userId j ∨
    ∃ http, known[j]? = some http ∧ endpointOf http = some .logout ∧ (j, .said (.authorised userId)) ∈ trace

theorem closes_session (pkg : Packages) (known : List HttpRequest) (trace : Trace sig)
    (lawful : Lawful (m := server pkg) (contract pkg) known trace) (auths : Collection AuthField none)
    (recorded : Recorded pkg trace auths) (j : Nat) (note : Note sig) (member : (j, note) ∈ trace) (userId : Option String)
    (closes : Closes userId note) :
    ChangesSession known trace userId j := by
  obtain ⟨newer, older, split⟩ := List.append_of_mem member
  obtain ⟨http, here, allowed⟩ := lawful newer j note older split
  have earlier : ∀ other, other ∈ view j older → (j, other) ∈ trace := by
    intro other seen
    rw [split]
    exact List.mem_append_right _ (List.mem_cons_of_mem _ ((mem_view j _ older).mp seen))
  cases note with
  | said => cases closes
  | asked op ans =>
      cases op with
      | users | meetings | compare => cases closes
      | auths cmd =>
          cases cmd with
          | findOne | find | insert | update => cases closes
          | resave given paths =>
              obtain ⟨_, route, session, at_, rest, rfl, shape, issued⟩ := allowed
              obtain ⟨doc, rfl, named⟩ := issued_account pkg _ rest session issued
              have read := recorded.looked j session.userId given (earlier _ (by simp [shape]))
              refine .inl ⟨http, (requestOf http).body.get "email", doc, here, route, earlier _ (by simp [shape, checkedBy]), ?_⟩
              exact named.trans (read.1.symm.trans closes)
          | findOneAndRemove path value =>
              obtain ⟨_, route, rfl, other, ⟨auth, now, decoded, shape, _⟩, rfl⟩ := allowed
              cases id_value_inj other userId closes
              exact .inr ⟨http, here, route, earlier _ (by simp [shape])⟩

theorem logs_in_saves (pkg : Packages) (trace : Trace sig) (auths : Collection AuthField none)
    (recorded : Recorded pkg trace auths) (i : Nat) (session : LogInUser.Session) (doc : Doc AuthField) (rest h : History sig)
    (logs : LogsIn session doc rest h) (noted : ∀ note ∈ h, (i, note) ∈ trace) :
    ∃ note tail, h = note :: tail ∧ Saves session.userId session.tokenDetails.token note := by
  cases logs with
  | granted at_ => exact ⟨_, _, rfl, text_id_scalar session.userId, rfl⟩
  | renewed at_ auth => exact ⟨_, _, rfl, (recorded.looked i session.userId auth (noted _ (by simp))).1, rfl⟩

-- Nothing but a later login of its user or a later logout ends a session: in
-- any interleaving, the token that a login has answered is let through as that
-- user for as long as jsonwebtoken accepts it.
theorem sessions_last (pkg : Packages) (undoes : VerifyUndoesSign pkg) (strings : StringQueries pkg) (nulls : NullQueries pkg)
    (blank : RejectsBlank pkg) (store : Store) (empty : store.auths.docs = []) (cell : Body)
    (before after : List (Label (server pkg))) (http : HttpRequest) (env : Nat → Ambient) (start world : World (server pkg))
    (isStart : start = run before (World.initial (server pkg) store cell))
    (reached : world = run (.start http env :: after) start) (status : Nat) (token : String) (details : Row UserField)
    (answered : (start.tasks.length,
      .said (.send status (.api (generate false "login successfull" 200 (.session (some token) details))))) ∈
      world.trace)
    (settled : ∀ j, j ≠ start.tasks.length → ChangesSession (jobs world) world.trace (text (details .userId)) j →
      ∃ task, start.tasks[j]? = some task ∧ finished task.proc = true)
    (req : Request) (presented : presentedToken req = .str token) (n : Nat) (at_ : Ambient) (decoded : Claims)
    (verified : pkg.jwtVerify token secretKey at_.now = some decoded) :
    authorisedAs pkg req (.pick n) at_ world.store = some (text (details .userId)) := by
  have resumed : world = run (before ++ .start http env :: after) (World.initial (server pkg) store cell) := by
    rw [reached, run_append, isStart]
  have lasting := lasting_reached pkg strings nulls (before ++ .start http env :: after) store empty cell
  have lawful := run_lawful (contract pkg) (app_contract pkg) (before ++ .start http env :: after) store cell
  have success := answered_success pkg (before ++ .start http env :: after) store cell start.tasks.length status
  have saved := saved_token pkg (before ++ .start http env :: after) store cell start.tasks.length
  rw [← resumed] at lasting lawful success saved
  obtain ⟨_, past, _, shape, success⟩ := success _ answered rfl rfl
  have noted : ∀ note ∈ past, (start.tasks.length, note) ∈ world.trace := by
    intro note member
    rw [← mem_view, shape]
    exact List.mem_cons_of_mem _ member
  obtain ⟨_, session, rest, doc, _, rfl, given, logs⟩ := login_session pkg _ past _ _ _ success rfl
  have isToken : token = session.tokenDetails.token := by
    obtain ⟨note, found, rfl, by_⟩ := logs_in_saved session doc rest past logs
    rw [saved note (noted note List.mem_cons_self) session doc by_] at given
    exact Option.some.inj given
  subst isToken
  obtain ⟨note, tail, rfl, saves⟩ :=
    logs_in_saves pkg world.trace world.store.auths lasting.recorded start.tasks.length session doc rest past logs noted
  obtain ⟨newer, older, split, since, _⟩ := view_split start.tasks.length world.trace [_] tail note shape
  have unborn : (start.tasks.length, note) ∉ start.trace := by
    have tracked := run_tracked (contract pkg) (app_contract pkg) before _ (initial_tracked _ store cell)
    rw [← isStart] at tracked
    exact fun member => Nat.lt_irrefl _ (tracked_bounded _ _ tracked _ member)
  -- the login itself only answers after it has saved, and everyone else who
  -- could close the session had ended before it began
  have open_ : ∀ entry ∈ newer, ¬ Closes session.userId entry.2 := by
    intro entry member closes
    by_cases own : entry.1 = start.tasks.length
    · have inView := (mem_view start.tasks.length entry.2 newer).mpr (own ▸ member)
      rw [since] at inView
      rw [List.mem_singleton.mp inView] at closes
      cases closes
    · have inTrace : entry ∈ world.trace := by
        rw [split]
        exact List.mem_append_left _ member
      obtain ⟨task, there, stopped⟩ := settled entry.1 own
        (closes_session pkg _ _ lawful _ lasting.recorded entry.1 entry.2 inTrace session.userId closes)
      exact finished_before (.start http env :: after) start entry.1 task there stopped newer older _
        (by rw [← reached]; exact split) unborn entry member rfl
  obtain ⟨auth, member, isToken, owned⟩ := lasting.held newer _ note older session.userId _ split saves open_
  rw [held_accepted pkg strings world.store lasting.recorded.genuine req _ presented at_ blank n auth member isToken
    decoded verified, genuine_verdict pkg undoes auth (lasting.recorded.genuine auth member) _ isToken _ decoded verified, owned]
  rfl

-- A user logs in and then deletes the account. The session goes on.
def Reference.afterwards : List (Label (server Reference.packages)) :=
  Reference.turns 0 8 5000 ++
    .start (Reference.withToken .post ["api", "v1", "user", "u1", "delete"] (Reference.tokenAt 5000) .undefined)
      (Reference.ambient 6000) ::
    Reference.turns 1 4 6000

def sessionOf : Data → Option (String × Option String)
  | .session (some token) details => some (token, text (details .userId))
  | _ => none

theorem reference_sessions_last :
    (run (.start Reference.logInRequest (Reference.ambient 5000) ::
      Reference.afterwards) Reference.initial).store.users.docs.length = 0 ∧
    authorisedAs Reference.packages (requestOf (Reference.logOutRequest (Reference.tokenAt 5000))) (.pick 0)
    (Reference.ambient 7000 0)
      (run (.start Reference.logInRequest (Reference.ambient 5000) :: Reference.afterwards) Reference.initial).store =
      some (some "u1") := by
  have facts : (run (.start Reference.logInRequest (Reference.ambient 5000) :: Reference.afterwards)
      Reference.initial).store.users.docs.length =
        0 ∧
      (reportsOf "login successfull" (run (.start Reference.logInRequest (Reference.ambient 5000) :: Reference.afterwards)
        Reference.initial).trace).map (fun report => (report.1, sessionOf report.2.2)) =
          [(0, some (Reference.tokenAt 5000, some "u1"))] ∧
      (jobs (run (.start Reference.logInRequest (Reference.ambient 5000) :: Reference.afterwards) Reference.initial)).map
          endpointOf =
        [some .logInUser, some .deleteUserById] ∧
      (Reference.packages.jwtVerify (Reference.tokenAt 5000) secretKey 7000).isSome = true := by decide +kernel
  obtain ⟨deleted, answered, routes, accepted⟩ := facts
  refine ⟨deleted, ?_⟩
  obtain ⟨⟨i, code, data⟩, only, shown⟩ := List.map_eq_singleton_iff.mp answered
  obtain ⟨decoded, verified⟩ := Option.isSome_iff_exists.mp accepted
  obtain ⟨rfl, shape⟩ := Prod.mk.inj shown
  cases data with
  | session given details =>
      cases given with
      | none => cases shape
      | some token =>
          obtain ⟨rfl, named⟩ := Prod.mk.inj (Option.some.inj shape)
          rw [← named]
          refine sessions_last Reference.packages reference_verify_undoes_sign reference_string_queries reference_null_queries
            reference_rejects_blank Reference.oneUser rfl (.thrown "") [] Reference.afterwards Reference.logInRequest
              (Reference.ambient 5000)
            _ _ rfl rfl code (Reference.tokenAt 5000) details (mem_reports _ _ _ _ _ (only ▸ List.mem_singleton_self _)) ?_
            (requestOf (Reference.logOutRequest (Reference.tokenAt 5000))) rfl 0 (Reference.ambient 7000 0) decoded verified
          intro j other changes
          have routed : ∀ http, (jobs (run (.start Reference.logInRequest (Reference.ambient 5000) :: Reference.afterwards)
              Reference.initial))[j]? = some http → endpointOf http = some .deleteUserById := by
            intro http here
            have mapped := congrArg (Option.map endpointOf) here
            rw [← List.getElem?_map, routes] at mapped
            match j with
            | 0 => exact absurd rfl other
            | 1 => exact (Option.some.inj mapped).symm
            | j + 2 => cases mapped
          rcases changes with ⟨http, _, _, here, route, _⟩ | ⟨http, here, route, _⟩
          · cases route.symm.trans (routed http here)
          · cases route.symm.trans (routed http here)
  | _ => cases shape

end Planner
