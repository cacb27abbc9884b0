import PlannerBackend.Delivery
import PlannerBackend.SessionMap
import PlannerBackend.SignUps

set_option autoImplicit false

namespace Planner

open Docs Resume

-- bcrypt reads 72 bytes of a password and no more.
def ComparesHashes (pkg : Packages) : Prop :=
  ∀ password given salt, password.utf8ByteSize ≤ 72 → given.utf8ByteSize ≤ 72 →
    (pkg.bcryptCompare given (pkg.bcryptHash password salt) = true ↔ given = password)

def Signs (pkg : Packages) : Prop := ∀ claims, ∃ token, pkg.jwtSign claims secretKey = .ok token

def Unfailing {pkg : Packages} (visit : Visit (server pkg)) : Prop := ∀ n, ∃ k, visit.choices n = .pick k

def Answers (notes : History sig) (response : Response) : Prop := ∃ status, .said (.send status (.api response)) ∈ notes

-- What the three later requests are to make of an account.
structure KnownAs (pkg : Packages) (cell : Body) (store : Store) (user : Doc UserField) (email password : String) : Prop where
  logsIn : ∀ visit : Visit (server pkg), Unfailing visit → endpointOf visit.job = some .logInUser →
    visit.job.body.get "email" = .str email → visit.job.body.get "password" = .str password →
    ∃ token, Answers (visit.serve cell store).notes
      (generate false "login successfull" 200 (.session token (without (hydrateUser user.row) [.password, .createdOn])))
  recovers : ∀ visit : Visit (server pkg), Unfailing visit → endpointOf visit.job = some .recoverForgotPassword →
    (requestOf visit.job).param "email" = .str email →
    .asked (.users (.findOne .email (.str email))) (.ok (some user)) ∈ (visit.serve cell store).notes
  refuses : ∀ visit : Visit (server pkg), Unfailing visit → endpointOf visit.job = some .signUpUser →
    visit.job.body.get "email" = .str email → isEmpty (visit.job.body.get "password") = .ok false →
    Answers (visit.serve cell store).notes (generate true "User Already Present With this Email" 500 .null)

section Visits

variable (pkg : Packages) (visit : Visit (server pkg)) (cell : Body) (store : Store)

theorem serve_open (endpoint : Endpoint) (route : endpointOf visit.job = some endpoint) (open_ : guarded endpoint = false) :
    visit.serve cell store =
      alone (server pkg) visit.choices visit.env (controller pkg (requestOf visit.job) none endpoint) 0 0 cell store := by
  simp [Visit.serve, app, route, handle, open_]

theorem accepted_truthy (value : Js.Value) (accepted : Email value = .ok true) : Js.truthy value = true := by
  obtain ⟨email, rfl⟩ := email_accepts_strings value accepted
  by_cases blank : email = ""
  · subst blank
    exact absurd (Except.ok.inj accepted) (by decide)
  · simpa [Js.truthy] using blank

theorem sign_up_validated (req : Request) (accepted : Email (req.body.get "email") = .ok true)
    (filled : isEmpty (req.body.get "password") = .ok false) (resolve : Unit → Process) (reject : Body → Process) :
    SignUpUser.validateUserInput req resolve reject = resolve () := by
  simp only [SignUpUser.validateUserInput, accepted_truthy _ accepted, accepted, filled, if_true]

-- A sign-up reports 'user created' only after it has stored the new record.
theorem created_stored (route : endpointOf visit.job = some .signUpUser) (response : Response)
    (answered : Answers (visit.serve cell store).notes response) (fine : response.error = false) :
    ∃ row ok, SignUpRow pkg (requestOf visit.job) (.ok row) ∧ (visit.serve cell store).store =
    { store with users := store.users.push row ok } := by
  obtain ⟨status, said⟩ := answered
  obtain ⟨chain, outcome⟩ := visit_contract pkg visit cell store
  have lawful := serve_lawful (accounted pkg) visit cell store (app_accounted pkg visit.job)
  generalize (visit.serve cell store).notes = notes at said chain outcome lawful
  generalize (visit.serve cell store).store = after at chain
  split at outcome
  · cases (escape_stuck pkg visit.job notes outcome).2 _ said
  · obtain ⟨code, body, past, rfl, reply⟩ := outcome
    have past_ := reply_unanswered pkg visit.job past body reply
    rcases List.mem_cons.mp said with same | older
    · cases same
      cases reply with
      | refused _ bad _ =>
          rw [bad.1] at fine
          cases fine
      | nobody other _ => cases route.symm.trans other
      | done _ effect =>
          cases effect with
          | created row doc rest _ clean =>
              obtain ⟨before, choice, earlier, reply, rfl⟩ := chain_asked store after _ _ rest (chain_said store after _ _ chain)
              have done := exec_executed pkg.castQuery (.insert row) choice before.users
              have made := (lawful [_] _ rest rfl).2
              cases chain_clean pkg store before rest earlier clean
              rw [show (exec pkg.castQuery (.insert row) choice store.users).1 = .ok doc from reply] at done
              obtain ⟨given, ok, rfl, _, pushed⟩ := executed_inserted _ _ _ row doc done
              exact ⟨given, ok, made.2.1, by simp only [execute, pushed]⟩
          | shown endpoint _ _ _ other reading _ =>
              cases route.symm.trans other
              cases reading
          | _ => cases route.symm.trans ‹endpointOf visit.job = some _›
    · cases past_ _ older

-- A look-up that can only mean one record finds it, whichever it picks.
theorem lookup_only (strings : StringQueries pkg) (email : String) (user : Doc UserField) (member : user ∈ store.users.docs)
    (named : user.row .email = some (.str email))
    (only : ∀ other ∈ store.users.docs, other.row .email = some (.str email) → other = user) (n : Nat) :
    execute pkg (.users (.findOne .email (.str email))) (.pick n) store = (.ok (some user), store) := by
  obtain ⟨condition, seen, matches_⟩ := strings email
  obtain ⟨other, found⟩ :=
    find_one_some pkg.castQuery store.users .email (.str email) condition user n seen member ((matches_ _).mpr named)
  obtain ⟨inStore, condition', seen', holds⟩ := find_one_found pkg.castQuery store.users _ _ _ other found
  cases seen.symm.trans seen'
  cases only other inStore ((matches_ _).mp holds)
  have kept := execute_idle pkg (.users (.findOne .email (.str email))) (.pick n) store rfl
  exact Prod.ext found kept

theorem lookup_missing (strings : StringQueries pkg) (email : String)
    (absent : ∀ user ∈ store.users.docs, user.row .email ≠ some (.str email)) (n : Nat) :
    execute pkg (.users (.findOne .email (.str email))) (.pick n) store = (.ok none, store) := by
  obtain ⟨condition, seen, matches_⟩ := strings email
  have none_ : matching store.users .email condition = [] := by
    apply List.filter_eq_nil_iff.mpr
    intro user member holds
    exact absent user member ((matches_ _).mp holds)
  simp only [execute, exec, seen, none_]
  rfl

end Visits

section Known

variable (pkg : Packages) (req : Request) (choices : Nat → Choice) (env : Nat → Ambient) (cell : Body) (store : Store)
  (lucky : ∀ n, ∃ k, choices n = .pick k) (user : Doc UserField)

include lucky

theorem sign_up_refused
    (found : ∀ n, execute pkg (.users (.findOne .email (req.body.get "email"))) (.pick n) store = (.ok (some user), store))
    (accepted : Email (req.body.get "email") = .ok true) (filled : isEmpty (req.body.get "password") = .ok false) :
    Answers (alone (server pkg) choices env (signUpUser pkg req) 0 0 cell store).notes
      (generate true "User Already Present With this Email" 500 .null) := by
  obtain ⟨k, picks⟩ := lucky 0
  refine ⟨200, ?_⟩
  simp only [signUpUser, Promise.finish, Promise.andThen, sign_up_validated req accepted filled, SignUpUser.createUser,
    UserModel.call, alone, picks, found, when_found_some user documentValue _ _ (is_empty_document user), send]
  simp [Body.message, generate]

theorem recovery_finds
    (found : ∀ n, execute pkg (.users (.findOne .email (req.param "email"))) (.pick n) store = (.ok (some user), store))
    (accepted : Email (req.param "email") = .ok true) :
    .asked (.users (.findOne .email (req.param "email"))) (.ok (some user)) ∈
      (alone (server pkg) choices env (recoverForgotPassword pkg req) 0 0 cell store).notes := by
  obtain ⟨k, picks⟩ := lucky 0
  simp only [recoverForgotPassword, Promise.finish, Promise.andThen, RecoverForgotPassword.validateUserInput,
    RecoverForgotPassword.findUser, UserModel.call, accepted_truthy _ accepted, accepted, if_true, alone, picks, found]
  simp

theorem token_saved (session : LogInUser.Session) (condition : Condition)
    (seen : pkg.castQuery (LogInUser.idScalar session.userId).value = .ok condition)
    (resolve : LogInUser.Granted → Process) (reject : Body → Process) (n k : Nat) :
    ∃ n' k' after, ∀ note,
      note ∈ (alone (server pkg) choices env
        (resolve ⟨some session.tokenDetails.token, session.userDetails⟩) n' k' cell after).notes →
      note ∈ (alone (server pkg) choices env (LogInUser.saveToken session resolve reject) n k cell store).notes := by
  obtain ⟨first, looks⟩ := lucky n
  obtain ⟨second, saves⟩ := lucky (n + 1)
  have asked : exec pkg.castQuery (.findOne .userId (LogInUser.idScalar session.userId).value) (.pick first) store.auths =
      (.ok (choose first (matching store.auths .userId condition)), store.auths) := by
    simp only [exec, seen]
  simp only [LogInUser.saveToken, authModel.call, alone, looks, execute, asked]
  cases found : choose first (matching store.auths .userId condition) with
  | none =>
      obtain ⟨after, inserted⟩ := insert_unindexed pkg.castQuery second store.auths (LogInUser.newAuth session (env k))
      refine ⟨n + 2, k + 1, { store with auths := after }, fun note member => ?_⟩
      simp only [when_found_none, alone, saves, execute, inserted]
      exact List.mem_append_left _ (List.mem_append_left _ member)
  | some auth =>
      have member := ((matching_mem _ _ _ _).mp (choose_mem _ _ _ found)).1
      obtain ⟨after, resaved⟩ :=
        resave_unindexed pkg.castQuery second store.auths auth member (LogInUser.tokenPaths session (env k))
      refine ⟨n + 2, k + 1, { store with auths := after }, fun note inRest => ?_⟩
      simp only [when_found_some auth documentValue _ _ (is_empty_document auth), alone, saves, execute, resaved]
      exact List.mem_append_left _ (List.mem_append_left _ inRest)

theorem login_answers (signs : Signs pkg)
    (found : execute pkg (.users (.findOne .email (req.body.get "email"))) (choices 0) store = (.ok (some user), store))
    (given : Js.truthy (req.body.get "email") = true)
    (verified : compareHashes pkg (req.body.get "password") (hydrateUser user.row .password) = .ok true) (condition : Condition)
    (seen : pkg.castQuery (LogInUser.idScalar (userIdOf user.row)).value = .ok condition) :
    ∃ token, Answers (alone (server pkg) choices env (logInUser pkg req) 0 0 cell store).notes
      (generate false "login successfull" 200 (.session token (without (hydrateUser user.row) [.password, .createdOn]))) := by
  obtain ⟨second, compares⟩ := lucky 1
  have compared : execute pkg (.compare (req.body.get "password") (hydrateUser user.row .password)) (.pick second) store =
      (.ok true, store) := by
    rw [execute, verified]
  obtain ⟨token, signed⟩ := signs (claimsFor (env 0) (env 1) (env 2) (without (hydrateUser user.row) [.password, .createdOn]))
  obtain ⟨n, k, after, saved⟩ := token_saved pkg choices env cell store lucky
    ⟨⟨token, secretKey⟩, without (hydrateUser user.row) [.password, .createdOn]⟩ condition seen _ _ 2 3
  refine ⟨some token, 200, ?_⟩
  simp only [logInUser, Promise.finish, Promise.andThen, LogInUser.findUser, given, if_true, UserModel.call, alone, found,
    when_found_some user documentValue _ _ (is_empty_document user), LogInUser.validatePassword, compares, compared,
    LogInUser.generateToken, generateToken, signed, Except.map]
  apply List.mem_append_left
  apply List.mem_append_left
  apply saved
  simp [alone]

theorem login_unknown
    (missing : ∀ n, execute pkg (.users (.findOne .email (req.body.get "email"))) (.pick n) store = (.ok none, store))
    (given : Js.truthy (req.body.get "email") = true) (response : Response)
    (answered : Answers (alone (server pkg) choices env (logInUser pkg req) 0 0 cell store).notes response) :
    response.error = true := by
  obtain ⟨first, looks⟩ := lucky 0
  obtain ⟨status, said⟩ := answered
  simp only [logInUser, Promise.finish, Promise.andThen, LogInUser.findUser, given, if_true, UserModel.call, alone,
    looks, missing, when_found_none, rejectShared, LogInUser.respondError, generate] at said
  simp only [List.nil_append, List.cons_append, List.mem_cons, List.not_mem_nil, or_false, reduceCtorEq, Note.said.injEq,
    Out.send.injEq, Body.api.injEq] at said
  rw [said.2]

end Known

def logInWith (email password : String) : HttpRequest :=
  { Reference.logInRequest with body := .obj [("email", .str email), ("password", .str password)] }

section Account

variable (pkg : Packages) (strings : StringQueries pkg) (cell : Body) (store : Store) (email password : String)
  (accepted : Email (.str email) = .ok true)

include strings accepted

theorem account_known (hashes : ComparesHashes pkg) (signs : Signs pkg) (short : password.utf8ByteSize ≤ 72)
    (user : Doc UserField) (id salt : String) (named : user.row .userId = some (.str id))
    (hashed : user.row .password = some (.str (pkg.bcryptHash password salt)))
    (found : ∀ n, execute pkg (.users (.findOne .email (.str email))) (.pick n) store = (.ok (some user), store)) :
    KnownAs pkg cell store user email password where
  logsIn := by
    intro visit lucky route given secret
    have verified : compareHashes pkg (.str password) (hydrateUser user.row .password) = .ok true := by
      simp only [compareHashes, hydrateUser, hashed, Option.getD_some]
      rw [(hashes password password salt short short).mpr rfl]
    rw [← given] at found accepted
    rw [← secret] at verified
    obtain ⟨k, picks⟩ := lucky 0
    have looked : execute pkg (.users (.findOne .email (visit.job.body.get "email"))) (visit.choices 0) store =
        (.ok (some user), store) := by
      rw [picks]
      exact found k
    obtain ⟨condition, seen, _⟩ := strings id
    have owned : userIdOf user.row = some id := by simp [userIdOf, hydrateUser, named, text]
    rw [serve_open pkg visit cell store _ route rfl]
    exact login_answers pkg (requestOf visit.job) _ _ cell store lucky user signs looked
      (accepted_truthy _ accepted) verified condition (by rw [owned]; exact seen)
  recovers := by
    intro visit lucky route given
    rw [← given] at found accepted ⊢
    rw [serve_open pkg visit cell store _ route rfl]
    exact recovery_finds pkg (requestOf visit.job) _ _ cell store lucky user found accepted
  refuses := by
    intro visit lucky route given filled
    rw [← given] at found accepted
    rw [serve_open pkg visit cell store _ route rfl]
    exact sign_up_refused pkg (requestOf visit.job) _ _ cell store lucky user found accepted filled

theorem unlisted_unknown (absent : ∀ user ∈ store.users.docs, user.row .email ≠ some (.str email))
    (user : Doc UserField) (env : Nat → Ambient) :
    ¬ KnownAs pkg cell store user email password := by
  intro known
  have missing := lookup_missing pkg store strings email absent
  obtain ⟨token, answered⟩ := known.logsIn ⟨logInWith email password, fun _ => .pick 0, env⟩ (fun _ => ⟨0, rfl⟩) rfl rfl rfl
  rw [serve_open pkg _ cell store _ rfl rfl] at answered
  cases login_unknown pkg (requestOf (logInWith email password)) _ _ cell store (fun _ => ⟨0, rfl⟩) missing
    (accepted_truthy _ accepted) _ answered

end Account

theorem created_account_known_iff_lower_case (pkg : Packages) (strings : StringQueries pkg) (hashes : ComparesHashes pkg)
    (signs : Signs pkg) (store : Store) (cell : Body) (email password : String)
    (fresh : ∀ user ∈ store.users.docs, user.row .email ≠ some (.str email) ∧ user.row .email ≠ some (.str (toLowerCase email)))
    (accepted : Email (.str email) = .ok true) (short : password.utf8ByteSize ≤ 72)
    (visit : Visit (server pkg)) (route : endpointOf visit.job = some .signUpUser)
    (given : visit.job.body.get "email" = .str email) (secret : visit.job.body.get "password" = .str password) (data : Data)
    (created : Answers (visit.serve cell store).notes (generate false "user created" 200 data)) :
    ∃ user, (visit.serve cell store).store.users.docs = store.users.docs ++ [user] ∧
      (KnownAs pkg (visit.serve cell store).cell (visit.serve cell store).store user email password ↔
        toLowerCase email = email) := by
  obtain ⟨row, ok, ⟨sent, sentPassword, id, salt, createdOn, sentEmail, sentSecret, _, made⟩, pushed⟩ :=
    created_stored pkg visit cell store route _ created rfl
  cases (show visit.job.body.get "email" = _ from sentEmail).symm.trans given
  cases (show visit.job.body.get "password" = _ from sentSecret).symm.trans secret
  obtain ⟨named, lowered, hashed⟩ := new_user_ok pkg _ id _ _ createdOn row made.symm
  refine ⟨⟨store.users.next, row⟩, by rw [pushed]; rfl, ?_⟩
  rw [pushed]
  generalize (visit.serve cell store).cell = left
  constructor
  · intro known
    by_contra upper
    refine unlisted_unknown pkg strings left _ email password accepted ?_ _ visit.env known
    intro user member same
    rcases (mem_push store.users row ok user).mp member with old | rfl
    · exact (fresh user old).1 same
    · exact upper (by simpa using lowered.symm.trans same)
  · intro lower
    have found := lookup_only pkg { store with users := store.users.push row ok } strings email ⟨store.users.next, row⟩
      ((mem_push _ _ ok _).mpr (.inr rfl)) (by rw [← lower]; exact lowered) (by
        intro other member same
        rcases (mem_push store.users row ok other).mp member with old | new
        · exact absurd same (fresh other old).1
        · exact new)
    exact account_known pkg strings left _ email password accepted hashes signs short _ id salt named hashed found

theorem reference_compares_hashes : ComparesHashes Reference.packages := by
  intro password given salt _ _
  simp only [Reference.packages, Reference.compare, Reference.hash, String.toList_ofList, Words.split_join, beq_iff_eq]
  exact ⟨fun same => String.toList_inj.mp same.symm, fun same => by rw [same]⟩

theorem reference_signs : Signs Reference.packages := fun _ => ⟨_, rfl⟩

def reportsCreated (notes : History sig) : Bool :=
  notes.any fun
    | .said (.send _ (.api ⟨false, "user created", 200, _⟩)) => true
    | _ => false

theorem reports_created (notes : History sig) (reported : reportsCreated notes = true) :
    ∃ data, Answers notes (generate false "user created" 200 data) := by
  obtain ⟨note, member, shape⟩ := List.any_eq_true.mp reported
  split at shape
  · exact ⟨_, _, member⟩
  · cases shape

def refusals (notes : History sig) : List (String × Nat) :=
  notes.filterMap fun
    | .said (.send _ (.api ⟨true, message, status, .null⟩)) => some (message, status)
    | _ => none

def Reference.visit (http : HttpRequest) (id : String) : Visit (server Reference.packages) :=
  ⟨http, fun _ => .pick 0, fun _ => ⟨4000, id, "salt", "fresh"⟩⟩

def Reference.signedUp (email : String) : Finished (server Reference.packages) :=
  (Reference.visit (Reference.signUpAs email) "u1").serve (.thrown "") ⟨.none, .none, .none⟩

theorem reference_account_known :
    ∃ user, KnownAs Reference.packages (Reference.signedUp "a@b.co").cell
    (Reference.signedUp "a@b.co").store user "a@b.co" "pw" := by
  obtain ⟨data, created⟩ := reports_created (Reference.signedUp "a@b.co").notes (by decide +kernel)
  obtain ⟨user, _, known⟩ :=
    created_account_known_iff_lower_case Reference.packages reference_string_queries reference_compares_hashes
    reference_signs ⟨.none, .none, .none⟩ (.thrown "") "a@b.co" "pw" (by simp [Collection.none])
    (congrArg Except.ok (by decide +kernel))
    (by decide) (Reference.visit (Reference.signUpAs "a@b.co") "u1") (by decide +kernel) rfl rfl data created
  exact ⟨user, known.mpr (by decide +kernel)⟩

def Reference.recoverRequest (email : String) : HttpRequest :=
  { Reference.logInRequest with method := .get, path := ["api", "v1", "user", email, "recoverPassword"] }

theorem upper_case_account_is_unknown :
    let done := Reference.signedUp "A@b.co"
    reportsCreated done.notes = true ∧
    refusals ((Reference.visit (logInWith "A@b.co" "pw") "u2").serve done.cell done.store).notes =
      [("no user details found", 404)] ∧
    refusals ((Reference.visit (Reference.recoverRequest "A@b.co") "u2").serve done.cell done.store).notes =
      [("No User Found with given email", 404)] ∧
    reportsCreated ((Reference.visit (Reference.signUpAs "A@b.co") "u2").serve done.cell done.store).notes = true := by
  decide +kernel

end Planner
