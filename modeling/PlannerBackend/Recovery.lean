import PlannerBackend.Mailing
import PlannerBackend.Overwrite
import PlannerBackend.Spelling

set_option autoImplicit false

namespace Planner

open Docs Resume

-- The users an email filter selects, in their order in the collection.
def holders (users : List (Doc UserField)) (email : String) : List (Doc UserField) :=
  users.filter fun user => user.row .email == some (.str email)

-- A command under that filter goes to this user.
def Picks (store : Store) (email : String) (user : Doc UserField) (choice : Choice) : Prop :=
  ∃ k, choice = .pick k ∧ choose k (holders store.users.docs email) = some user

theorem picks_holder (store : Store) (email : String) (user : Doc UserField) (choice : Choice)
    (picks : Picks store email user choice) :
    user ∈ store.users.docs ∧ user.row .email = some (.str email) := by
  obtain ⟨k, _, picked⟩ := picks
  simpa [holders] using choose_mem _ _ _ picked

theorem holders_matching (pkg : Packages) (strings : StringQueries pkg) (email : String) (condition : Condition)
    (seen : pkg.castQuery (.str email) = .ok condition) (held : Collection UserField (some .userId)) :
    matching held .email condition = holders held.docs email := by
  obtain ⟨other, same, means⟩ := strings email
  cases seen.symm.trans same
  apply List.filter_congr
  intro user _
  rw [Bool.eq_iff_iff, means, beq_iff_eq]

theorem lookup_picks (pkg : Packages) (strings : StringQueries pkg) (store : Store) (email : String) (user : Doc UserField)
    (choice : Choice) (picks : Picks store email user choice) :
    execute pkg (.users (.findOne .email (.str email))) choice store = (.ok (some user), store) := by
  obtain ⟨condition, seen, _⟩ := strings email
  obtain ⟨k, rfl, picked⟩ := picks
  simp only [execute, exec, seen, holders_matching pkg strings email condition seen, picked]

theorem overlay_recovered (pkg : Packages) (user : Doc UserField) (password salt : String) :
    overlay (recoveredRow pkg user password salt) user.row = recoveredRow pkg user password salt := by
  funext path
  cases path <;> simp [overlay, recoveredRow, RecoverForgotPassword.withPassword]

section Reset

variable (pkg : Packages) (store : Store) (user : Doc UserField) (member : user ∈ store.users.docs) (password salt : String)

include member

theorem reset_admitted : admits store.users (recoveredRow pkg user password salt) (some user.id) = true := by
  apply admits_in_place store.users user member
  intro path keyed
  cases keyed
  rfl

-- The store with a new password for this user.
def resetStore : Store :=
  { store with
    users := store.users.replace user.id (recoveredRow pkg user password salt)
      (reset_admitted pkg store user member password salt) }

variable (strings : StringQueries pkg) (email : String)

include strings

theorem reset_executed (choice : Choice) (picks : Picks store email user choice) :
    ∃ reply, execute pkg
    (.users (.update .email (.str email) (.apply (overlay (recoveredRow pkg user password salt))))) choice store =
      (.ok reply, resetStore pkg store user member password salt) := by
  obtain ⟨condition, seen, _⟩ := strings email
  obtain ⟨k, rfl, picked⟩ := picks
  refine ⟨⟨1, if sameRow user.row (recoveredRow pkg user password salt) then 0 else 1, 1⟩, ?_⟩
  have ok := reset_admitted pkg store user member password salt
  simp only [execute, exec, seen, holders_matching pkg strings email condition seen, picked, overlay_recovered, dif_pos ok]
  rfl

theorem reset_picks (choice : Choice) (picks : Picks store email user choice) :
    execute pkg (.users (.findOne .email (.str email))) choice (resetStore pkg store user member password salt) =
      (.ok (some ⟨user.id, recoveredRow pkg user password salt⟩), resetStore pkg store user member password salt) := by
  obtain ⟨condition, seen, _⟩ := strings email
  obtain ⟨k, rfl, picked⟩ := picks
  have ok := reset_admitted pkg store user member password salt
  have again : matching (resetStore pkg store user member password salt).users .email condition = _ :=
    matching_in_place store.users user member (recoveredRow pkg user password salt) ok .email condition rfl
  simp only [execute, exec, seen, again, choose_map, holders_matching pkg strings email condition seen, picked,
    Option.map_some, if_true]

end Reset

theorem recovery_served (pkg : Packages) (strings : StringQueries pkg) (req : Request) (store : Store) (email : String)
    (given : req.param "email" = .str email) (accepted : Email (.str email) = .ok true) (user : Doc UserField)
    (member : user ∈ store.users.docs) (choices : Nat → Choice) (picks : ∀ n, Picks store email user (choices n))
    (env : Nat → Ambient) (cell : Body) :
    ∃ reply, alone (server pkg) choices env (recoverForgotPassword pkg req) 0 0 cell store =
      ⟨resetStore pkg store user member (env 0).password (env 1).salt, cell,
        [.said (.send 200 (.api (generate false "reset password successfull" 200 (.reply reply)))),
          .said (.mail (RecoverForgotPassword.mail pkg req
            (recoveredRow pkg user (env 0).password (env 1).salt) (env 0).password)),
          .asked (.users (.update .email (req.param "email")
            (.apply (overlay (recoveredRow pkg user (env 0).password (env 1).salt))))) (.ok reply),
          .asked (.users (.findOne .email (req.param "email"))) (.ok (some user))], false⟩ := by
  have found := lookup_picks pkg strings store email user (choices 0) (picks 0)
  obtain ⟨reply, reset⟩ := reset_executed pkg store user member (env 0).password (env 1).salt strings email (choices 1) (picks 1)
  have hashed : hashPassword pkg (.str (env 0).password) (env 1).salt = .ok (pkg.bcryptHash (env 0).password (env 1).salt) := rfl
  rw [← given] at found reset accepted
  unfold recoveredRow at reset ⊢
  refine ⟨reply, ?_⟩
  simp only [recoverForgotPassword, Promise.finish, Promise.andThen, RecoverForgotPassword.validateUserInput,
    RecoverForgotPassword.findUser,
    RecoverForgotPassword.generateAndSaveNewPassword, UserModel.call, accepted_truthy _ accepted, accepted, if_true, alone, found,
    Option.map_some, when_found_some user.row leanValue _ _ (is_empty_lean user.row), hashed, reset,
    when_found_some reply replyValue _ _ (is_empty_reply reply)]
  rfl

theorem login_rejects (pkg : Packages) (req : Request) (choices : Nat → Choice) (lucky : ∀ n, ∃ k, choices n = .pick k)
    (env : Nat → Ambient) (cell : Body) (store : Store) (user : Doc UserField)
    (found : execute pkg (.users (.findOne .email (req.body.get "email"))) (choices 0) store = (.ok (some user), store))
    (given : Js.truthy (req.body.get "email") = true)
    (wrong : compareHashes pkg (req.body.get "password") (hydrateUser user.row .password) = .ok false) :
    (alone (server pkg) choices env (logInUser pkg req) 0 0 cell store).notes =
      [.said (.send 400 (.api (generate true "wrong password.login failed" 400 .null))),
        .asked (.compare (req.body.get "password") (hydrateUser user.row .password)) (.ok false),
        .asked (.users (.findOne .email (req.body.get "email"))) (.ok (some user))] := by
  obtain ⟨second, compares⟩ := lucky 1
  have compared : execute pkg (.compare (req.body.get "password") (hydrateUser user.row .password)) (.pick second) store =
      (.ok false, store) := by
    rw [execute, wrong]
  simp only [logInUser, Promise.finish, Promise.andThen, LogInUser.findUser, given, if_true, UserModel.call, alone, found,
    when_found_some user documentValue _ _ (is_empty_document user), LogInUser.validatePassword, compares, compared, rejectShared,
    LogInUser.respondError]
  rfl

-- After the reset, a login with this email and a password bcrypt can tell apart.
structure Login (pkg : Packages) (store : Store) (email : String) (user : Doc UserField) (given : String)
    (login : Visit (server pkg)) : Prop where
  unfailing : Unfailing login
  picks : Picks store email user (login.choices 0)
  route : endpointOf login.job = some .logInUser
  address : login.job.body.get "email" = .str email
  secret : login.job.body.get "password" = .str given
  short : given.utf8ByteSize ≤ 72

section Logins

variable (pkg : Packages) (strings : StringQueries pkg) (store : Store) (cell : Body) (email : String)
  (accepted : Email (.str email) = .ok true)
  (user : Doc UserField) (member : user ∈ store.users.docs) (password salt given : String) (short : password.utf8ByteSize ≤ 72)
  (hashes : ComparesHashes pkg) (login : Visit (server pkg)) (attempt : Login pkg store email user given login)

include strings accepted short hashes attempt

theorem new_password_logs_in (nulls : NullQueries pkg) (signs : Signs pkg) (right : given = password) :
    ∃ token, Answers (login.serve cell (resetStore pkg store user member password salt)).notes
      (generate false "login successfull" 200 (.session token (without (hydrateUser user.row) [.password, .createdOn]))) := by
  have found := reset_picks pkg store user member password salt strings email _ attempt.picks
  have verified : compareHashes pkg (.str given) (hydrateUser (recoveredRow pkg user password salt) .password) = .ok true := by
    rw [right]
    exact congrArg Except.ok ((hashes password password salt short short).mpr rfl)
  rw [← attempt.address] at found accepted
  rw [← attempt.secret] at verified
  obtain ⟨condition, seen, _⟩ := owner_query pkg strings nulls (userIdOf (recoveredRow pkg user password salt))
  rw [serve_open pkg login cell _ _ attempt.route rfl]
  obtain ⟨token, answered⟩ :=
    login_answers pkg (requestOf login.job) _ _ cell _ attempt.unfailing _ signs found (accepted_truthy _ accepted) verified
    condition seen
  refine ⟨token, ?_⟩
  have same : without (hydrateUser (recoveredRow pkg user password salt)) [.password, .createdOn] =
      without (hydrateUser user.row) [.password, .createdOn] := by
    funext path
    cases path <;> rfl
  rw [← same]
  exact answered

theorem other_password_is_wrong (wrong : given ≠ password) (response : Response) :
    Answers (login.serve cell (resetStore pkg store user member password salt)).notes response ↔
      response = generate true "wrong password.login failed" 400 .null := by
  have found := reset_picks pkg store user member password salt strings email _ attempt.picks
  have refused : compareHashes pkg (.str given) (hydrateUser (recoveredRow pkg user password salt) .password) = .ok false := by
    apply congrArg Except.ok
    apply Bool.eq_false_iff.mpr
    intro passed
    exact wrong ((hashes password given salt short attempt.short).mp passed)
  rw [← attempt.address] at found accepted
  rw [← attempt.secret] at refused
  rw [serve_open pkg login cell _ _ attempt.route rfl, Answers]
  rw [show (alone _ _ _ (controller pkg (requestOf login.job) none .logInUser) 0 0 cell _).notes = _ from
    login_rejects pkg (requestOf login.job) _ attempt.unfailing _ cell _ _ found (accepted_truthy _ accepted) refused]
  simp

end Logins

theorem recovery_replaces_password (pkg : Packages) (strings : StringQueries pkg) (nulls : NullQueries pkg)
    (hashes : ComparesHashes pkg) (signs : Signs pkg) (store : Store) (cell : Body) (email : String)
    (accepted : Email (.str email) = .ok true) (user : Doc UserField) (visit : Visit (server pkg))
    (route : endpointOf visit.job = some .recoverForgotPassword) (given : (requestOf visit.job).param "email" = .str email)
    (picks : ∀ n, Picks store email user (visit.choices n)) (short : ∀ n, (visit.env n).password.utf8ByteSize ≤ 72)
    (done : Finished (server pkg)) (served : done = visit.serve cell store) :
    ∃ password hash mail, user ∈ store.users.docs ∧ user.row .email = some (.str email) ∧
      done.store.users.docs = rewritten store.users.docs user.id (RecoverForgotPassword.withPassword user.row hash) ∧
      done.store.auths = store.auths ∧ done.store.meetings = store.meetings ∧
      mailsIn done.notes = [mail] ∧ mail.email = some (.str email) ∧
      mail.html = RecoverForgotPassword.html (scalarText pkg (user.row .userName)) password ∧ password.utf8ByteSize ≤ 72 ∧
      ∀ given login, Login pkg store email user given login →
        (given = password → ∃ token, Answers (login.serve done.cell done.store).notes
          (generate false "login successfull" 200 (.session token (without (hydrateUser user.row) [.password, .createdOn])))) ∧
        (given ≠ password → ∀ response, Answers (login.serve done.cell done.store).notes response ↔
          response = generate true "wrong password.login failed" 400 .null) := by
  obtain ⟨member, named⟩ := picks_holder store email user _ (picks 0)
  obtain ⟨reply, reset⟩ :=
    recovery_served pkg strings (requestOf visit.job) store email given accepted user member _ picks visit.env cell
  rw [serve_open pkg visit cell store _ route rfl] at served
  have shape := served.trans reset
  subst shape
  have addressed : (requestOf visit.job).params "email" = some email := by
    cases value : (requestOf visit.job).params "email" <;> simp [Request.param, stringValue, value] at given
    rw [given]
  refine ⟨(visit.env 0).password, _, _, member, named, rfl, rfl, rfl, rfl, ?_, rfl, short 0, ?_⟩
  · simp [RecoverForgotPassword.mail, addressed]
  · intro tried login attempt
    exact ⟨new_password_logs_in pkg strings store _ email accepted user member _ _ tried
      (short 0) hashes login attempt nulls signs,
      other_password_is_wrong pkg strings store _ email accepted user member _ _ tried (short 0) hashes login attempt⟩

def Reference.recovery : Visit (server Reference.packages) := Reference.visit (Reference.recoverRequest "a@b.co") "u2"

def Reference.recovered : Finished (server Reference.packages) := Reference.recovery.serve (.thrown "") Reference.oneUser

theorem reference_recovery_logs_in :
    ∃ password mail token data, mailsIn Reference.recovered.notes = [mail] ∧ mail.email = some (.str "a@b.co") ∧
      Answers ((Reference.visit (logInWith "a@b.co" password) "u2").serve Reference.recovered.cell
        Reference.recovered.store).notes
        (generate false "login successfull" 200 (.session token data)) := by
  have picks : ∀ n, Picks Reference.oneUser "a@b.co" Reference.account (Reference.recovery.choices n) := fun _ => ⟨0, rfl, by rfl⟩
  obtain ⟨password, hash, mail, _, _, _, _, _, mailed, addressed, _, short, logins⟩ :=
    recovery_replaces_password Reference.packages
    reference_string_queries reference_null_queries reference_compares_hashes reference_signs
    Reference.oneUser (.thrown "") "a@b.co"
    (congrArg Except.ok (by decide +kernel)) Reference.account Reference.recovery (by decide +kernel) rfl picks
    (fun _ => show "fresh".utf8ByteSize ≤ 72 by decide) Reference.recovered rfl
  obtain ⟨token, answered⟩ := (logins password (Reference.visit (logInWith "a@b.co" password) "u2")
    ⟨fun _ => ⟨0, rfl⟩, picks 0, rfl, rfl, rfl, short⟩).1 rfl
  exact ⟨password, mail, token, _, mailed, addressed, answered⟩

end Planner
