import PlannerBackend.OnlineList
import PlannerBackend.Provenance
import PlannerBackend.Readouts
import PlannerBackend.Secrecy

set_option autoImplicit false

namespace Planner

open Docs Resume

-- The details of this user stand in an account whose password a login of the
-- run has checked.
def LoggedInAs (known : List HttpRequest) (trace : Trace sig) (details : Row UserField) : Prop :=
  ∃ j http doc, known[j]? = some http ∧ endpointOf http = some .logInUser ∧
    (∀ note ∈ checkedBy (requestOf http) doc, (j, note) ∈ trace) ∧ details = without (hydrateUser doc.row) [.password, .createdOn]

-- The tokens that logins have answered.
def handedOut (trace : Trace sig) : List String :=
  (reportsOf "login successfull" trace).filterMap fun
    | (_, _, .session token _) => token
    | _ => none

theorem handed_reported (trace : Trace sig) (token : String) (handed : token ∈ handedOut trace) :
    ∃ i status details, (i,
      .said (.send status (.api (generate false "login successfull" 200 (.session (some token) details))))) ∈ trace := by
  obtain ⟨⟨i, status, data⟩, member, shows⟩ := List.mem_filterMap.mp handed
  cases data with
  | session given details =>
      cases shows
      exact ⟨i, status, details, mem_reports _ trace i status _ member⟩
  | _ => cases shows

theorem handed_grows (newer older : Trace sig) (token : String) (handed : token ∈ handedOut older) :
    token ∈ handedOut (newer ++ older) := by
  simp only [handedOut, reportsOf, List.filterMap_append] at handed ⊢
  exact List.mem_append_right _ handed

section Logins

variable (pkg : Packages)

-- The document that a login has saved for its session.
def SavedBy (session : LogInUser.Session) (doc : Doc AuthField) (note : Note sig) : Prop :=
  (∃ at_, note = .asked (.auths (.insert (.ok (LogInUser.newAuth session at_)))) (.ok doc)) ∨
    ∃ at_ auth, note = .asked (.auths (.resave auth (LogInUser.tokenPaths session at_))) (.ok doc)

theorem id_value_inj (userId other : Option String)
    (same : (LogInUser.idScalar userId).value = (LogInUser.idScalar other).value) :
    userId = other := by
  cases userId <;> cases other <;> simp_all [LogInUser.idScalar, Scalar.value]

-- What a login has done when it is answered: its account was checked, its auth
-- record looked for, and the record written.
inductive LogsIn (session : LogInUser.Session) (doc : Doc AuthField) (rest : History sig) : History sig → Prop where
  | granted (at_ : Ambient) : LogsIn session doc rest
      (.asked (.auths (.insert (.ok (LogInUser.newAuth session at_)))) (.ok doc) :: lookupByUserId session.userId none :: rest)
  | renewed (at_ : Ambient) (auth : Doc AuthField) : LogsIn session doc rest
      (.asked (.auths (.resave auth (LogInUser.tokenPaths session at_))) (.ok doc) ::
        lookupByUserId session.userId (some auth) :: rest)

theorem login_session (http : HttpRequest) (h : History sig) (response : Response) (token : Option String)
    (details : Row UserField) (success : Success pkg http h response)
    (reported : response = generate false "login successfull" 200 (.session token details)) :
    endpointOf http = some .logInUser ∧ ∃ session rest doc, Issued pkg (requestOf http) rest session ∧
    session.userDetails = details ∧
      token = text (doc.row .authToken) ∧ LogsIn session doc rest h := by
  obtain ⟨effect, writes⟩ := success_done pkg http h response success (by simp [reported, generate])
  cases effect with
  | granted session at_ doc rest route issued =>
      have same : text (doc.row .authToken) = token ∧ session.userDetails = details := by simpa [generate] using reported
      exact ⟨route, session, rest, doc, issued, same.2, same.1.symm, .granted at_⟩
  | renewed session at_ auth doc rest route issued =>
      have same : text (doc.row .authToken) = token ∧ session.userDetails = details := by simpa [generate] using reported
      exact ⟨route, session, rest, doc, issued, same.2, same.1.symm, .renewed at_ auth⟩
  | shown endpoint _ message data route reading clean =>
      rw [writes endpoint route] at reading
      cases reading
  | _ => simp [generate] at reported

theorem logs_in_saved (session : LogInUser.Session) (doc : Doc AuthField) (rest h : History sig)
    (logs : LogsIn session doc rest h) :
    ∃ note found, h = note :: lookupByUserId session.userId found :: rest ∧ SavedBy session doc note := by
  cases logs with
  | granted at_ => exact ⟨_, none, rfl, .inl ⟨at_, rfl⟩⟩
  | renewed at_ auth => exact ⟨_, some auth, rfl, .inr ⟨at_, auth, rfl⟩⟩

variable (labels : List (Label (server pkg))) (store : Store) (cell : Body)

theorem saved_token (i : Nat) (note : Note sig) (noted : (i, note) ∈ (run labels (World.initial (server pkg) store cell)).trace)
    (session : LogInUser.Session) (doc : Doc AuthField) (saved : SavedBy session doc note) :
    text (doc.row .authToken) = some session.tokenDetails.token := by
  rcases saved with ⟨at_, rfl⟩ | ⟨at_, auth, rfl⟩
  · rcases run_asked labels _ i _ _ noted with first | ⟨before, choice, _, _, _, answer⟩
    · cases first
    · have done := auths_executed pkg _ choice (run before _).store _ answer.symm
      obtain ⟨_, _, same, rfl, _⟩ := executed_inserted _ _ _ _ doc done
      cases same
      rfl
  · rcases run_asked labels _ i _ _ noted with first | ⟨before, choice, _, _, _, answer⟩
    · cases first
    · have done := auths_executed pkg _ choice (run before _).store _ answer.symm
      obtain ⟨_, _, _, _, rfl, _⟩ := executed_resaved _ _ _ _ doc _ done
      rfl

-- A token that was handed out is signed for the details of a user who has
-- logged in.
theorem handed_signed (token : String) (handed : token ∈ handedOut (run labels (World.initial (server pkg) store cell)).trace) :
    ∃ details id iat exp, pkg.jwtSign (claimsFor id iat exp details) secretKey = .ok token ∧
      LoggedInAs (jobs (run labels (World.initial (server pkg) store cell)))
      (run labels (World.initial (server pkg) store cell)).trace details := by
  obtain ⟨i, status, details, answered⟩ := handed_reported _ token handed
  obtain ⟨http, past, here, shape, success⟩ := answered_success pkg labels store cell i status _ answered rfl rfl
  obtain ⟨route, session, rest, auth, issued, rfl, given, logs⟩ := login_session pkg http past _ _ _ success rfl
  obtain ⟨note, found, rfl, saved⟩ := logs_in_saved session auth rest past logs
  have noted : ∀ other ∈ note :: lookupByUserId session.userId found :: rest,
      (i, other) ∈ (run labels (World.initial (server pkg) store cell)).trace := by
    intro other member
    rw [← mem_view, shape]
    exact List.mem_cons_of_mem _ member
  rw [saved_token pkg labels store cell i note (noted note List.mem_cons_self) session auth saved] at given
  cases given
  obtain ⟨id, iat, exp, signed⟩ := issued.signed
  obtain ⟨doc, rfl, details⟩ := issued.checked
  exact ⟨session.userDetails, id, iat, exp, signed, i, http, doc, here, route, fun other member =>
      noted other (by simp [member]), details⟩

end Logins

section Sockets

variable (known : Row UserField → Prop)

-- The field of the list and its value name a user whose details are known.
def Vouches (entry : String × String) : Prop :=
  ∃ details, known details ∧ text (details .userId) = some entry.1 ∧ text (details .userName) = some entry.2

def VouchesAll (hash : Hash) : Prop := ∀ entry ∈ hash, Vouches known entry

-- Every user that the socket server stores, is about to store, has been told
-- of or has told clients of is vouched for.
structure Vouched (server : SocketServer) : Prop where
  seated : ∀ socket ∈ server.sockets, ∀ userId, socket.userId = some userId → ∃ details, known details ∧
    text (details .userId) = some userId
  sent : ∀ key value i, .hmset key value i ∈ server.sent → Vouches known (key, value)
  stored : VouchesAll known server.onlineUsersList
  underway : ∀ i hash, .hgetall i (.ok hash) ∈ server.replies → VouchesAll known hash
  heard : ∀ message, Heard server message → ∀ hash, message.payload = .users hash → VouchesAll known hash

theorem vouched_initial : Vouched known .initial := by
  constructor <;> simp [SocketServer.initial, VouchesAll, Heard]

theorem vouches_set (hash : Hash) (key value : String) (all : VouchesAll known hash) (new : Vouches known (key, value)) :
    VouchesAll known (hash.set key value) := by
  intro entry member
  rcases List.mem_append.mp member with old | last
  · exact all entry (List.mem_filter.mp old).1
  · cases List.mem_singleton.mp last
    exact new

theorem vouches_delete (hash : Hash) (key : String) (all : VouchesAll known hash) : VouchesAll known (hash.delete key) :=
  fun entry member => all entry (List.mem_filter.mp member).1

theorem seated_receive (message : Message) (socket : Socket) : (socket.receive message).userId = socket.userId := by
  unfold Socket.receive
  split <;> rfl

theorem Vouched.broadcast {server : SocketServer} (vouched : Vouched known server) (i : Nat) (message : Message)
    (real : ∀ hash, message.payload = .users hash → VouchesAll known hash) : Vouched known (server.broadcast i message) where
  seated := by
    intro socket member userId named
    obtain ⟨j, inside, rfl⟩ := List.mem_mapIdx.mp member
    refine vouched.seated _ (List.getElem_mem inside) userId ?_
    split at named
    · exact named
    · exact (seated_receive message _).symm.trans named
  sent := vouched.sent
  stored := vouched.stored
  underway := vouched.underway
  heard := by
    intro other heard hash shows
    rcases heard_broadcast server i message other heard with rfl | before
    · exact real hash shows
    · exact vouched.heard other before hash shows

-- One socket changes, and what it has received stays.
theorem Vouched.modify {server : SocketServer} (vouched : Vouched known server) (i : Nat) (change : Socket → Socket)
    (received : ∀ socket, (change socket).received = socket.received)
    (named : ∀ socket ∈ server.sockets, ∀ userId, (change socket).userId = some userId → ∃ details, known details ∧
      text (details .userId) = some userId) :
    Vouched known { server with sockets := server.sockets.modify i change } where
  seated := by
    intro socket member userId holds
    rcases mem_modify _ _ _ _ member with before | ⟨old, before, rfl⟩
    · exact vouched.seated socket before userId holds
    · exact named old before userId holds
  sent := vouched.sent
  stored := vouched.stored
  underway := vouched.underway
  heard := fun message heard => vouched.heard message (heard_kept server _ i change rfl received message heard)

theorem Vouched.send {server : SocketServer} (vouched : Vouched known server) (command : RedisCommand)
    (names : ∀ key value i, command = .hmset key value i → Vouches known (key, value)) : Vouched known (server.send command) := by
  refine ⟨vouched.seated, ?_, vouched.stored, vouched.underway, vouched.heard⟩
  intro key value i member
  rcases List.mem_append.mp member with old | new
  · exact vouched.sent key value i old
  · exact names key value i (List.mem_singleton.mp new).symm

theorem vouched_execute (server : SocketServer) (vouched : Vouched known server) (failure : Option String)
    (command : RedisCommand) (rest : List RedisCommand) (queue : server.sent = command :: rest) :
    Vouched known (executeCommand { server with sent := rest } failure command) := by
  have later : ∀ key value i, .hmset key value i ∈ rest → Vouches known (key, value) :=
    fun key value i member => vouched.sent key value i (queue ▸ List.mem_cons_of_mem _ member)
  have answers : ∀ reply : RedisReply, (∀ i hash, reply = .hgetall i (.ok hash) → VouchesAll known hash) →
      ∀ i hash, .hgetall i (.ok hash) ∈ server.replies ++ [reply] → VouchesAll known hash := by
    intro reply real i hash member
    rcases List.mem_append.mp member with old | new
    · exact vouched.underway i hash old
    · exact real i hash (List.mem_singleton.mp new).symm
  cases command with
  | hmset key value i =>
      cases failure with
      | none =>
          have new := vouched.sent key value i (queue ▸ List.mem_cons_self)
          exact ⟨vouched.seated, later, vouches_set known _ key value vouched.stored new, answers _ (by simp), vouched.heard⟩
      | some err => exact ⟨vouched.seated, later, vouched.stored, answers _ (by simp), vouched.heard⟩
  | hgetall i =>
      cases failure with
      | none =>
          refine ⟨vouched.seated, later, vouched.stored, answers _ ?_, vouched.heard⟩
          intro j hash same
          cases same
          exact vouched.stored
      | some err => exact ⟨vouched.seated, later, vouched.stored, answers _ (by simp), vouched.heard⟩
  | hdel key =>
      cases failure with
      | none => exact ⟨vouched.seated, later, vouches_delete known _ key vouched.stored, answers _ (by simp), vouched.heard⟩
      | some err => exact ⟨vouched.seated, later, vouched.stored, answers _ (by simp), vouched.heard⟩

theorem vouched_reply (server : SocketServer) (vouched : Vouched known server) (answer : RedisReply)
    (real : ∀ i hash, answer = .hgetall i (.ok hash) → VouchesAll known hash) : Vouched known (takeReply server answer) := by
  have same : Vouched known { server with crashed := true } :=
    ⟨vouched.seated, vouched.sent, vouched.stored, vouched.underway, vouched.heard⟩
  cases answer with
  | hmset i result =>
      cases result with
      | ok => exact vouched.send known (.hgetall i) (by simp)
      | error => exact vouched
  | hgetall i result =>
      simp only [takeReply]
      split
      · exact same
      · exact vouched
      · next users delivered =>
          cases result with
          | error err => cases delivered
          | ok hash =>
              obtain rfl := delivered_is_stored hash users delivered
              apply vouched.broadcast known i
              intro list shows
              cases shows
              exact real i users rfl
  | hdel result =>
      cases result with
      | ok => exact vouched
      | error => exact same

theorem vouched_step (pkg : Packages) (server : SocketServer) (event : SocketEvent) (vouched : Vouched known server)
    (admitted : ∀ i token now user, event = .setUser i token now →
      verifyClaimWithoutSecret pkg token now = some user → known user.data) :
    Vouched known (socketStep pkg server event) := by
  have moved := step_moved pkg server event
  generalize socketStep pkg server event = next at moved
  cases moved with
  | still => exact vouched
  | joined =>
      refine ⟨?_, vouched.sent, vouched.stored, vouched.underway, ?_⟩
      · intro socket member userId named
        rcases List.mem_append.mp member with old | new
        · exact vouched.seated socket old userId named
        · cases List.mem_singleton.mp new
          cases named
      · rintro message ⟨socket, member, received⟩ hash shows
        rcases List.mem_append.mp member with old | new
        · exact vouched.heard message ⟨socket, old, received⟩ hash shows
        · cases List.mem_singleton.mp new
          cases List.mem_singleton.mp received
          cases shows
  | refused i socket token now here verdict =>
      refine ⟨?_, vouched.sent, vouched.stored, vouched.underway, ?_⟩
      · intro other member userId named
        rcases mem_modify _ _ _ _ member with before | ⟨old, before, rfl⟩
        · exact vouched.seated other before userId named
        · exact vouched.seated old before userId ((seated_receive authError old).symm.trans named)
      · intro message heard hash shows
        rcases heard_emit server i authError message heard with rfl | before
        · cases shows
        · exact vouched.heard message before hash shows
  | verified i socket token now user here verdict =>
      have real := admitted i token now user rfl verdict
      have named : Vouched known (server.identify i (text (user.data .userId))) :=
        vouched.modify known i _ (fun _ => rfl) fun _ _ userId same => ⟨user.data, real, same⟩
      rcases set_split (server.identify i (text (user.data .userId))) (text (user.data .userId))
          (text (user.data .userName)) i with
        ⟨same, _⟩ | ⟨field, name, id, called, same⟩
      · rw [same]
        exact named
      · rw [same]
        apply named.send known
        intro key value j command
        cases command
        exact ⟨user.data, real, id, called⟩
  | toldNew i socket participantId here => exact vouched.broadcast known i _ (by simp)
  | toldUpdate i socket participantId here => exact vouched.broadcast known i _ (by simp)
  | left i socket here =>
      have gone : Vouched known (server.leave i) := vouched.modify known i _ (fun _ => rfl) fun old before userId same =>
          vouched.seated old before userId same
      rcases disconnect_split server i socket with ⟨same, _⟩ | ⟨userId, _, _, same⟩
      · rw [same]
        exact gone
      · rw [same]
        exact (gone.send known (.hdel userId) (by simp)).send known (.hgetall i) (by simp)
  | executed failure command rest running queue => exact vouched_execute known server vouched failure command rest queue
  | replied answer rest running queue =>
      refine vouched_reply known { server with replies := rest }
        ⟨vouched.seated, vouched.sent, vouched.stored, fun i hash member => vouched.underway i hash (by simp [queue, member]),
          vouched.heard⟩ answer ?_
      rintro i hash rfl
      exact vouched.underway i hash (by simp [queue])

theorem vouched_run (pkg : Packages) (events : List SocketEvent) (server : SocketServer) (vouched : Vouched known server)
    (admitted : ∀ i token now user, .setUser i token now ∈ events →
      verifyClaimWithoutSecret pkg token now = some user → known user.data) :
    Vouched known (socketRun pkg events server) := by
  induction events generalizing server with
  | nil => exact vouched
  | cons event rest ih =>
      apply ih
      · apply vouched_step known pkg server event vouched
        rintro i token now user rfl
        exact admitted i token now user List.mem_cons_self
      · exact fun i token now user member => admitted i token now user (List.mem_cons_of_mem _ member)

end Sockets

section Deployed

variable {pkg : Packages}

-- A client shows the socket server no token that verifies but one that a
-- login has answered.
def presentsOwn (deployment : Deployment pkg) : Event pkg → Bool
  | .socket (.setUser _ (.str token) now) =>
    (pkg.jwtVerify token secretKey now).isNone || (handedOut deployment.web.trace).contains token
  | _ => true

def honest : List (Event pkg) → Deployment pkg → Bool
  | [], _ => true
  | event :: rest, deployment => presentsOwn deployment event && honest rest (deployment.step event)

theorem run_handed (events : List (Event pkg)) (deployment : Deployment pkg) (token : String)
    (handed : token ∈ handedOut deployment.web.trace) :
    token ∈ handedOut (deployment.run events).web.trace := by
  obtain ⟨newer, grown⟩ := run_extends (webLabels events) deployment.web
  rw [(deployment_parts events deployment).1, grown]
  exact handed_grows newer _ token handed

theorem honest_presented (events : List (Event pkg)) (deployment : Deployment pkg)
    (own : honest events deployment = true) (i : Nat) (token : Js.Value) (now : Nat) (user : Claims)
    (member : .setUser i token now ∈ socketEvents events) (verdict : verifyClaimWithoutSecret pkg token now = some user) :
    ∃ given, pkg.jwtVerify given secretKey now = some user ∧ given ∈ handedOut (deployment.run events).web.trace := by
  induction events generalizing deployment with
  | nil => cases member
  | cons event rest ih =>
      obtain ⟨here, later⟩ := Bool.and_eq_true_iff.mp own
      cases event with
      | web label => exact ih _ later member
      | socket event =>
          rcases List.mem_cons.mp member with same | others
          · subst same
            cases token with
            | str given =>
                have checked : pkg.jwtVerify given secretKey now = some user := verdict
                have known : given ∈ handedOut deployment.web.trace := by simpa [presentsOwn, checked] using here
                exact ⟨given, checked, run_handed _ deployment given known⟩
            | _ => cases verdict
          · exact ih _ later others

end Deployed

theorem presented_logged_in (pkg : Packages) (undoes : VerifyUndoesSign pkg) (store : Store) (cell : Body)
    (events : List (Event pkg)) (own : honest events ⟨World.initial (server pkg) store cell, SocketServer.initial⟩ = true)
    (i : Nat) (token : Js.Value) (now : Nat) (user : Claims) (member : .setUser i token now ∈ socketEvents events)
    (verdict : verifyClaimWithoutSecret pkg token now = some user) :
    LoggedInAs (jobs (Deployment.run events ⟨World.initial (server pkg) store cell, SocketServer.initial⟩).web)
      (Deployment.run events ⟨World.initial (server pkg) store cell, SocketServer.initial⟩).web.trace user.data := by
  obtain ⟨given, checked, handed⟩ := honest_presented events _ own i token now user member verdict
  rw [(deployment_parts events _).1] at handed ⊢
  obtain ⟨details, id, iat, exp, signed, loggedIn⟩ := handed_signed pkg (webLabels events) store cell given handed
  rw [undoes _ _ _ _ _ signed checked]
  exact loggedIn

-- Who the socket server holds for online, has marked a socket with or has
-- announced to a client is a user whose password a login of the run has
-- checked, whatever requests and socket events interleave.
theorem presence_rests_on_login (pkg : Packages) (undoes : VerifyUndoesSign pkg) (store : Store) (cell : Body)
    (events : List (Event pkg)) (own : honest events ⟨World.initial (server pkg) store cell, SocketServer.initial⟩ = true)
    (deployment : Deployment pkg)
    (reached : deployment = Deployment.run events ⟨World.initial (server pkg) store cell, SocketServer.initial⟩) :
    (∀ entry ∈ deployment.sockets.onlineUsersList, Vouches (LoggedInAs (jobs deployment.web) deployment.web.trace) entry) ∧
    (∀ message hash, Heard deployment.sockets message → message.payload = .users hash →
      ∀ entry ∈ hash, Vouches (LoggedInAs (jobs deployment.web) deployment.web.trace) entry) ∧
    ∀ socket ∈ deployment.sockets.sockets, ∀ userId, socket.userId = some userId →
      ∃ details, LoggedInAs (jobs deployment.web) deployment.web.trace details ∧ text (details .userId) = some userId := by
  subst reached
  have vouched : Vouched
      (LoggedInAs (jobs (Deployment.run events ⟨World.initial (server pkg) store cell, SocketServer.initial⟩).web)
      (Deployment.run events ⟨World.initial (server pkg) store cell, SocketServer.initial⟩).web.trace)
      (Deployment.run events ⟨World.initial (server pkg) store cell, SocketServer.initial⟩).sockets := by
    rw [(deployment_parts events _).2]
    apply vouched_run _ pkg (socketEvents events) _ (vouched_initial _)
    exact presented_logged_in pkg undoes store cell events own
  exact ⟨vouched.stored, fun message hash heard shows => vouched.heard message heard hash shows, vouched.seated⟩

-- A login, and its token shown by the first of two sockets.
def Reference.online : List (Event Reference.packages) :=
  (.start Reference.logInRequest (Reference.ambient 5000) :: Reference.turns 0 8 5000).map .web ++
    [.socket .connection, .socket .connection, .socket (.setUser 0 (.str (Reference.tokenAt 5000)) 6000)] ++
    (Reference.redisTurns 2).map .socket

theorem reference_presence_rests_on_login :
    ∃ deployment, deployment =
    Deployment.run Reference.online ⟨World.initial (server Reference.packages) Reference.oneUser (.thrown ""), .initial⟩ ∧
      Vouches (LoggedInAs (jobs deployment.web) deployment.web.trace) ("u1", "") := by
  have facts : honest Reference.online
      ⟨World.initial (server Reference.packages) Reference.oneUser (.thrown ""), .initial⟩ = true ∧
      ("u1", "") ∈ (Deployment.run Reference.online
          ⟨World.initial (server Reference.packages) Reference.oneUser (.thrown ""), .initial⟩).sockets.onlineUsersList := by
    decide +kernel
  exact ⟨_, rfl, (presence_rests_on_login Reference.packages reference_verify_undoes_sign Reference.oneUser
    (.thrown "") Reference.online facts.1
    _ rfl).1 _ facts.2⟩

end Planner
