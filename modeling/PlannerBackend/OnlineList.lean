import PlannerBackend.OnlineUsers

set_option autoImplicit false

namespace Planner

open Docs Pipeline

-- Clients name the event of the broadcast that these two handlers send.
def Unforged : SocketEvent → Prop
  | .newMeeting _ participantId => participantId ≠ "online-user-list"
  | .updateInfo _ participantId => participantId ≠ "online-user-list"
  | _ => True

theorem delivered_is_stored (hash users : Hash) (delivered : getAllUsersInAHash (.ok hash) = .ok (.ok users)) : users = hash := by
  by_cases shadowed : "toString" ∈ hash.fields
  · rw [get_all_users_throws hash shadowed] at delivered
    cases delivered
  · rw [get_all_users_delivers hash shadowed] at delivered
    cases delivered
    rfl

def Heard (server : SocketServer) (message : Message) : Prop := ∃ socket ∈ server.sockets, message ∈ socket.received

theorem received_cases (message : Message) (socket : Socket) (other : Message)
    (member : other ∈ (socket.receive message).received) :
    other = message ∨ other ∈ socket.received := by
  unfold Socket.receive at member
  split at member
  · exact List.mem_cons.mp member
  · exact .inr member

theorem heard_broadcast (server : SocketServer) (i : Nat) (message other : Message)
    (heard : Heard (server.broadcast i message) other) :
    other = message ∨ Heard server other := by
  obtain ⟨socket, member, received⟩ := heard
  obtain ⟨j, inside, rfl⟩ := List.mem_mapIdx.mp member
  have old := List.getElem_mem inside
  split at received
  · exact .inr ⟨_, old, received⟩
  · rcases received_cases _ _ _ received with new | before
    · exact .inl new
    · exact .inr ⟨_, old, before⟩

theorem mem_modify (sockets : List Socket) (i : Nat) (change : Socket → Socket) (socket : Socket)
    (member : socket ∈ sockets.modify i change) :
    socket ∈ sockets ∨ ∃ old ∈ sockets, socket = change old := by
  obtain ⟨j, found⟩ := List.mem_iff_getElem?.mp member
  rw [List.getElem?_modify] at found
  obtain ⟨old, here, same⟩ := Option.map_eq_some_iff.mp found
  have before := List.mem_of_getElem? here
  split at same
  · exact .inr ⟨old, before, same.symm⟩
  · exact .inl (same ▸ before)

theorem heard_emit (server : SocketServer) (i : Nat) (message other : Message) (heard : Heard (server.emit i message) other) :
    other = message ∨ Heard server other := by
  obtain ⟨socket, member, received⟩ := heard
  rcases mem_modify _ _ _ _ member with before | ⟨old, before, rfl⟩
  · exact .inr ⟨socket, before, received⟩
  · rcases received_cases _ _ _ received with new | older
    · exact .inl new
    · exact .inr ⟨old, before, older⟩

theorem heard_kept (server next : SocketServer) (i : Nat) (change : Socket → Socket)
    (moved : next.sockets = server.sockets.modify i change) (kept : ∀ socket, (change socket).received = socket.received)
    (message : Message) (heard : Heard next message) : Heard server message := by
  obtain ⟨socket, member, received⟩ := heard
  rw [moved] at member
  rcases mem_modify _ _ _ _ member with before | ⟨old, before, rfl⟩
  · exact ⟨socket, before, received⟩
  · exact ⟨old, before, kept old ▸ received⟩

-- The lists that are stored, under way and received are among those of the past.
structure Backed (past : Hash → Prop) (server : SocketServer) : Prop where
  stored : past server.onlineUsersList
  underway : ∀ i hash, .hgetall i (.ok hash) ∈ server.replies → past hash
  heard : ∀ message, Heard server message → message.event = "online-user-list" → ∃ hash, message.payload = .users hash ∧ past hash

theorem Backed.weaken {past wider : Hash → Prop} {server : SocketServer} (backed : Backed past server)
    (more : ∀ hash, past hash → wider hash) :
    Backed wider server where
  stored := more _ backed.stored
  underway := fun i hash member => more hash (backed.underway i hash member)
  heard := by
    intro message heard named
    obtain ⟨hash, payload, real⟩ := backed.heard message heard named
    exact ⟨hash, payload, more hash real⟩

theorem Backed.carry {past : Hash → Prop} {server next : SocketServer} (backed : Backed past server)
    (list : next.onlineUsersList = server.onlineUsersList) (replies : next.replies = server.replies)
    (heard : ∀ message, Heard next message → message.event = "online-user-list" → Heard server message) : Backed past next where
  stored := list ▸ backed.stored
  underway := replies ▸ backed.underway
  heard := fun message now named => backed.heard message (heard message now named) named

theorem backed_execute (past : Hash → Prop) (server : SocketServer) (backed : Backed past server) (failure : Option String)
    (command : RedisCommand) (rest : List RedisCommand) :
    let next := executeCommand { server with sent := rest } failure command
    Backed (fun hash => past hash ∨ hash = next.onlineUsersList) next := by
  have answered : (∀ i hash, .hgetall i (.ok hash) ∈
      (executeCommand { server with sent := rest } failure command).replies → past hash) ∧
      (executeCommand { server with sent := rest } failure command).sockets = server.sockets := by
    refine ⟨?_, by cases command <;> cases failure <;> rfl⟩
    intro i hash member
    cases command <;> cases failure <;> rcases List.mem_append.mp member with old | new
    all_goals first
      | exact backed.underway i hash old
      | cases List.mem_singleton.mp new
    exact backed.stored
  refine ⟨.inr rfl, fun i hash member => .inl (answered.1 i hash member), ?_⟩
  intro message heard named
  rw [Heard, answered.2] at heard
  obtain ⟨hash, payload, real⟩ := backed.heard message heard named
  exact ⟨hash, payload, .inl real⟩

theorem backed_broadcast (past : Hash → Prop) (server : SocketServer) (backed : Backed past server) (i : Nat) (message : Message)
    (real : message.event = "online-user-list" → ∃ hash, message.payload = .users hash ∧ past hash) :
    Backed past (server.broadcast i message) where
  stored := backed.stored
  underway := backed.underway
  heard := by
    intro other heard named
    rcases heard_broadcast server i message other heard with rfl | before
    · exact real named
    · exact backed.heard other before named

theorem backed_reply (past : Hash → Prop) (server : SocketServer) (backed : Backed past server) (answer : RedisReply)
    (real : ∀ i hash, answer = .hgetall i (.ok hash) → past hash) : Backed past (takeReply server answer) := by
  have same : Backed past { server with crashed := true } := ⟨backed.stored, backed.underway, backed.heard⟩
  cases answer with
  | hmset i result =>
      cases result with
      | ok => exact ⟨backed.stored, backed.underway, backed.heard⟩
      | error => exact backed
  | hgetall i result =>
      simp only [takeReply]
      split
      · exact same
      · exact backed
      · next users delivered =>
          cases result with
          | error err => cases delivered
          | ok hash =>
              obtain rfl := delivered_is_stored hash users delivered
              exact backed_broadcast past server backed i _ fun _ => ⟨users, rfl, real i users rfl⟩
  | hdel result =>
      cases result with
      | ok => exact backed
      | error => exact same

-- Neither handler touches the hash or what Redis has answered.
theorem set_kept (server : SocketServer) (key value : Option String) (i : Nat) :
    (server.setANewOnlineUserInHash key value i).onlineUsersList = server.onlineUsersList ∧
      (server.setANewOnlineUserInHash key value i).replies = server.replies := by
  rcases set_split server key value i with ⟨same, _⟩ | ⟨field, name, _, _, same⟩ <;> rw [same] <;> exact ⟨rfl, rfl⟩

theorem disconnect_kept (server : SocketServer) (i : Nat) (socket : Socket) :
    (disconnect server i socket).sockets = (server.leave i).sockets ∧ (disconnect server i socket).onlineUsersList =
    server.onlineUsersList ∧
      (disconnect server i socket).replies = server.replies := by
  rcases disconnect_split server i socket with ⟨same, _⟩ | ⟨userId, _, _, same⟩ <;> rw [same] <;> exact ⟨rfl, rfl, rfl⟩

theorem backed_step (pkg : Packages) (past : Hash → Prop) (server : SocketServer) (event : SocketEvent)
    (unforged : Unforged event) (backed : Backed past server) :
    Backed (fun hash => past hash ∨ hash = (socketStep pkg server event).onlineUsersList) (socketStep pkg server event) := by
  have moved := step_moved pkg server event
  generalize socketStep pkg server event = next at moved
  have carried : Backed past next → Backed (fun hash => past hash ∨ hash = next.onlineUsersList) next :=
    fun same => same.weaken fun _ => .inl
  cases moved with
  | still => exact carried backed
  | joined =>
      apply carried
      refine backed.carry rfl rfl ?_
      rintro message ⟨socket, member, received⟩ named
      rcases List.mem_append.mp member with old | new
      · exact ⟨socket, old, received⟩
      · cases List.mem_singleton.mp new
        cases List.mem_singleton.mp received
        exact absurd named (by decide)
  | refused i socket token now here verdict =>
      apply carried
      refine backed.carry rfl rfl ?_
      intro message heard named
      rcases heard_emit server i authError message heard with rfl | before
      · exact absurd named (by decide)
      · exact before
  | verified i socket token now user here verdict =>
      apply carried
      have kept := set_kept (server.identify i (text (user.data .userId))) (text (user.data .userId))
        (text (user.data .userName)) i
      refine backed.carry kept.1 kept.2 ?_
      intro message heard _
      exact heard_kept server _ i _ (set_sends_nothing (server.identify i _) _ _ i) (fun _ => rfl) message heard
  | toldNew i socket participantId here | toldUpdate i socket participantId here =>
      exact carried (backed_broadcast past server backed i _ fun same => absurd same unforged)
  | left i socket here =>
      apply carried
      obtain ⟨sockets, list, replies⟩ := disconnect_kept server i socket
      exact backed.carry list replies fun message heard _ => heard_kept server _ i _ sockets (fun _ => rfl) message heard
  | executed failure command rest _ queue => exact backed_execute past server backed failure command rest
  | replied answer rest _ queue =>
      apply carried
      refine backed_reply past { server with replies := rest } ⟨backed.stored, ?_, backed.heard⟩ answer ?_
      · intro i hash member
        exact backed.underway i hash (by simp [queue, member])
      · rintro i hash rfl
        exact backed.underway i hash (by simp [queue])

theorem backed_run (pkg : Packages) (events : List SocketEvent) (unforged : ∀ event ∈ events, Unforged event) (past : Hash → Prop)
    (server : SocketServer) (backed : Backed past server) :
    Backed (fun hash => past hash ∨ ∃ earlier later, events = earlier ++ later ∧
      hash = (socketRun pkg earlier server).onlineUsersList)
      (socketRun pkg events server) := by
  induction events generalizing past server with
  | nil => exact backed.weaken fun _ => .inl
  | cons event rest ih =>
      have stepped := backed_step pkg past server event (unforged event List.mem_cons_self) backed
      refine (ih (fun other member => unforged other (List.mem_cons_of_mem _ member)) _ _ stepped).weaken ?_
      rintro hash ((before | rfl) | ⟨earlier, later, rfl, rfl⟩)
      · exact .inl before
      · exact .inr ⟨[event], rest, rfl, rfl⟩
      · exact .inr ⟨event :: earlier, later, rfl, rfl⟩

theorem unforged_lists_were_stored (pkg : Packages) (hash : Hash) (events : List SocketEvent)
    (unforged : ∀ event ∈ events, Unforged event) (i : Nat) (socket : Socket)
    (here : (socketRun pkg events (.starting hash)).sockets[i]? = some socket) (message : Message)
    (received : message ∈ socket.received) (named : message.event = "online-user-list") :
    ∃ earlier later, events = earlier ++ later ∧
    message.payload = .users (socketRun pkg earlier (.starting hash)).onlineUsersList := by
  have backed : Backed (fun list => list = hash) (.starting hash) := by
    refine ⟨rfl, ?_, ?_⟩
    · intro i list member
      cases member
    · rintro message ⟨socket, member, _⟩
      cases member
  obtain ⟨list, payload, real⟩ :=
    (backed_run pkg events unforged _ _ backed).heard message ⟨socket, List.mem_of_getElem? here, received⟩ named
  rcases real with rfl | ⟨earlier, later, split, rfl⟩
  · exact ⟨[], events, rfl, payload⟩
  · exact ⟨earlier, later, split, payload⟩

theorem reference_list_was_stored :
    ∃ earlier later, Reference.twoOnline "u" "v" = earlier ++ later ∧
      Payload.users [("u", "u")] = .users (socketRun Reference.packages earlier (.starting [])).onlineUsersList := by
  have facts : ((socketRun Reference.packages (Reference.twoOnline "u" "v") (.starting [])).sockets[0]?.any fun socket =>
      decide (⟨"online-user-list", .users [("u", "u")]⟩ ∈ socket.received)) = true := by decide +kernel
  obtain ⟨socket, here, received⟩ := (Option.any_eq_true _ _).mp facts
  exact unforged_lists_were_stored Reference.packages [] (Reference.twoOnline "u" "v")
    (by simp [Reference.twoOnline, Reference.redisTurns, Unforged]) 0 socket here _ (of_decide_eq_true received) rfl

-- A client that has proved nothing names the event itself.
theorem named_event_forges_list :
    let events := [.connection, .connection, .newMeeting 0 "online-user-list"]
    ((socketRun Reference.packages events .initial).sockets[1]?.map Socket.received) =
      some [⟨"online-user-list", .text "New meeting is created"⟩, ⟨"verifyUser", .text ""⟩] := by
  decide +kernel

def lastList (socket : Socket) : Option Payload :=
  (socket.received.find? fun message => message.event == "online-user-list").map Message.payload

def listHeard (server : SocketServer) (s : Nat) : Option Payload := server.sockets[s]?.bind lastList

-- The socket whose event sends HMSET or HDEL.
def writer (pkg : Packages) (server : SocketServer) (event : SocketEvent) : Option Nat :=
  match event with
  | .setUser i _ _ | .disconnect i => if server.sent.length < (socketStep pkg server event).sent.length then some i else none
  | _ => none

theorem last_list_receive (message : Message) (socket : Socket) (other : message.event ≠ "online-user-list") :
    lastList (socket.receive message) = lastList socket := by
  unfold Socket.receive
  split
  · simp [lastList, other]
  · rfl

theorem list_heard_modify (server next : SocketServer) (i : Nat) (change : Socket → Socket)
    (moved : next.sockets = server.sockets.modify i change) (kept : ∀ socket, lastList (change socket) = lastList socket)
    (s : Nat) : listHeard next s = listHeard server s := by
  rw [listHeard, moved, List.getElem?_modify, listHeard]
  cases server.sockets[s]? with
  | none => rfl
  | some socket => by_cases own : i = s <;> simp [own, kept]

theorem list_heard_identify (server : SocketServer) (i : Nat) (userId : Option String) (s : Nat) :
    listHeard (server.identify i userId) s = listHeard server s :=
  list_heard_modify server _ i (fun socket => { socket with userId := userId }) rfl (fun _ => rfl) s

theorem list_heard_leave (server : SocketServer) (i s : Nat) : listHeard (server.leave i) s = listHeard server s :=
  list_heard_modify server _ i (fun socket => { socket with connected := false }) rfl (fun _ => rfl) s

theorem list_heard_other (server : SocketServer) (i : Nat) (message : Message)
    (other : message.event ≠ "online-user-list") (s : Nat) :
    listHeard (server.broadcast i message) s = listHeard server s := by
  simp only [listHeard, SocketServer.broadcast, List.getElem?_mapIdx]
  cases server.sockets[s]? with
  | none => rfl
  | some socket => by_cases own : s = i <;> simp [own, last_list_receive message socket other]

theorem list_heard_own (server : SocketServer) (i : Nat) (message : Message) :
    listHeard (server.broadcast i message) i = listHeard server i := by
  simp only [listHeard, SocketServer.broadcast, List.getElem?_mapIdx]
  cases server.sockets[i]? <;> simp

theorem list_heard_users (server : SocketServer) (i s : Nat) (users : Hash) (other : s ≠ i) (userId : Option String)
    (online : seat server s = some (true, userId)) :
    listHeard (server.broadcast i ⟨"online-user-list", .users users⟩) s = some (.users users) := by
  obtain ⟨socket, here, same⟩ := Option.map_eq_some_iff.mp online
  simp [listHeard, SocketServer.broadcast, List.getElem?_mapIdx, here, other, Socket.receive, (Prod.mk.inj same).1, lastList]

-- An entry of the pipeline that makes p broadcast the final list, and one that
-- cannot bring an older list.
def Announces (p : Nat) (final : Hash) : Item RedisCommand RedisReply → Prop
  | .answered (.hmset i (.ok _)) => i = p
  | .answered (.hgetall i (.ok hash)) => i = p ∧ hash = final
  | .answered _ => False
  | .waiting (.hmset _ _ i) => i = p
  | .waiting (.hgetall i) => i = p
  | .waiting (.hdel _) => False

def UpToDate (final : Hash) : Item RedisCommand RedisReply → Prop
  | .answered (.hgetall _ (.ok hash)) => hash = final
  | .answered _ => True
  | .waiting (.hgetall _) => True
  | .waiting _ => False

-- Either s has the final list and nothing older is on its way, or p is going
-- to broadcast it after everything older.
structure Converging (p s : Nat) (final : Hash) (server : SocketServer) : Prop where
  eventually : eventualList server = final
  heard : (listHeard server s = some (.users final) ∧ ∀ item ∈ line server.replies server.sent, UpToDate final item) ∨
    Ends (Announces p final) (UpToDate final) (line server.replies server.sent)

theorem up_to_date_waiting (final : Hash) (sent : List RedisCommand)
    (fresh : ∀ item ∈ sent.map Item.waiting, UpToDate final item) (hash : Hash) :
    eventual RedisCommand.apply hash sent = hash := by
  apply eventual_unchanged
  intro command member other
  have behind := fresh (.waiting command) (List.mem_map_of_mem member)
  cases command with
  | hgetall i => rfl
  | hmset key value i => cases behind
  | hdel key => cases behind

theorem converging_same (p s : Nat) (final : Hash) (server next : SocketServer) (sent : next.sent = server.sent)
    (replies : next.replies = server.replies) (list : next.onlineUsersList = server.onlineUsersList)
    (heard : listHeard next s = listHeard server s) (converging : Converging p s final server) : Converging p s final next where
  eventually := by
    rw [eventualList, list, sent]
    exact converging.eventually
  heard := by
    rw [sent, replies, heard]
    exact converging.heard

theorem converging_execute (p s : Nat) (final : Hash) (server : SocketServer) (command : RedisCommand) (rest : List RedisCommand)
    (queue : server.sent = command :: rest) (converging : Converging p s final server) :
    Converging p s final (executeCommand { server with sent := rest } none command) := by
  obtain ⟨eventually, heard⟩ := converging
  rw [execute_succeeds]
  have after : eventual RedisCommand.apply (command.apply server.onlineUsersList) rest = final := by
    rw [← eventually, eventualList, queue]
    rfl
  -- With no write behind it, an HGETALL is answered with the final list.
  have refreshes : (∀ item ∈ rest.map .waiting, UpToDate final item) → UpToDate final (.waiting command) →
      UpToDate final (.answered (command.answer server.onlineUsersList)) := by
    intro behind fresh
    cases command with
    | hgetall i => exact (up_to_date_waiting final rest behind _).symm.trans after
    | hmset key value i => cases fresh
    | hdel key => cases fresh
  have announces : (∀ item ∈ rest.map .waiting, UpToDate final item) → Announces p final (.waiting command) →
      Announces p final (.answered (command.answer server.onlineUsersList)) := by
    intro behind announced
    cases command with
    | hgetall i => exact ⟨announced, (up_to_date_waiting final rest behind _).symm.trans after⟩
    | hmset key value i => exact announced
    | hdel key => cases announced
  refine ⟨after, ?_⟩
  rw [queue, line_waiting] at heard
  rw [line_answered]
  rcases heard with ⟨heard, fresh⟩ | ends
  · refine .inl ⟨heard, ?_⟩
    intro item member
    rcases List.mem_append.mp member with old | member
    · exact fresh item (List.mem_append_left _ old)
    · have behind : ∀ other ∈ rest.map .waiting, UpToDate final other := fun other inside => fresh other (by simp [inside])
      rcases List.mem_cons.mp member with rfl | later
      · exact refreshes behind (fresh _ (by simp))
      · exact behind item later
  · exact .inr (ends_replace _ _ _ _ _ _ announces refreshes ends)

theorem converging_broadcast (p s : Nat) (final : Hash) (server : SocketServer) (i : Nat) (users : Hash) (rest : List RedisReply)
    (queue : server.replies = .hgetall i (.ok users) :: rest) (apart : s ≠ p) (userId : Option String)
    (online : seat server s = some (true, userId)) (converging : Converging p s final server) :
    Converging p s final ({ server with replies := rest }.broadcast i ⟨"online-user-list", .users users⟩) := by
  obtain ⟨eventually, heard⟩ := converging
  refine ⟨eventually, ?_⟩
  rw [queue] at heard
  have told : s ≠ i → listHeard ({ server with replies := rest }.broadcast i ⟨"online-user-list", .users users⟩) s =
      some (.users users) :=
    fun other => list_heard_users { server with replies := rest } i s users other userId online
  rcases heard with ⟨heard, fresh⟩ | ⟨⟨rfl, rfl⟩, behind⟩ | later
  · refine .inl ⟨?_, fun item member => fresh item (List.mem_cons_of_mem _ member)⟩
    by_cases own : s = i
    · subst own
      exact (list_heard_own { server with replies := rest } s _).trans heard
    · rw [told own, show users = final from fresh _ List.mem_cons_self]
  · exact .inl ⟨told apart, behind⟩
  · exact .inr later

theorem converging_reply (p s : Nat) (final : Hash) (server : SocketServer) (answer : RedisReply) (rest : List RedisReply)
    (queue : server.replies = answer :: rest) (apart : s ≠ p) (userId : Option String)
    (online : seat server s = some (true, userId)) (running : (takeReply { server with replies := rest } answer).crashed = false)
    (converging : Converging p s final server) :
    Converging p s final (takeReply { server with replies := rest } answer) := by
  have dropped : ¬ Announces p final (.answered answer) → Converging p s final { server with replies := rest } := by
    intro silent
    obtain ⟨eventually, heard⟩ := converging
    rw [queue] at heard
    rcases heard with ⟨heard, fresh⟩ | ⟨announced, _⟩ | later
    · exact ⟨eventually, .inl ⟨heard, fun item member => fresh item (List.mem_cons_of_mem _ member)⟩⟩
    · exact absurd announced silent
    · exact ⟨eventually, .inr later⟩
  cases answer with
  | hmset i result =>
      cases result with
      | error err => exact dropped id
      | ok =>
          obtain ⟨eventually, heard⟩ := converging
          refine ⟨(eventual_send _ _ _ _).trans eventually, ?_⟩
          rw [queue] at heard
          change (_ ∧ ∀ item ∈ line rest (server.sent ++ [.hgetall i]), _) ∨ Ends _ _ (line rest (server.sent ++ [.hgetall i]))
          rw [line_send]
          rcases heard with ⟨heard, fresh⟩ | ⟨rfl, _⟩ | later
          · refine .inl ⟨heard, ?_⟩
            intro item member
            rcases List.mem_append.mp member with old | new
            · exact fresh item (List.mem_cons_of_mem _ old)
            · cases List.mem_singleton.mp new
              trivial
          · exact .inr (ends_last _ _ _ _ rfl)
          · exact .inr (ends_append _ _ _ _ trivial later)
  | hgetall i result =>
      cases result with
      | error err => exact dropped id
      | ok hash =>
          by_cases shadowed : "toString" ∈ hash.fields
          · simp only [takeReply, get_all_users_throws hash shadowed] at running
            cases running
          · simp only [takeReply, get_all_users_delivers hash shadowed]
            exact converging_broadcast p s final server i hash rest queue apart userId online converging
  | hdel result =>
      cases result with
      | ok => exact dropped id
      | error err => cases running

theorem converging_step (pkg : Packages) (p s : Nat) (final : Hash) (server : SocketServer) (event : SocketEvent)
    (errorless : ¬ Failing event) (unforged : Unforged event) (unwritten : writer pkg server event = none) (apart : s ≠ p)
    (socket : Socket) (here : Connected server s socket) (running : (socketStep pkg server event).crashed = false)
    (converging : Converging p s final server) : Converging p s final (socketStep pkg server event) := by
  have online := connected_seat server s socket here
  have moved := step_moved pkg server event
  generalize stepped : socketStep pkg server event = next at moved running
  have same := converging_same p s final server next
  cases moved with
  | still => exact converging
  | joined =>
      refine same rfl rfl rfl ?_ converging
      have known : s < server.sockets.length := (List.getElem?_eq_some_iff.mp here.2.1).1
      simp only [listHeard, List.getElem?_append_left known]
  | refused i other token now _ verdict =>
      exact same rfl rfl rfl
        (list_heard_modify server _ i _ rfl (fun socket => last_list_receive authError socket (by decide)) s) converging
  | verified i other token now user _ verdict =>
      rcases set_split (server.identify i (text (user.data .userId))) (text (user.data .userId))
          (text (user.data .userName)) i with
        ⟨set, _⟩ | ⟨key, value, _, _, set⟩
      · rw [set] at same ⊢
        exact same rfl rfl rfl (list_heard_identify server i _ s) converging
      · simp only [writer, stepped, set] at unwritten
        simp [SocketServer.send, SocketServer.identify] at unwritten
  | toldNew i other participantId _ | toldUpdate i other participantId _ =>
      exact same rfl rfl rfl (list_heard_other server i ⟨participantId, .text _⟩ unforged s) converging
  | left i other _ =>
      rcases disconnect_split server i other with ⟨left, _⟩ | ⟨userId, _, _, left⟩
      · rw [left] at same ⊢
        exact same rfl rfl rfl (list_heard_leave server i s) converging
      · simp only [writer, stepped, left] at unwritten
        simp [SocketServer.send, SocketServer.leave] at unwritten
  | executed failure command rest _ queue =>
      cases failure with
      | some message => exact absurd trivial errorless
      | none => exact converging_execute p s final server command rest queue converging
  | replied answer rest _ queue =>
      exact converging_reply p s final server answer rest queue apart socket.userId online running converging

theorem seat_unknown (server : SocketServer) : seat server server.sockets.length = none := by
  simp [seat]

-- A socket that has been seen stays known, and does not come back once it has left.
theorem seat_stays_known (pkg : Packages) (server : SocketServer) (event : SocketEvent) (errorless : ¬ Failing event) (s : Nat)
    (known : seat server s ≠ none) : seat (socketStep pkg server event) s ≠ none := by
  have attended := step_attended pkg server event errorless
  generalize socketStep pkg server event = next at attended
  cases attended with
  | same _ _ seats _ => rwa [seats]
  | joined _ seats _ | verified _ _ _ _ _ _ _ _ seats _ | left _ _ _ _ seats _ =>
      rw [seats]
      split
      · simp
      · exact known

theorem connected_before (pkg : Packages) (server : SocketServer) (event : SocketEvent) (errorless : ¬ Failing event) (s : Nat)
    (known : seat server s ≠ none) (socket : Socket) (here : Connected (socketStep pkg server event) s socket) :
    ∃ earlier, Connected server s earlier := by
  have running : server.crashed = false := by
    apply Bool.eq_false_iff.mpr
    intro crashed
    have ended : socketStep pkg server event = server := if_pos crashed
    have alive := here.1
    rw [ended, crashed] at alive
    cases alive
  have online := connected_seat _ s socket here
  have attended := step_attended pkg server event errorless
  generalize socketStep pkg server event = next at attended online
  have seated : ∃ userId, seat server s = some (true, userId) := by
    cases attended with
    | same _ _ seats _ => exact ⟨_, (seats s).symm.trans online⟩
    | joined _ seats _ =>
        have old : s ≠ server.sockets.length := by
          rintro rfl
          exact known (seat_unknown server)
        rw [seats, if_neg old] at online
        exact ⟨_, online⟩
    | verified i other token now user _ was _ seats _ =>
        rw [seats] at online
        split at online
        · next own => exact ⟨_, own ▸ connected_seat server i other was⟩
        · exact ⟨_, online⟩
    | left i other _ _ seats _ =>
        rw [seats] at online
        split at online
        · cases online
        · exact ⟨_, online⟩
  obtain ⟨userId, seated⟩ := seated
  obtain ⟨earlier, was, _⟩ := seated_connected server s userId running seated
  exact ⟨earlier, was⟩

-- Right after the write, its answer or the HGETALL sent with it stands last.
theorem writer_announces (pkg : Packages) (server : SocketServer) (event : SocketEvent) (p s : Nat)
    (wrote : writer pkg server event = some p) :
    Converging p s (eventualList (socketStep pkg server event)) (socketStep pkg server event) := by
  refine ⟨rfl, .inr ?_⟩
  have moved := step_moved pkg server event
  generalize eventualList (socketStep pkg server event) = final
  generalize stepped : socketStep pkg server event = next at moved
  cases moved with
  | still =>
      cases event <;> simp [writer, stepped] at wrote
  | joined | toldNew | toldUpdate | executed | replied => cases wrote
  | refused i other token now _ verdict => simp [writer, stepped, SocketServer.emit] at wrote
  | verified i other token now user _ verdict =>
      rcases set_split (server.identify i (text (user.data .userId))) (text (user.data .userId))
          (text (user.data .userName)) i with
        ⟨set, _⟩ | ⟨key, value, _, _, set⟩
      · simp only [writer, stepped, set] at wrote
        simp [SocketServer.identify] at wrote
      · simp only [writer, stepped, set] at wrote
        simp only [SocketServer.send, SocketServer.identify, List.length_append, List.length_singleton,
          Nat.lt_succ_self, if_true] at wrote
        rw [set]
        exact (line_send _ _ _).symm ▸ ends_last _ _ _ _ (Option.some.inj wrote)
  | left i other _ =>
      rcases disconnect_split server i other with ⟨left, _⟩ | ⟨userId, _, _, left⟩
      · simp only [writer, stepped, left] at wrote
        simp [SocketServer.leave] at wrote
      · have own : i = p := by
          simp only [writer, stepped, left] at wrote
          simpa [SocketServer.send, SocketServer.leave] using wrote
        rw [left]
        exact (line_send _ _ _).symm ▸ ends_last _ _ _ _ own

theorem others_converge (pkg : Packages) (hash : Hash) (earlier later : List SocketEvent) (event : SocketEvent)
    (errorless : ∀ other ∈ earlier ++ event :: later, ¬ Failing other)
    (unforged : ∀ other ∈ earlier ++ event :: later, Unforged other) (before : SocketServer)
    (reached : before = socketRun pkg earlier (.starting hash)) (p : Nat) (wrote : writer pkg before event = some p)
    (last : Along pkg (fun server other => writer pkg server other = none) later (socketStep pkg before event))
    (server : SocketServer) (ended : server = socketRun pkg (earlier ++ event :: later) (.starting hash)) (idle : Idle server)
    (s : Nat) (apart : s ≠ p) (earlierSocket : Socket) (was : Connected before s earlierSocket) (socket : Socket)
    (here : Connected server s socket) :
    lastList socket = some (.users server.onlineUsersList) := by
  have errorless_later : ∀ other ∈ later, ¬ Failing other := fun other member => errorless other (by simp [member])
  have kept : seat server s ≠ none ∧ ∀ socket, Connected server s socket →
      Converging p s (eventualList (socketStep pkg before event)) server := by
    have runs : server = socketRun pkg later (socketStep pkg before event) := by
      rw [ended, reached, socketRun, List.foldl_append]
      rfl
    rw [runs]
    apply along_run pkg _ (fun server => seat server s ≠ none ∧ ∀ socket, Connected server s socket →
      Converging p s (eventualList (socketStep pkg before event)) server) later _ _ _ last
    · rintro state other member unwritten ⟨known, converging⟩
      refine ⟨seat_stays_known pkg state other (errorless_later other member) s known, ?_⟩
      intro socket here
      obtain ⟨old, online⟩ := connected_before pkg state other (errorless_later other member) s known socket here
      exact converging_step pkg p s _ state other (errorless_later other member) (unforged other (by simp [member])) unwritten
        apart old online here.1 (converging old online)
    · refine ⟨seat_stays_known pkg before event (errorless event (by simp)) s ?_, fun _ _ =>
          writer_announces pkg before event p s wrote⟩
      rw [connected_seat before s earlierSocket was]
      simp
  obtain ⟨eventually, heard⟩ := kept.2 socket here
  rw [idle_eventual server idle] at eventually
  rw [idle.1, idle.2, ← eventually] at heard
  rcases heard with ⟨heard, _⟩ | none
  · rw [listHeard, here.2.1] at heard
    exact heard
  · cases none

def Reference.bothOnline : List SocketEvent :=
  [.connection, .connection, .setUser 0 (Reference.tokenFor "u") 6000, .setUser 1 (Reference.tokenFor "v") 6000] ++
    Reference.redisTurns 4

def Reference.oneLeft : SocketServer :=
  socketRun Reference.packages (Reference.bothOnline ++ .disconnect 1 :: Reference.redisTurns 2) (.starting [])

theorem reference_client_converges :
    ∃ socket, Connected Reference.oneLeft 0 socket ∧ lastList socket = some (.users Reference.oneLeft.onlineUsersList) := by
  have facts : idleWith (socketRun Reference.packages Reference.bothOnline (.starting [])) 0 "u" = true ∧
      writer Reference.packages (socketRun Reference.packages Reference.bothOnline (.starting [])) (.disconnect 1) = some 1 ∧
      allAlong Reference.packages (fun server other => writer Reference.packages server other == none) (Reference.redisTurns 2)
        (socketStep Reference.packages (socketRun Reference.packages Reference.bothOnline (.starting [])) (.disconnect 1)) =
          true ∧
      idleWith Reference.oneLeft 0 "u" = true := by
    decide +kernel
  obtain ⟨earlier, wrote, unwritten, later⟩ := facts
  obtain ⟨_, old, was, _⟩ := idle_with_sound _ 0 "u" earlier
  obtain ⟨idle, socket, here, _⟩ := idle_with_sound _ 0 "u" later
  refine ⟨socket, here, ?_⟩
  exact others_converge Reference.packages [] Reference.bothOnline (Reference.redisTurns 2) (.disconnect 1)
    (by simp [Reference.bothOnline, Reference.redisTurns, Failing])
      (by simp [Reference.bothOnline, Reference.redisTurns, Unforged]) _ rfl 1 wrote
    (all_along_sound _ _ _ (fun _ _ same => eq_of_beq same) _ _ unwritten) Reference.oneLeft rfl idle 0
        (by decide) old was socket here

end Planner
