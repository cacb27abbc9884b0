import PlannerBackend.OnlineUsers

set_option autoImplicit false

namespace Planner

open Docs Pipeline

section Settling

-- How many turns of Redis a command or a reply can still cause.
def RedisCommand.load : RedisCommand → Nat
  | .hmset _ _ _ => 4
  | .hgetall _ => 2
  | .hdel _ => 2

def RedisReply.load : RedisReply → Nat
  | .hmset _ (.ok _) => 3
  | _ => 1

def loadOf {α : Type} (load : α → Nat) : List α → Nat
  | [] => 0
  | first :: rest => load first + loadOf load rest

theorem load_append {α : Type} (load : α → Nat) (a b : List α) : loadOf load (a ++ b) = loadOf load a + loadOf load b := by
  induction a with
  | nil => simp [loadOf]
  | cons first rest ih => simp only [List.cons_append, loadOf, ih, Nat.add_assoc]

def SocketServer.load (server : SocketServer) : Nat :=
  loadOf RedisCommand.load server.sent + loadOf RedisReply.load server.replies

theorem load_pos (command : RedisCommand) : 2 ≤ command.load := by
  cases command <;> simp [RedisCommand.load]

theorem reply_load_pos (reply : RedisReply) : 1 ≤ reply.load := by
  unfold RedisReply.load
  split <;> omega

theorem idle_iff_load (server : SocketServer) : Idle server ↔ server.load = 0 := by
  constructor
  · rintro ⟨sent, replies⟩
    simp [SocketServer.load, loadOf, sent, replies]
  · intro empty
    cases sent : server.sent with
    | cons command rest =>
        have := load_pos command
        simp [SocketServer.load, loadOf, sent] at empty
        omega
    | nil =>
        cases replies : server.replies with
        | cons reply rest =>
            have := reply_load_pos reply
            simp [SocketServer.load, loadOf, replies] at empty
            omega
        | nil => exact ⟨sent, replies⟩

theorem execute_load (server : SocketServer) (failure : Option String) (command : RedisCommand) (rest : List RedisCommand)
    (queue : server.sent = command :: rest) :
    (executeCommand { server with sent := rest } failure command).load < server.load := by
  cases command <;> cases failure <;>
    simp only [executeCommand, SocketServer.load, queue, load_append, loadOf,
      RedisCommand.load, RedisReply.load] <;> omega

theorem take_reply_load (server : SocketServer) (answer : RedisReply) (rest : List RedisReply)
    (queue : server.replies = answer :: rest) :
    (takeReply { server with replies := rest } answer).load < server.load := by
  have counted : server.load = answer.load + { server with replies := rest }.load := by
    simp only [SocketServer.load, queue, loadOf]
    omega
  have pos := reply_load_pos answer
  have same : ∀ next : SocketServer, next.load = { server with replies := rest }.load → next.load < server.load := by
    intro next equal
    omega
  cases answer with
  | hmset i result =>
      cases result with
      | ok =>
          simp only [takeReply, SocketServer.send, SocketServer.load, queue, load_append, loadOf,
            RedisCommand.load, RedisReply.load]
          omega
      | error => exact same _ rfl
  | hgetall i result =>
      simp only [takeReply]
      split <;> exact same _ rfl
  | hdel result => cases result <;> exact same _ rfl

theorem redis_step_load (pkg : Packages) (server : SocketServer) (event : SocketEvent)
    (redis : event = .reply ∨ ∃ failure, event = .execute failure) :
    (socketStep pkg server event).load ≤ server.load := by
  have moved := step_moved pkg server event
  generalize socketStep pkg server event = next at moved
  cases moved with
  | still => exact Nat.le_refl _
  | executed failure command rest running queue => exact Nat.le_of_lt (execute_load server failure command rest queue)
  | replied answer rest running queue => exact Nat.le_of_lt (take_reply_load server answer rest queue)
  | _ => simp at redis

theorem step_executes (pkg : Packages) (server : SocketServer) (failure : Option String) (running : server.crashed = false)
    (command : RedisCommand) (rest : List RedisCommand) (queue : server.sent = command :: rest) :
    socketStep pkg server (.execute failure) = executeCommand { server with sent := rest } failure command := by
  unfold socketStep
  rw [if_neg (by rw [running]; decide)]
  simp only [queue]

theorem step_replies (pkg : Packages) (server : SocketServer) (running : server.crashed = false) (answer : RedisReply)
    (rest : List RedisReply) (queue : server.replies = answer :: rest) :
    socketStep pkg server .reply = takeReply { server with replies := rest } answer := by
  unfold socketStep
  rw [if_neg (by rw [running]; decide)]
  simp only [queue]

theorem step_crashed (pkg : Packages) (server : SocketServer) (event : SocketEvent) (crashed : server.crashed = true) :
    socketStep pkg server event = server := by
  unfold socketStep
  rw [if_pos crashed]

-- One turn of Redis and of the client makes progress while anything is
-- pending.
theorem turn_progress (pkg : Packages) (server : SocketServer) (failure : Option String) (running : server.crashed = false)
    (busy : 0 < server.load) :
    (socketStep pkg (socketStep pkg server (.execute failure)) .reply).load < server.load := by
  have later := redis_step_load pkg (socketStep pkg server (.execute failure)) .reply (.inl rfl)
  cases sent : server.sent with
  | cons command rest =>
      have first : (socketStep pkg server (.execute failure)).load < server.load := by
        rw [step_executes pkg server failure running command rest sent]
        exact execute_load server failure command rest sent
      omega
  | nil =>
      have skipped : socketStep pkg server (.execute failure) = server := by simp [socketStep, running, sent]
      rw [skipped]
      cases replies : server.replies with
      | nil => simp [SocketServer.load, loadOf, sent, replies] at busy
      | cons answer rest =>
          rw [step_replies pkg server running answer rest replies]
          exact take_reply_load server answer rest replies

def turnsOf (failures : List (Option String)) : List SocketEvent := failures.flatMap fun failure => [.execute failure, .reply]

theorem crashed_stays (pkg : Packages) (events : List SocketEvent) (server : SocketServer) (crashed : server.crashed = true) :
    (socketRun pkg events server).crashed = true := by
  induction events generalizing server with
  | nil => exact crashed
  | cons event rest ih =>
      apply ih
      rw [step_crashed pkg server event crashed]
      exact crashed

-- With no new events, as many turns as the load of what is pending leave
-- nothing pending, whichever commands Redis fails.
theorem redis_settles (pkg : Packages) (failures : List (Option String)) (server : SocketServer)
    (enough : server.load ≤ failures.length) :
    Idle (socketRun pkg (turnsOf failures) server) ∨ (socketRun pkg (turnsOf failures) server).crashed = true := by
  induction failures generalizing server with
  | nil => exact .inl ((idle_iff_load server).mpr (Nat.le_zero.mp enough))
  | cons failure rest ih =>
      change Idle (socketRun pkg (turnsOf rest) (socketStep pkg (socketStep pkg server (.execute failure)) .reply)) ∨
        (socketRun pkg (turnsOf rest) (socketStep pkg (socketStep pkg server (.execute failure)) .reply)).crashed = true
      by_cases crashed : server.crashed = true
      · refine .inr ?_
        exact crashed_stays pkg (.execute failure :: .reply :: turnsOf rest) server crashed
      · apply ih
        by_cases busy : 0 < server.load
        · have progress := turn_progress pkg server failure (Bool.eq_false_iff.mpr crashed) busy
          simp only [List.length_cons] at enough
          omega
        · have first := redis_step_load pkg server (.execute failure) (.inr ⟨failure, rfl⟩)
          have second := redis_step_load pkg (socketStep pkg server (.execute failure)) .reply (.inl rfl)
          omega

end Settling

-- Two users have just come online, and Redis fails the second command.
def Reference.pressed : SocketServer :=
  socketRun Reference.packages
    [.connection, .connection, .setUser 0 (Reference.tokenFor "u") 6000, .setUser 1 (Reference.tokenFor "v") 6000] .initial

theorem reference_redis_settles :
    Idle (socketRun Reference.packages (turnsOf (none :: some "down" :: List.replicate 6 none)) Reference.pressed) ∨
      (socketRun Reference.packages (turnsOf (none :: some "down" :: List.replicate 6 none)) Reference.pressed).crashed = true :=
  redis_settles Reference.packages _ Reference.pressed (by decide +kernel)

section Hearing

-- The event is not of this socket, nor the reply to a command sent for it.
def Aside (j : Nat) (server : SocketServer) : SocketEvent → Prop
  | .setUser i _ _ => i ≠ j
  | .newMeeting i _ => i ≠ j
  | .updateInfo i _ => i ≠ j
  | .disconnect i => i ≠ j
  | .reply => ∀ i result rest, server.replies = .hgetall i result :: rest → i ≠ j
  | _ => True

def Receives (fresh : List Message) (server next : SocketServer) (j : Nat) : Prop :=
  ∀ socket, server.sockets[j]? = some socket → socket.connected = true →
    next.sockets[j]? = some { socket with received := fresh ++ socket.received }

theorem receives_nothing (server next : SocketServer) (j : Nat) (same : next.sockets[j]? = server.sockets[j]?) :
    Receives [] server next j :=
  fun _ here _ => same.trans here

theorem receives_elsewhere (server : SocketServer) (i j : Nat) (other : i ≠ j) (change : Socket → Socket) :
    (server.sockets.modify i change)[j]? = server.sockets[j]? := by
  rw [List.getElem?_modify]
  simp [other]

theorem receives_broadcast (server : SocketServer) (i j : Nat) (other : i ≠ j) (message : Message) :
    Receives [message] server (server.broadcast i message) j := by
  intro socket here connected
  simp [SocketServer.broadcast, here, Ne.symm other, Socket.receive, connected]

def isList (message : Message) : Bool := message.event == "online-user-list"

-- A connected client may pick the name of the list for its own news.
def forges (server : SocketServer) : SocketEvent → Bool
  | .newMeeting i name => !server.crashed && server.sockets[i]?.any Socket.connected && name == "online-user-list"
  | .updateInfo i name => !server.crashed && server.sockets[i]?.any Socket.connected && name == "online-user-list"
  | _ => false

-- Whether the event is a reply that broadcasts the list of users.
def delivers (server : SocketServer) : SocketEvent → Bool
  | .reply => !server.crashed &&
      match server.replies with
      | .hgetall _ (.ok hash) :: _ => !hash.fields.contains "toString"
      | _ => false
  | _ => false

-- What an event sends to the clients aside of it, and how many lists are
-- among that.
def Sends (server next : SocketServer) (aside : Nat → Prop) (lists : Nat) : Prop :=
  ∃ fresh, fresh.countP isList = lists ∧ ∀ j, aside j → Receives fresh server next j

theorem sends_nothing (server next : SocketServer) (aside : Nat → Prop)
    (same : ∀ j, aside j → next.sockets[j]? = server.sockets[j]?) :
    Sends server next aside 0 :=
  ⟨[], rfl, fun j away => receives_nothing server next j (same j away)⟩

theorem sends_news (server : SocketServer) (i : Nat) (name body : String) :
    Sends server (if server.crashed then server else fromSocket server i fun _ => server.broadcast i ⟨name, .text body⟩) (i ≠ ·)
      (!server.crashed && server.sockets[i]?.any Socket.connected && name == "online-user-list").toNat := by
  cases crashed : server.crashed with
  | true => exact sends_nothing _ _ _ fun _ _ => rfl
  | false =>
      simp only [Bool.false_eq_true, if_false, fromSocket]
      cases here : server.sockets[i]? with
      | none => exact sends_nothing _ _ _ fun _ _ => rfl
      | some socket =>
          cases connected : socket.connected with
          | false =>
              simp only [Bool.false_eq_true, if_false, Option.any_some, connected, Bool.and_false, Bool.false_and]
              exact sends_nothing _ _ _ fun _ _ => rfl
          | true =>
              simp only [if_true, Option.any_some, connected]
              refine ⟨[⟨name, .text body⟩], ?_, fun j other => receives_broadcast server i j other _⟩
              cases same : name == "online-user-list" <;> simp [isList, same]

theorem sends_reply (server : SocketServer) (answer : RedisReply) (rest : List RedisReply) (running : server.crashed = false)
    (queue : server.replies = answer :: rest) :
    Sends server (takeReply { server with replies := rest } answer) (fun j => Aside j server .reply)
    (delivers server .reply).toNat := by
  simp only [delivers, running, queue, Bool.not_false, Bool.true_and]
  cases answer with
  | hmset i result => cases result <;> exact sends_nothing _ _ _ fun _ _ => rfl
  | hdel result => cases result <;> exact sends_nothing _ _ _ fun _ _ => rfl
  | hgetall i result =>
      cases result with
      | error err => exact sends_nothing _ _ _ fun _ _ => rfl
      | ok hash =>
          by_cases shadowed : "toString" ∈ hash.fields
          · simp only [takeReply, get_all_users_throws hash shadowed, List.contains_iff_mem.mpr shadowed]
            exact sends_nothing _ _ _ fun _ _ => rfl
          · simp only [takeReply, get_all_users_delivers hash shadowed]
            refine ⟨[⟨"online-user-list", .users hash⟩], ?_, fun j aside => ?_⟩
            · simp [isList, shadowed]
            · exact receives_broadcast { server with replies := rest } i j (aside i _ rest queue) _

def tellsOthers : SocketEvent → Bool
  | .newMeeting _ _ => true
  | .updateInfo _ _ => true
  | .reply => true
  | _ => false

-- All other events tell at most the socket they come from.
theorem receives_untold (pkg : Packages) (server : SocketServer) (event : SocketEvent)
    (untold : tellsOthers event = false) (j : Nat) (aside : Aside j server event) :
    Receives [] server (socketStep pkg server event) j := by
  have moved := step_moved pkg server event
  generalize socketStep pkg server event = next at moved
  cases moved with
  | still => exact receives_nothing _ _ j rfl
  | joined =>
      intro socket here _
      rw [List.getElem?_append_left (List.getElem?_eq_some_iff.mp here).1]
      exact here
  | refused i => exact receives_nothing _ _ j (receives_elsewhere server i j aside _)
  | verified i socket token now user here verdict =>
      apply receives_nothing
      rw [set_sends_nothing]
      exact receives_elsewhere server i j aside _
  | toldNew | toldUpdate | replied => cases untold
  | left i socket here =>
      apply receives_nothing
      rcases disconnect_split server i socket with ⟨same, _⟩ | ⟨userId, _, _, same⟩ <;> rw [same]
        <;> exact receives_elsewhere server i j aside _
  | executed failure command rest running queue => exact receives_nothing _ _ j (by cases command <;> cases failure <;> rfl)

theorem sends_step (pkg : Packages) (server : SocketServer) (event : SocketEvent) :
    Sends server (socketStep pkg server event) (fun j => Aside j server event)
    ((delivers server event).toNat + (forges server event).toNat) := by
  cases event with
  | newMeeting i name =>
      rw [show delivers server (.newMeeting i name) = false from rfl, Bool.toNat_false, Nat.zero_add]
      exact sends_news server i name _
  | updateInfo i name =>
      rw [show delivers server (.updateInfo i name) = false from rfl, Bool.toNat_false, Nat.zero_add]
      exact sends_news server i name _
  | reply =>
      cases crashed : server.crashed with
      | true =>
          rw [step_crashed pkg server .reply crashed]
          simpa [delivers, forges, crashed] using sends_nothing server server _ fun _ _ => rfl
      | false =>
          cases queue : server.replies with
          | nil =>
              have skipped : socketStep pkg server .reply = server := by simp [socketStep, crashed, queue]
              rw [skipped]
              simpa [delivers, forges, queue] using sends_nothing server server _ fun _ _ => rfl
          | cons answer rest =>
              rw [step_replies pkg server crashed answer rest queue]
              simpa [forges] using sends_reply server answer rest crashed queue
  | _ => exact ⟨[], rfl, fun j aside => receives_untold pkg server _ rfl j aside⟩

end Hearing

-- All clients that stay aside over a stretch of a run receive the same messages
-- in the same order, whatever the others do.
theorem bystanders_hear_alike (pkg : Packages) (events : List SocketEvent) (server : SocketServer) :
    ∃ heard, ∀ j socket, Along pkg (Aside j) events server → server.sockets[j]? = some socket → socket.connected = true →
      (socketRun pkg events server).sockets[j]? = some { socket with received := heard ++ socket.received } := by
  induction events generalizing server with
  | nil => exact ⟨[], fun j socket _ here _ => here⟩
  | cons event rest ih =>
      obtain ⟨first, _, now⟩ := sends_step pkg server event
      obtain ⟨heard, later⟩ := ih (socketStep pkg server event)
      refine ⟨heard ++ first, fun j socket aside here connected => ?_⟩
      have received := later j _ aside.2 (now j aside.1 socket here connected) connected
      rw [List.append_assoc]
      exact received

-- Of three clients one tells of a meeting and of its update.
theorem reference_bystanders_hear_alike :
    ∃ server heard a b, server = socketRun Reference.packages [.connection, .connection, .connection] .initial ∧
      server.sockets[1]? = some a ∧ server.sockets[2]? = some b ∧
      (socketRun Reference.packages [.newMeeting 0 "v", .updateInfo 0 "v"] server).sockets[1]? =
      some { a with received := heard ++ a.received } ∧
      (socketRun Reference.packages [.newMeeting 0 "v", .updateInfo 0 "v"] server).sockets[2]? =
      some { b with received := heard ++ b.received } := by
  obtain ⟨heard, alike⟩ := bystanders_hear_alike Reference.packages [.newMeeting 0 "v", .updateInfo 0 "v"]
    (socketRun Reference.packages [.connection, .connection, .connection] .initial)
  have aside : ∀ j, 0 ≠ j → Along Reference.packages (Aside j) [.newMeeting 0 "v", .updateInfo 0 "v"]
      (socketRun Reference.packages [.connection, .connection, .connection] .initial) := fun j other => ⟨other, other, trivial⟩
  exact ⟨_, heard, _, _, rfl, rfl, rfl, alike 1 _ (aside 1 (by decide)) rfl rfl, alike 2 _ (aside 2 (by decide)) rfl rfl⟩

section Announcing

end Announcing

end Planner
