import PlannerBackend.Libs

set_option autoImplicit false

namespace Planner

open Docs

-- A Redis hash: one value for each field.
abbrev Hash := List (String × String)

def Hash.set (hash : Hash) (key value : String) : Hash := hash.filter (fun entry => entry.1 != key) ++ [(key, value)]

def Hash.delete (hash : Hash) (key : String) : Hash := hash.filter fun entry => entry.1 != key

inductive Payload where
  | text (s : String)
  | failure (status : Nat) (error : String)
  | users (hash : Hash)
deriving DecidableEq

structure Message where
  event : String
  payload : Payload
deriving DecidableEq

-- What a socket has received stands newest first; userId is the property the
-- handlers hang on the socket object.
structure Socket where
  connected : Bool
  userId : Option String
  received : List Message

-- A command carries the socket whose callback waits for it.
inductive RedisCommand where
  | hmset (key value : String) (socket : Nat)
  | hgetall (socket : Nat)
  | hdel (key : String)

inductive RedisReply where
  | hmset (socket : Nat) (result : Except String Unit)
  | hgetall (socket : Nat) (result : Except String Hash)
  | hdel (result : Except String Unit)

-- One Redis client: commands are executed and answered in the order they were
-- sent, and other events may fall between a command and its reply.
structure SocketServer where
  sockets : List Socket
  onlineUsersList : Hash
  sent : List RedisCommand
  replies : List RedisReply
  crashed : Bool

def SocketServer.initial : SocketServer := ⟨[], [], [], [], false⟩

def Socket.receive (message : Message) (socket : Socket) : Socket :=
  if socket.connected then { socket with received := message :: socket.received } else socket

namespace SocketServer

def emit (server : SocketServer) (i : Nat) (message : Message) : SocketServer :=
  { server with sockets := server.sockets.modify i (Socket.receive message) }

-- Assumed of socket.io: what is written to a connected socket reaches it, in
-- order, and a broadcast is written to every connected socket but its own.
def broadcast (server : SocketServer) (i : Nat) (message : Message) : SocketServer :=
  { server with sockets := server.sockets.mapIdx fun j socket => if j = i then socket else socket.receive message }

def send (server : SocketServer) (command : RedisCommand) : SocketServer := { server with sent := server.sent ++ [command] }

-- The client reports a null or undefined argument to the callback, which only
-- logs it.
def setANewOnlineUserInHash (server : SocketServer) (key value : Option String) (i : Nat) : SocketServer :=
  match key, value with
  | some key, some value => server.send (.hmset key value i)
  | _, _ => server

end SocketServer

-- An empty hash is delivered as null.
def hashValue (hash : Hash) : Js.Value :=
  if hash.isEmpty then .null else .obj (hash.map fun entry => (entry.1, .str entry.2))

def getAllUsersInAHash (result : Except String Hash) : Except Js.Thrown (Except String Hash) :=
  match result with
  | .error err => .ok (.error err)
  | .ok hash => (isEmpty (hashValue hash)).map fun empty => if empty then .ok [] else .ok hash

def authError : Message := ⟨"auth-error", .failure 500 "Please provide correct auth token"⟩

def setUser (pkg : Packages) (server : SocketServer) (i : Nat) (token : Js.Value) (now : Nat) : SocketServer :=
  match verifyClaimWithoutSecret pkg token now with
  | none => server.emit i authError
  | some user =>
      let named := { server with
        sockets := server.sockets.modify i fun socket => { socket with userId := text (user.data .userId) } }
      named.setANewOnlineUserInHash (text (user.data .userId)) (text (user.data .userName)) i

def disconnect (server : SocketServer) (i : Nat) (socket : Socket) : SocketServer :=
  let left := { server with sockets := server.sockets.modify i fun socket => { socket with connected := false } }
  match socket.userId with
  | none => left
  | some userId => if userId = "" then left else (left.send (.hdel userId)).send (.hgetall i)

inductive SocketEvent where
  | connection
  | setUser (socket : Nat) (token : Js.Value) (now : Nat)
  | newMeeting (socket : Nat) (participantId : String)
  | updateInfo (socket : Nat) (participantId : String)
  | disconnect (socket : Nat)
  | execute (failure : Option String)
  | reply

def executeCommand (server : SocketServer) (failure : Option String) (command : RedisCommand) : SocketServer :=
  match command, failure with
  | .hmset key value i, none =>
      { server with onlineUsersList := server.onlineUsersList.set key value, replies := server.replies ++ [.hmset i (.ok ())] }
  | .hmset _ _ i, some err => { server with replies := server.replies ++ [.hmset i (.error err)] }
  | .hgetall i, none => { server with replies := server.replies ++ [.hgetall i (.ok server.onlineUsersList)] }
  | .hgetall i, some err => { server with replies := server.replies ++ [.hgetall i (.error err)] }
  | .hdel key, none =>
      { server with onlineUsersList := server.onlineUsersList.delete key, replies := server.replies ++ [.hdel (.ok ())] }
  | .hdel _, some err => { server with replies := server.replies ++ [.hdel (.error err)] }

-- HDEL is sent without a callback: its error is emitted on the client, which
-- nobody listens to.
def takeReply (server : SocketServer) : RedisReply → SocketServer
  | .hmset i (.ok _) => server.send (.hgetall i)
  | .hmset _ (.error _) => server
  | .hgetall i result =>
      match getAllUsersInAHash result with
      | .error _ => { server with crashed := true }
      | .ok (.error _) => server
      | .ok (.ok users) => server.broadcast i ⟨"online-user-list", .users users⟩
  | .hdel (.ok _) => server
  | .hdel (.error _) => { server with crashed := true }

-- Events of a socket that is not connected, and all events after an uncaught
-- exception, do not happen.
def fromSocket (server : SocketServer) (i : Nat) (handler : Socket → SocketServer) : SocketServer :=
  match server.sockets[i]? with
  | some socket => if socket.connected then handler socket else server
  | none => server

def socketStep (pkg : Packages) (server : SocketServer) (event : SocketEvent) : SocketServer :=
  if server.crashed then server
  else
    match event with
    | .connection => { server with sockets := server.sockets ++ [⟨true, none, [⟨"verifyUser", .text ""⟩]⟩] }
    | .setUser i token now => fromSocket server i fun _ => setUser pkg server i token now
    | .newMeeting i participantId =>
        fromSocket server i fun _ => server.broadcast i ⟨participantId, .text "New meeting is created"⟩
    | .updateInfo i participantId =>
        fromSocket server i fun _ => server.broadcast i ⟨participantId, .text "Your Meeting has been updated"⟩
    | .disconnect i => fromSocket server i fun socket => disconnect server i socket
    | .execute failure =>
        match server.sent with
        | [] => server
        | command :: rest => executeCommand { server with sent := rest } failure command
    | .reply =>
        match server.replies with
        | [] => server
        | answer :: rest => takeReply { server with replies := rest } answer

def socketRun (pkg : Packages) (events : List SocketEvent) (server : SocketServer) : SocketServer :=
  events.foldl (socketStep pkg) server

-- The userId a set-user event gives its socket, if the event is accepted: the
-- socket is sent nothing.
def setUserAs (pkg : Packages) (server : SocketServer) (i : Nat) (token : Js.Value) (now : Nat) : Option (Option String) :=
  match server.sockets[i]?, (socketStep pkg server (.setUser i token now)).sockets[i]? with
  | some before, some after =>
      if server.crashed = false ∧ before.connected = true ∧ after.received = before.received then some after.userId else none
  | _, _ => none

theorem set_sends_nothing (server : SocketServer) (key value : Option String) (i : Nat) :
    (server.setANewOnlineUserInHash key value i).sockets = server.sockets := by
  cases key <;> cases value <;> rfl

theorem set_user_verifies (pkg : Packages) (server : SocketServer) (i : Nat) (socket : Socket)
    (here : server.sockets[i]? = some socket) (connected : socket.connected = true) (running : server.crashed = false)
    (token : Js.Value) (now : Nat) :
    setUserAs pkg server i token now = (verifyClaimWithoutSecret pkg token now).map fun user => text (user.data .userId) := by
  cases verdict : verifyClaimWithoutSecret pkg token now with
  | none =>
      simp [setUserAs, socketStep, running, fromSocket, here, connected, setUser, verdict, SocketServer.emit, Socket.receive]
  | some user => simp [setUserAs, socketStep, running, fromSocket, here, connected, setUser, verdict, set_sends_nothing]

theorem set_user_accepted (pkg : Packages) (server : SocketServer) (i : Nat) (token : Js.Value) (now : Nat)
    (userId : Option String) (accepted : setUserAs pkg server i token now = some userId) :
    (verifyClaimWithoutSecret pkg token now).map (fun user => text (user.data .userId)) = some userId := by
  cases here : server.sockets[i]? with
  | none => simp [setUserAs, here] at accepted
  | some socket =>
      by_cases live : server.crashed = false ∧ socket.connected = true
      · rw [← set_user_verifies pkg server i socket here live.2 live.1 token now]
        exact accepted
      · simp only [setUserAs, here] at accepted
        split at accepted
        · next before after same _ =>
            cases same
            rw [if_neg (fun all => live ⟨all.1, all.2.1⟩)] at accepted
            cases accepted
        · cases accepted

end Planner
