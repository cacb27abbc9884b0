import PlannerBackend.Pipeline
import PlannerBackend.Reference
import PlannerBackend.SocketLib

set_option autoImplicit false

namespace Planner

open Docs Pipeline

def Hash.fields (hash : Hash) : List String := hash.map Prod.fst

theorem mem_fields_set (hash : Hash) (key value field : String) : field ∈ (hash.set key value).fields ↔ field = key ∨
    field ∈ hash.fields := by
  simp only [Hash.fields, Hash.set, List.map_append, List.mem_append, List.mem_map, List.mem_filter, List.map_cons, List.map_nil,
    List.mem_singleton, bne_iff_ne]
  constructor
  · rintro (⟨entry, ⟨member, _⟩, rfl⟩ | same)
    · exact .inr ⟨entry, member, rfl⟩
    · exact .inl same
  · rintro (same | ⟨entry, member, rfl⟩)
    · exact .inr same
    · by_cases same : entry.1 = key
      · exact .inr same
      · exact .inl ⟨entry, ⟨member, same⟩, rfl⟩

theorem mem_fields_delete (hash : Hash) (key field : String) : field ∈ (hash.delete key).fields ↔ field ≠ key ∧
    field ∈ hash.fields := by
  simp only [Hash.fields, Hash.delete, List.mem_map, List.mem_filter, bne_iff_ne]
  constructor
  · rintro ⟨entry, ⟨member, other⟩, rfl⟩
    exact ⟨other, entry, member, rfl⟩
  · rintro ⟨other, entry, member, rfl⟩
    exact ⟨entry, ⟨member, other⟩, rfl⟩

-- Contents of a Redis hash that the client can deliver as a plain object.
structure Contents where
  entries : Hash
  distinct : entries.fields.Nodup
  named : ∀ field ∈ entries.fields, field ≠ "" ∧ field ≠ "__proto__"

theorem lookup_delivered (hash : Hash) (field : String) :
    (hash.map fun entry => (entry.1, Js.Value.str entry.2)).lookup field = (hash.lookup field).map .str := by
  induction hash with
  | nil => rfl
  | cons entry rest ih =>
      rw [List.map_cons, List.lookup_cons, List.lookup_cons, ih]
      cases field == entry.1 <;> rfl

theorem lookup_fields (hash : Hash) (field : String) : (hash.lookup field).isSome = true ↔ field ∈ hash.fields := by
  rw [List.lookup_isSome_iff]
  simp [Hash.fields]

theorem length_never_zero (hash : Hash) : Js.lengthIsZero (.obj (hash.map fun entry => (entry.1, .str entry.2))) = false := by
  unfold Js.lengthIsZero
  simp only [lookup_delivered]
  cases hash.lookup "length" <;> rfl

-- isEmpty converts the reply to a string, and an own toString is no function.
theorem delivered_text (entry : String × String) (rest : Hash) :
    Js.toText (hashValue (entry :: rest)) =
      if "toString" ∈ Hash.fields (entry :: rest) then .error Js.cannotConvert else .ok "[object Object]" := by
  change (if (List.lookup "toString" (List.map _ (entry :: rest))).isSome then _ else _) = _
  rw [lookup_delivered, Option.isSome_map]
  by_cases own : "toString" ∈ Hash.fields (entry :: rest)
  · rw [if_pos own, if_pos ((lookup_fields _ _).mpr own)]
  · rw [if_neg own, if_neg fun found => own ((lookup_fields _ _).mp found)]

theorem get_all_users_delivers (hash : Hash) (plain : "toString" ∉ hash.fields) :
    getAllUsersInAHash (.ok hash) = .ok (.ok hash) := by
  cases hash with
  | nil => rfl
  | cons entry rest =>
      have printed := (delivered_text entry rest).trans (if_neg plain)
      have nonempty : isEmpty (hashValue (entry :: rest)) = .ok false :=
        is_empty_nonblank _ _ 'o' rfl printed (by decide) (by decide) (length_never_zero (entry :: rest))
      rw [getAllUsersInAHash, nonempty]
      rfl

theorem get_all_users_throws (hash : Hash) (shadowed : "toString" ∈ hash.fields) :
    getAllUsersInAHash (.ok hash) = .error Js.cannotConvert := by
  cases hash with
  | nil => cases shadowed
  | cons entry rest =>
      have thrown := (delivered_text entry rest).trans (if_pos shadowed)
      have escapes : isEmpty (hashValue (entry :: rest)) = .error Js.cannotConvert := by
        rw [isEmpty, show Js.isNullish (hashValue (entry :: rest)) = false from rfl, trim, thrown]
        rfl
      rw [getAllUsersInAHash, escapes]
      rfl

theorem all_users_delivered_iff (hash : Contents) :
    getAllUsersInAHash (.ok hash.entries) = .ok (.ok hash.entries) ↔ "toString" ∉ hash.entries.fields := by
  constructor
  · intro delivered shadowed
    rw [get_all_users_throws hash.entries shadowed] at delivered
    cases delivered
  · exact get_all_users_delivers hash.entries

-- One field shadows the method that the conversion calls.
def Reference.shadowing : Contents where
  entries := [("toString", "x")]
  distinct := by decide
  named := by decide

theorem field_name_stops_delivery : getAllUsersInAHash (.ok Reference.shadowing.entries) = .error Js.cannotConvert := rfl

def RedisCommand.apply (hash : Hash) : RedisCommand → Hash
  | .hmset key value _ => hash.set key value
  | .hgetall _ => hash
  | .hdel key => hash.delete key

def RedisCommand.answer (hash : Hash) : RedisCommand → RedisReply
  | .hmset _ _ socket => .hmset socket (.ok ())
  | .hgetall socket => .hgetall socket (.ok hash)
  | .hdel _ => .hdel (.ok ())

theorem execute_succeeds (server : SocketServer) (command : RedisCommand) :
    executeCommand server none command = { server with
      onlineUsersList := command.apply server.onlineUsersList, replies :=
  server.replies ++ [command.answer server.onlineUsersList] } := by
  cases command <;> rfl

-- An uncaught exception ends the process, and with it every connection.
def Connected (server : SocketServer) (i : Nat) (socket : Socket) : Prop :=
  server.crashed = false ∧ server.sockets[i]? = some socket ∧ socket.connected = true

theorem set_split (server : SocketServer) (key value : Option String) (i : Nat) :
    (server.setANewOnlineUserInHash key value i = server ∧ (key = none ∨ value = none)) ∨
      ∃ field name, key = some field ∧ value = some name ∧ server.setANewOnlineUserInHash key value i =
      server.send (.hmset field name i) := by
  cases key with
  | none => exact .inl ⟨rfl, .inl rfl⟩
  | some field =>
      cases value with
      | none => exact .inl ⟨rfl, .inr rfl⟩
      | some name => exact .inr ⟨field, name, rfl, rfl, rfl⟩

def SocketServer.identify (server : SocketServer) (i : Nat) (userId : Option String) : SocketServer :=
  { server with sockets := server.sockets.modify i fun socket => { socket with userId := userId } }

def SocketServer.leave (server : SocketServer) (i : Nat) : SocketServer :=
  { server with sockets := server.sockets.modify i fun socket => { socket with connected := false } }

theorem disconnect_split (server : SocketServer) (i : Nat) (socket : Socket) :
    (disconnect server i socket = server.leave i ∧ (socket.userId = none ∨ socket.userId = some "")) ∨
      ∃ userId, socket.userId = some userId ∧ userId ≠ "" ∧
        disconnect server i socket = ((server.leave i).send (.hdel userId)).send (.hgetall i) := by
  unfold disconnect
  cases socket.userId with
  | none => exact .inl ⟨rfl, .inl rfl⟩
  | some userId =>
      by_cases blank : userId = ""
      · subst blank
        exact .inl ⟨rfl, .inr rfl⟩
      · exact .inr ⟨userId, rfl, blank, if_neg blank⟩

-- Everything an event can do.
inductive Moved (pkg : Packages) (server : SocketServer) : SocketEvent → SocketServer → Prop where
  | still (event : SocketEvent) : Moved pkg server event server
  | joined (running : server.crashed = false) :
      Moved pkg server .connection { server with sockets := server.sockets ++ [⟨true, none, [⟨"verifyUser", .text ""⟩]⟩] }
  | refused (i : Nat) (socket : Socket) (token : Js.Value) (now : Nat) (here : Connected server i socket)
      (verdict : verifyClaimWithoutSecret pkg token now = none) : Moved pkg server (.setUser i token now)
        (server.emit i authError)
  | verified (i : Nat) (socket : Socket) (token : Js.Value) (now : Nat) (user : Claims) (here : Connected server i socket)
      (verdict : verifyClaimWithoutSecret pkg token now = some user) :
      Moved pkg server (.setUser i token now)
        ((server.identify i (text (user.data .userId))).setANewOnlineUserInHash (text (user.data .userId))
          (text (user.data .userName)) i)
  | toldNew (i : Nat) (socket : Socket) (participantId : String) (here : Connected server i socket) :
      Moved pkg server (.newMeeting i participantId) (server.broadcast i ⟨participantId, .text "New meeting is created"⟩)
  | toldUpdate (i : Nat) (socket : Socket) (participantId : String) (here : Connected server i socket) :
      Moved pkg server (.updateInfo i participantId) (server.broadcast i ⟨participantId, .text "Your Meeting has been updated"⟩)
  | left (i : Nat) (socket : Socket) (here : Connected server i socket) : Moved pkg server (.disconnect i)
      (disconnect server i socket)
  | executed (failure : Option String) (command : RedisCommand) (rest : List RedisCommand) (running : server.crashed = false)
      (queue : server.sent = command :: rest) :
      Moved pkg server (.execute failure) (executeCommand { server with sent := rest } failure command)
  | replied (answer : RedisReply) (rest : List RedisReply) (running : server.crashed = false)
      (queue : server.replies = answer :: rest) :
      Moved pkg server .reply (takeReply { server with replies := rest } answer)

theorem from_socket_moved (pkg : Packages) (server : SocketServer) (event : SocketEvent) (i : Nat)
    (handler : Socket → SocketServer) (running : server.crashed = false)
    (moved : ∀ socket, Connected server i socket → Moved pkg server event (handler socket)) :
    Moved pkg server event (fromSocket server i handler) := by
  unfold fromSocket
  cases here : server.sockets[i]? with
  | none => exact .still event
  | some socket =>
      by_cases connected : socket.connected = true
      · simp only [connected, if_true]
        exact moved socket ⟨running, here, connected⟩
      · simp only [connected]
        exact .still event

theorem step_moved (pkg : Packages) (server : SocketServer) (event : SocketEvent) :
    Moved pkg server event (socketStep pkg server event) := by
  unfold socketStep
  by_cases crashed : server.crashed = true
  · rw [if_pos crashed]
    exact .still event
  · have running := Bool.eq_false_iff.mpr crashed
    rw [if_neg crashed]
    cases event with
    | connection => exact .joined running
    | setUser i token now =>
        apply from_socket_moved pkg server _ i _ running
        intro socket here
        unfold setUser
        cases verdict : verifyClaimWithoutSecret pkg token now with
        | none => exact .refused i socket token now here verdict
        | some user => exact .verified i socket token now user here verdict
    | newMeeting i participantId =>
        exact from_socket_moved pkg server _ i _ running fun socket here => .toldNew i socket participantId here
    | updateInfo i participantId =>
        exact from_socket_moved pkg server _ i _ running fun socket here => .toldUpdate i socket participantId here
    | disconnect i => exact from_socket_moved pkg server _ i _ running fun socket here => .left i socket here
    | execute failure =>
        dsimp only
        split
        · exact .still _
        · next command rest queue => exact .executed failure command rest running queue
    | reply =>
        dsimp only
        split
        · exact .still _
        · next answer rest queue => exact .replied answer rest running queue

-- Who sits at a socket: whether it is connected, and its userId.
def seat (server : SocketServer) (j : Nat) : Option (Bool × Option String) :=
  server.sockets[j]?.map fun socket => (socket.connected, socket.userId)

def eventualList (server : SocketServer) : Hash := eventual RedisCommand.apply server.onlineUsersList server.sent

theorem seat_receive (message : Message) (socket : Socket) :
    ((socket.receive message).connected, (socket.receive message).userId) = (socket.connected, socket.userId) := by
  unfold Socket.receive
  split <;> rfl

theorem seat_emit (server : SocketServer) (i : Nat) (message : Message) (j : Nat) :
    seat (server.emit i message) j = seat server j := by
  simp only [seat, SocketServer.emit, List.getElem?_modify]
  by_cases own : i = j
  · cases server.sockets[j]? <;> simp [own, seat_receive]
  · cases server.sockets[j]? <;> simp [own]

theorem seat_broadcast (server : SocketServer) (i : Nat) (message : Message) (j : Nat) :
    seat (server.broadcast i message) j = seat server j := by
  simp only [seat, SocketServer.broadcast, List.getElem?_mapIdx]
  by_cases own : j = i
  · cases server.sockets[j]? <;> simp [own]
  · cases server.sockets[j]? <;> simp [own, seat_receive]

-- What an event does to the seats and to the list that Redis will hold.
inductive Attended (pkg : Packages) (server : SocketServer) : SocketEvent → SocketServer → Prop where
  | same (event : SocketEvent) (next : SocketServer) (seats : ∀ j, seat next j = seat server j)
      (listed : eventualList next = eventualList server) : Attended pkg server event next
  | joined (next : SocketServer)
      (seats : ∀ j, seat next j = if j = server.sockets.length then some (true, none) else seat server j)
      (listed : eventualList next = eventualList server) : Attended pkg server .connection next
  | verified (i : Nat) (socket : Socket) (token : Js.Value) (now : Nat) (user : Claims) (next : SocketServer)
      (here : Connected server i socket)
      (verdict : verifyClaimWithoutSecret pkg token now = some user)
      (seats : ∀ j, seat next j = if j = i then some (true, text (user.data .userId)) else seat server j)
      (listed : eventualList next =
        match text (user.data .userId), text (user.data .userName) with
        | some key, some value => (eventualList server).set key value
        | _, _ => eventualList server) : Attended pkg server (.setUser i token now) next
  | left (i : Nat) (socket : Socket) (next : SocketServer) (here : Connected server i socket)
      (seats : ∀ j, seat next j = if j = i then some (false, socket.userId) else seat server j)
      (listed : eventualList next =
        match socket.userId with
        | some userId => if userId = "" then eventualList server else (eventualList server).delete userId
        | none => eventualList server) : Attended pkg server (.disconnect i) next

def Failing : SocketEvent → Prop
  | .execute (some _) => True
  | _ => False

theorem seat_modify (server : SocketServer) (i : Nat) (socket : Socket) (here : server.sockets[i]? = some socket)
    (change : Socket → Socket) (j : Nat) :
    (server.sockets.modify i change)[j]?.map (fun socket => (socket.connected, socket.userId)) =
      if j = i then some ((change socket).connected, (change socket).userId) else seat server j := by
  rw [List.getElem?_modify]
  by_cases own : j = i
  · subst own
    simp [here]
  · cases seen : server.sockets[j]? <;> simp [own, Ne.symm own, seat, seen]

theorem reply_attended (server : SocketServer) (answer : RedisReply) :
    (∀ j, seat (takeReply server answer) j = seat server j) ∧ eventualList (takeReply server answer) = eventualList server := by
  cases answer with
  | hmset i result =>
      cases result with
      | ok => exact ⟨fun _ => rfl, eventual_send _ _ _ _⟩
      | error => exact ⟨fun _ => rfl, rfl⟩
  | hgetall i result =>
      simp only [takeReply]
      split
      · exact ⟨fun _ => rfl, rfl⟩
      · exact ⟨fun _ => rfl, rfl⟩
      · exact ⟨seat_broadcast server i _, rfl⟩
  | hdel result => cases result <;> exact ⟨fun _ => rfl, rfl⟩

theorem seat_joined (server : SocketServer) (messages : List Message) (j : Nat) :
    seat { server with sockets := server.sockets ++ [⟨true, none, messages⟩] } j =
      if j = server.sockets.length then some (true, none) else seat server j := by
  simp only [seat]
  by_cases last : j = server.sockets.length
  · simp [last]
  · by_cases old : j < server.sockets.length
    · simp [List.getElem?_append_left old, last]
    · rw [if_neg last, List.getElem?_eq_none (by simp; omega), List.getElem?_eq_none (by omega)]

theorem step_attended (pkg : Packages) (server : SocketServer) (event : SocketEvent) (errorless : ¬ Failing event) :
    Attended pkg server event (socketStep pkg server event) := by
  have moved := step_moved pkg server event
  generalize socketStep pkg server event = next at moved
  cases moved with
  | still => exact .same _ _ (fun _ => rfl) rfl
  | joined running =>
      exact .joined _ (seat_joined server _) rfl
  | refused i socket token now here verdict => exact .same _ _ (seat_emit server i authError) rfl
  | verified i socket token now user here verdict =>
      refine .verified i socket token now user _ here verdict (fun j => ?_) ?_
      · rw [seat, set_sends_nothing, SocketServer.identify, seat_modify server i socket here.2.1, here.2.2]
      · rcases set_split (server.identify i (text (user.data .userId))) (text (user.data .userId))
            (text (user.data .userName)) i with
          ⟨same, unnamed | unnamed⟩ | ⟨key, value, named, valued, same⟩
        · rw [same, unnamed]
          rfl
        · rw [same, unnamed]
          cases text (user.data .userId) <;> rfl
        · rw [same, named, valued]
          exact eventual_send _ _ _ _
  | toldNew i socket participantId here => exact .same _ _ (seat_broadcast server i _) rfl
  | toldUpdate i socket participantId here => exact .same _ _ (seat_broadcast server i _) rfl
  | left i socket here =>
      have seats : ∀ j, seat (server.leave i) j = if j = i then some (false, socket.userId) else seat server j :=
        seat_modify server i socket here.2.1 fun socket => { socket with connected := false }
      refine .left i socket _ here ?_ ?_
      · rcases disconnect_split server i socket with ⟨same, _⟩ | ⟨userId, _, _, same⟩
        · exact same ▸ seats
        · exact same ▸ seats
      · rcases disconnect_split server i socket with ⟨same, unnamed | blank⟩ | ⟨userId, named, filled, same⟩
        · rw [same, unnamed]
          rfl
        · rw [same, blank]
          rfl
        · rw [same, named]
          simp only [filled, if_false]
          exact (eventual_send _ _ _ _).trans (eventual_send _ _ _ _)
  | executed failure command rest running queue =>
      cases failure with
      | some message => exact absurd trivial errorless
      | none =>
          rw [execute_succeeds]
          refine .same _ _ (fun _ => rfl) ?_
          simp only [eventualList, queue]
          rfl
  | replied answer rest running queue =>
      obtain ⟨seats, listed⟩ := reply_attended { server with replies := rest } answer
      exact .same _ _ seats listed

-- A condition on the event and the state before it, at every step of a run.
def Along (pkg : Packages) (condition : SocketServer → SocketEvent → Prop) : List SocketEvent → SocketServer → Prop
  | [], _ => True
  | event :: rest, server => condition server event ∧ Along pkg condition rest (socketStep pkg server event)

theorem along_run (pkg : Packages) (condition : SocketServer → SocketEvent → Prop) (inv : SocketServer → Prop)
    (events : List SocketEvent)
    (keeps : ∀ server event, event ∈ events → condition server event → inv server → inv (socketStep pkg server event))
    (server : SocketServer) (holds : inv server) (along : Along pkg condition events server) :
    inv (socketRun pkg events server) := by
  induction events generalizing server with
  | nil => exact holds
  | cons event rest ih =>
      apply ih (fun other next member => keeps other next (List.mem_cons_of_mem _ member)) _ _ along.2
      exact keeps server event List.mem_cons_self along.1 holds

def Idle (server : SocketServer) : Prop := server.sent = [] ∧ server.replies = []

def SocketServer.starting (hash : Hash) : SocketServer := { SocketServer.initial with onlineUsersList := hash }

theorem idle_eventual (server : SocketServer) (idle : Idle server) : eventualList server = server.onlineUsersList := by
  rw [eventualList, idle.1]
  rfl

theorem connected_seat (server : SocketServer) (i : Nat) (socket : Socket) (here : Connected server i socket) :
    seat server i = some (true, socket.userId) := by
  rw [seat, here.2.1, ← here.2.2]
  rfl

-- A token names its user, and the last socket of a user is the one that leaves.
def Sole (pkg : Packages) (server : SocketServer) : SocketEvent → Prop
  | .setUser _ token now => ∀ user, verifyClaimWithoutSecret pkg token now = some user → text (user.data .userName) ≠ none
  | .disconnect i => ∀ socket userId, Connected server i socket → socket.userId = some userId → userId ≠ "" →
      ∀ j other, j ≠ i → Connected server j other → other.userId ≠ some userId
  | _ => True

def Listed (server : SocketServer) : Prop := ∀ j userId, seat server j = some (true, some userId) →
    userId ∈ (eventualList server).fields

theorem seated_connected (server : SocketServer) (j : Nat) (userId : Option String) (running : server.crashed = false)
    (seated : seat server j = some (true, userId)) : ∃ socket, Connected server j socket ∧ socket.userId = userId := by
  obtain ⟨socket, here, same⟩ := Option.map_eq_some_iff.mp seated
  obtain ⟨connected, named⟩ := Prod.mk.inj same
  exact ⟨socket, ⟨running, here, connected⟩, named⟩

theorem listed_step (pkg : Packages) (server : SocketServer) (event : SocketEvent) (errorless : ¬ Failing event)
    (sole : Sole pkg server event) (listed : Listed server) : Listed (socketStep pkg server event) := by
  have attended := step_attended pkg server event errorless
  generalize socketStep pkg server event = next at attended
  intro j userId seated
  cases attended with
  | same _ _ seats list =>
      rw [list]
      rw [seats] at seated
      exact listed j userId seated
  | joined _ seats list =>
      rw [list]
      rw [seats] at seated
      split at seated
      · cases seated
      · exact listed j userId seated
  | verified i socket token now user _ here verdict seats list =>
      rw [list]
      rw [seats] at seated
      obtain ⟨value, named⟩ := Option.ne_none_iff_exists'.mp (sole user verdict)
      by_cases own : j = i
      · rw [if_pos own] at seated
        have same : text (user.data .userId) = some userId := by simpa using seated
        simp only [same, named]
        exact (mem_fields_set _ _ _ _).mpr (.inl rfl)
      · rw [if_neg own] at seated
        have before := listed j userId seated
        cases text (user.data .userId) with
        | none => exact before
        | some key =>
            simp only [named]
            exact (mem_fields_set _ _ _ _).mpr (.inr before)
  | left i socket _ here seats list =>
      rw [list]
      rw [seats] at seated
      by_cases own : j = i
      · rw [if_pos own] at seated
        cases seated
      · rw [if_neg own] at seated
        have before := listed j userId seated
        cases gone : socket.userId with
        | none => exact before
        | some leaver =>
            by_cases blank : leaver = ""
            · simp only [blank, if_true]
              exact before
            · simp only [blank, if_false]
              obtain ⟨other, connected, named⟩ := seated_connected server j (some userId) here.1 seated
              refine (mem_fields_delete _ _ _).mpr ⟨?_, before⟩
              rintro rfl
              exact sole socket userId here gone blank j other own connected named

theorem sole_users_stay_listed (pkg : Packages) (hash : Hash) (events : List SocketEvent)
    (errorless : ∀ event ∈ events, ¬ Failing event) (sole : Along pkg (Sole pkg) events (.starting hash)) (server : SocketServer)
    (reached : server = socketRun pkg events (.starting hash)) (idle : Idle server) (i : Nat) (socket : Socket)
    (here : Connected server i socket) (userId : String) (verified : socket.userId = some userId) :
    userId ∈ server.onlineUsersList.fields := by
  have listed : Listed server := by
    rw [reached]
    exact along_run pkg (Sole pkg) Listed events
      (fun server event member => listed_step pkg server event (errorless event member)) _
      (fun _ _ seated => by cases seated) sole
  rw [← idle_eventual server idle]
  exact listed i userId (verified ▸ connected_seat server i socket here)

def allAlong (pkg : Packages) (check : SocketServer → SocketEvent → Bool) : List SocketEvent → SocketServer → Bool
  | [], _ => true
  | event :: rest, server => check server event && allAlong pkg check rest (socketStep pkg server event)

theorem all_along_sound (pkg : Packages) (condition : SocketServer → SocketEvent → Prop)
    (check : SocketServer → SocketEvent → Bool) (sound : ∀ server event, check server event = true → condition server event)
    (events : List SocketEvent) (server : SocketServer) (passed : allAlong pkg check events server = true) :
    Along pkg condition events server := by
  induction events generalizing server with
  | nil => trivial
  | cons event rest ih =>
      obtain ⟨here, later⟩ := Bool.and_eq_true_iff.mp passed
      exact ⟨sound server event here, ih _ later⟩

def soleCheck (pkg : Packages) (server : SocketServer) : SocketEvent → Bool
  | .setUser _ token now => (verifyClaimWithoutSecret pkg token now).all fun user => (text (user.data .userName)).isSome
  | .disconnect i => (server.sockets[i]?.bind Socket.userId).all fun userId => userId == "" ||
      server.sockets.zipIdx.all fun other => other.2 == i || other.1.userId != some userId
  | _ => true

theorem sole_check_sound (pkg : Packages) (server : SocketServer) (event : SocketEvent)
    (passed : soleCheck pkg server event = true) :
    Sole pkg server event := by
  cases event with
  | setUser i token now =>
      intro user verdict
      have named : (text (user.data .userName)).isSome = true := by simpa [soleCheck, verdict] using passed
      exact Option.isSome_iff_ne_none.mp named
  | disconnect i =>
      intro socket userId here named filled j other different connected same
      simp only [soleCheck, here.2.1, Option.bind_some, named, Option.all_some, Bool.or_eq_true,
        beq_iff_eq, filled, false_or] at passed
      have apart := List.all_eq_true.mp passed (other, j) (List.mem_zipIdx_iff_getElem?.mpr connected.2.1)
      simp [different, same] at apart
  | connection | newMeeting | updateInfo | execute | reply => trivial

-- A token of the shape that a login issues, for a user of this id.
def Reference.tokenFor (userId : String) : Js.Value :=
  .str (Reference.token (claimsFor (Reference.ambient 5000 0) (Reference.ambient 5000 1) (Reference.ambient 5000 2) fun
    | .userId => some (.str userId)
    | .userName => some (.str userId)
    | _ => none) secretKey)

def Reference.redisTurns (n : Nat) : List SocketEvent := (List.replicate n [.execute none, .reply]).flatten

def Reference.twoOnline (first second : String) : List SocketEvent :=
  [.connection, .connection, .setUser 0 (Reference.tokenFor first) 6000, .setUser 1 (Reference.tokenFor second) 6000] ++
    Reference.redisTurns 4 ++ .disconnect 1 :: Reference.redisTurns 2

def idleWith (server : SocketServer) (i : Nat) (userId : String) : Bool :=
  server.sent.isEmpty && server.replies.isEmpty && !server.crashed && server.sockets[i]?.any fun socket =>
    socket.connected && socket.userId == some userId

theorem idle_with_sound (server : SocketServer) (i : Nat) (userId : String) (checked : idleWith server i userId = true) :
    Idle server ∧ ∃ socket, Connected server i socket ∧ socket.userId = some userId := by
  simp only [idleWith, Bool.and_eq_true, List.isEmpty_iff, Bool.not_eq_true', Option.any_eq_true, beq_iff_eq] at checked
  obtain ⟨⟨⟨sent, replies⟩, running⟩, socket, here, connected, named⟩ := checked
  exact ⟨⟨sent, replies⟩, socket, ⟨running, here, connected⟩, named⟩

theorem reference_user_stays_listed :
    "u" ∈ (socketRun Reference.packages (Reference.twoOnline "u" "v") (.starting [])).onlineUsersList.fields := by
  have facts : allAlong Reference.packages (soleCheck Reference.packages) (Reference.twoOnline "u" "v") (.starting []) = true ∧
      idleWith (socketRun Reference.packages (Reference.twoOnline "u" "v") (.starting [])) 0 "u" = true := by decide +kernel
  obtain ⟨idle, socket, here, named⟩ := idle_with_sound _ 0 "u" facts.2
  exact sole_users_stay_listed Reference.packages [] (Reference.twoOnline "u" "v")
    (by simp [Reference.twoOnline, Reference.redisTurns, Failing])
    (all_along_sound _ _ _ (sole_check_sound _) _ _ facts.1) _ rfl idle 0 socket here "u" named

-- The same user on two sockets, one of which leaves.
theorem leaving_socket_unlists_user :
    let server := socketRun Reference.packages (Reference.twoOnline "u" "u") (.starting [])
    idleWith server 0 "u" = true ∧ server.onlineUsersList = [] := by
  decide +kernel

-- A socket keeps the user it was verified as, under an id that HDEL is sent
-- for and that HGETALL survives.
def Loyal (pkg : Packages) (server : SocketServer) : SocketEvent → Prop
  | .setUser i token now => ∀ socket user, Connected server i socket → verifyClaimWithoutSecret pkg token now = some user →
      (socket.userId = none ∨ socket.userId = text (user.data .userId)) ∧ text (user.data .userId) ≠ some "" ∧
        text (user.data .userId) ≠ some "toString"
  | _ => True

def quietCommand : RedisCommand → Prop
  | .hmset key _ _ => key ≠ "toString"
  | _ => True

def quietReply : RedisReply → Prop
  | .hgetall _ (.ok hash) => "toString" ∉ hash.fields
  | .hdel (.error _) => False
  | _ => True

-- Nothing under way makes a reply handler throw.
structure Calm (server : SocketServer) : Prop where
  running : server.crashed = false
  list : "toString" ∉ server.onlineUsersList.fields
  sent : ∀ command ∈ server.sent, quietCommand command
  replies : ∀ reply ∈ server.replies, quietReply reply

theorem quiet_executed (command : RedisCommand) (quiet : quietCommand command) (hash : Hash) (list : "toString" ∉ hash.fields) :
    "toString" ∉ (command.apply hash).fields ∧ quietReply (command.answer hash) := by
  cases command with
  | hmset key value i =>
      refine ⟨fun member => ?_, trivial⟩
      rcases (mem_fields_set _ _ _ _).mp member with same | old
      · exact quiet same.symm
      · exact list old
  | hgetall i => exact ⟨list, list⟩
  | hdel key => exact ⟨fun member => list ((mem_fields_delete _ _ _).mp member).2, trivial⟩

theorem calm_send (server : SocketServer) (calm : Calm server) (command : RedisCommand) (quiet : quietCommand command) :
    Calm (server.send command) where
  running := calm.running
  list := calm.list
  replies := calm.replies
  sent := by
    intro other member
    rcases List.mem_append.mp member with old | new
    · exact calm.sent other old
    · exact List.mem_singleton.mp new ▸ quiet

theorem calm_seats (server : SocketServer) (calm : Calm server) (sockets : List Socket) :
    Calm { server with sockets := sockets } :=
  ⟨calm.running, calm.list, calm.sent, calm.replies⟩

theorem calm_reply (server : SocketServer) (calm : Calm server) (answer : RedisReply) (quiet : quietReply answer) :
    Calm (takeReply server answer) := by
  cases answer with
  | hmset i result =>
      cases result with
      | ok => exact calm_send server calm (.hgetall i) trivial
      | error => exact calm
  | hgetall i result =>
      cases result with
      | error => exact calm
      | ok hash =>
          simp only [takeReply, get_all_users_delivers hash quiet]
          exact calm_seats server calm _
  | hdel result =>
      cases result with
      | ok => exact calm
      | error => cases quiet

theorem calm_step (pkg : Packages) (server : SocketServer) (event : SocketEvent) (errorless : ¬ Failing event)
    (loyal : Loyal pkg server event) (calm : Calm server) : Calm (socketStep pkg server event) := by
  have moved := step_moved pkg server event
  generalize socketStep pkg server event = next at moved
  cases moved with
  | still | joined | refused | toldNew | toldUpdate => exact calm_seats server calm _
  | verified i socket token now user here verdict =>
      have seated : Calm (server.identify i (text (user.data .userId))) := calm_seats server calm _
      rcases set_split (server.identify i (text (user.data .userId))) (text (user.data .userId))
          (text (user.data .userName)) i with
        ⟨same, _⟩ | ⟨key, value, named, _, same⟩
      · rw [same]
        exact seated
      · rw [same]
        refine calm_send _ seated _ ?_
        rintro rfl
        exact (loyal socket user here verdict).2.2 named
  | left i socket here =>
      have seated : Calm (server.leave i) := calm_seats server calm _
      rcases disconnect_split server i socket with ⟨same, _⟩ | ⟨userId, _, _, same⟩
      · rw [same]
        exact seated
      · rw [same]
        exact calm_send _ (calm_send _ seated (.hdel userId) trivial) (.hgetall i) trivial
  | executed failure command rest _ queue =>
      cases failure with
      | some message => exact absurd trivial errorless
      | none =>
          rw [execute_succeeds]
          have quiet := quiet_executed command (calm.sent command (by simp [queue])) server.onlineUsersList calm.list
          refine ⟨calm.running, quiet.1, fun other member => calm.sent other (by simp [queue, member]), ?_⟩
          intro reply member
          rcases List.mem_append.mp member with old | new
          · exact calm.replies reply old
          · exact List.mem_singleton.mp new ▸ quiet.2
  | replied answer rest _ queue =>
      refine calm_reply { server with replies := rest } ⟨calm.running, calm.list, calm.sent, ?_⟩ answer
        (calm.replies answer (by simp [queue]))
      exact fun reply member => calm.replies reply (by simp [queue, member])

-- Every field that the list will have is the userId of a connected socket.
structure Owned (server : SocketServer) : Prop where
  owners : ∀ userId ∈ (eventualList server).fields, ∃ j, seat server j = some (true, some userId)
  filled : ∀ j connected, seat server j ≠ some (connected, some "")

section Owners

variable (server next : SocketServer) (owned : Owned server)

include owned

theorem owned_same (seats : ∀ j, seat next j = seat server j) (list : eventualList next = eventualList server) : Owned next := by
  refine ⟨?_, ?_⟩
  · intro userId member
    rw [list] at member
    obtain ⟨j, seated⟩ := owned.owners userId member
    exact ⟨j, by rw [seats, seated]⟩
  · intro j connected
    rw [seats]
    exact owned.filled j connected

theorem owned_joined (seats : ∀ j, seat next j = if j = server.sockets.length then some (true, none) else seat server j)
    (list : eventualList next = eventualList server) : Owned next := by
  refine ⟨?_, ?_⟩
  · intro userId member
    rw [list] at member
    obtain ⟨j, seated⟩ := owned.owners userId member
    have old : j ≠ server.sockets.length := by
      rintro rfl
      simp [seat] at seated
    exact ⟨j, by rw [seats, if_neg old, seated]⟩
  · intro j connected
    rw [seats]
    split
    · simp
    · exact owned.filled j connected

-- Whoever sits at i keeps the seat or had no name before.
theorem owners_stay (i : Nat) (before after : Option String) (mine : seat server i = some (true, before))
    (steady : before = none ∨ before = after) (seats : ∀ j, seat next j = if j = i then some (true, after) else seat server j)
    (userId : String) (member : userId ∈ (eventualList server).fields) : ∃ j, seat next j = some (true, some userId) := by
  obtain ⟨j, seated⟩ := owned.owners userId member
  by_cases own : j = i
  · subst own
    have named : before = some userId := by simpa [mine] using seated
    have again : after = some userId := by simpa [named, eq_comm] using steady
    exact ⟨j, by rw [seats, if_pos rfl, again]⟩
  · exact ⟨j, by rw [seats, if_neg own, seated]⟩

theorem owners_elsewhere (i : Nat) (gone : Option String) (mine : seat server i = some (true, gone))
    (seats : ∀ j, seat next j = if j = i then some (false, gone) else seat server j) (userId : String)
    (different : gone ≠ some userId) (member : userId ∈ (eventualList server).fields) :
    ∃ j, seat next j = some (true, some userId) := by
  obtain ⟨j, seated⟩ := owned.owners userId member
  have other : j ≠ i := by
    rintro rfl
    exact different (by simpa [mine] using seated)
  exact ⟨j, by rw [seats, if_neg other, seated]⟩

end Owners

theorem owned_step (pkg : Packages) (server : SocketServer) (event : SocketEvent) (errorless : ¬ Failing event)
    (loyal : Loyal pkg server event) (owned : Owned server) : Owned (socketStep pkg server event) := by
  have attended := step_attended pkg server event errorless
  generalize socketStep pkg server event = next at attended
  cases attended with
  | same _ _ seats list => exact owned_same server next owned seats list
  | joined _ seats list => exact owned_joined server next owned seats list
  | verified i socket token now user _ here verdict seats list =>
      obtain ⟨steady, nonblank, _⟩ := loyal socket user here verdict
      have kept := owners_stay server next owned i _ _ (connected_seat server i socket here) steady seats
      refine ⟨?_, ?_⟩
      · intro userId member
        rw [list] at member
        split at member
        · next key value named _ =>
            rcases (mem_fields_set _ _ _ _).mp member with rfl | old
            · exact ⟨i, by rw [seats, if_pos rfl, named]⟩
            · exact kept userId old
        · exact kept userId member
      · intro j connected
        rw [seats]
        split
        · intro same
          exact nonblank (Prod.mk.inj (Option.some.inj same)).2
        · exact owned.filled j connected
  | left i socket _ here seats list =>
      have mine := connected_seat server i socket here
      have elsewhere := owners_elsewhere server next owned i _ mine seats
      have nonblank : socket.userId ≠ some "" := fun blank => owned.filled i true (blank ▸ mine)
      refine ⟨?_, ?_⟩
      · intro userId member
        rw [list] at member
        cases gone : socket.userId with
        | none =>
            rw [gone] at member
            exact elsewhere userId (by simp [gone]) member
        | some leaver =>
            have filled : leaver ≠ "" := fun blank => nonblank (by rw [gone, blank])
            simp only [gone, filled, if_false] at member
            obtain ⟨different, before⟩ := (mem_fields_delete _ _ _).mp member
            exact elsewhere userId (by simp [gone, Ne.symm different]) before
      · intro j connected
        rw [seats]
        split
        · intro same
          exact nonblank (Prod.mk.inj (Option.some.inj same)).2
        · exact owned.filled j connected

theorem loyal_sockets_leave_no_ghosts (pkg : Packages) (events : List SocketEvent) (errorless : ∀ event ∈ events, ¬ Failing event)
    (loyal : Along pkg (Loyal pkg) events (.starting [])) (server : SocketServer)
    (reached : server = socketRun pkg events (.starting [])) (idle : Idle server) :
    (∀ userId ∈ server.onlineUsersList.fields, ∃ i socket, Connected server i socket ∧ socket.userId = some userId) ∧
      ((∀ i socket, ¬ Connected server i socket) → server.onlineUsersList = []) := by
  have kept : Calm server ∧ Owned server := by
    rw [reached]
    apply along_run pkg (Loyal pkg) (fun server => Calm server ∧ Owned server) events _ _ _ loyal
    · intro server event member steady both
      exact ⟨calm_step pkg server event (errorless event member) steady both.1,
        owned_step pkg server event (errorless event member) steady both.2⟩
    · refine ⟨⟨rfl, by simp [SocketServer.starting, Hash.fields], by simp [SocketServer.starting, SocketServer.initial],
        by simp [SocketServer.starting, SocketServer.initial]⟩, ?_, ?_⟩
      · intro userId member
        cases member
      · intro j connected seated
        cases seated
  have owners : ∀ userId ∈ server.onlineUsersList.fields, ∃ i socket, Connected server i socket ∧
      socket.userId = some userId := by
    intro userId member
    rw [← idle_eventual server idle] at member
    obtain ⟨j, seated⟩ := kept.2.owners userId member
    obtain ⟨socket, here, named⟩ := seated_connected server j (some userId) kept.1.running seated
    exact ⟨j, socket, here, named⟩
  refine ⟨owners, ?_⟩
  intro nobody
  cases list : server.onlineUsersList with
  | nil => rfl
  | cons entry rest =>
      obtain ⟨i, socket, here, _⟩ := owners entry.1 (by simp [list, Hash.fields])
      exact absurd here (nobody i socket)

def loyalCheck (pkg : Packages) (server : SocketServer) : SocketEvent → Bool
  | .setUser i token now => server.sockets[i]?.all fun socket => (verifyClaimWithoutSecret pkg token now).all fun user =>
      (socket.userId == none || socket.userId == text (user.data .userId)) && text (user.data .userId) != some "" &&
        text (user.data .userId) != some "toString"
  | _ => true

theorem loyal_check_sound (pkg : Packages) (server : SocketServer) (event : SocketEvent)
    (passed : loyalCheck pkg server event = true) :
    Loyal pkg server event := by
  cases event with
  | setUser i token now =>
      intro socket user here verdict
      simpa [loyalCheck, here.2.1, verdict, and_assoc] using passed
  | connection | newMeeting | updateInfo | disconnect | execute | reply => trivial

theorem reference_listed_user_is_online :
    ∃ i socket, Connected (socketRun Reference.packages (Reference.twoOnline "u" "v") (.starting [])) i socket ∧
    socket.userId = some "u" := by
  have facts : allAlong Reference.packages (loyalCheck Reference.packages) (Reference.twoOnline "u" "v") (.starting []) = true ∧
      idleWith (socketRun Reference.packages (Reference.twoOnline "u" "v") (.starting [])) 0 "u" = true ∧
      "u" ∈ (socketRun Reference.packages (Reference.twoOnline "u" "v")
        (.starting [])).onlineUsersList.fields := by decide +kernel
  exact (loyal_sockets_leave_no_ghosts Reference.packages (Reference.twoOnline "u" "v")
    (by simp [Reference.twoOnline, Reference.redisTurns, Failing]) (all_along_sound _ _ _ (loyal_check_sound _) _ _ facts.1) _ rfl
    (idle_with_sound _ 0 "u" facts.2.1).1).1 "u" facts.2.2

def Reference.turncoat : List SocketEvent :=
  [.connection, .setUser 0 (Reference.tokenFor "u") 6000, .setUser 0 (Reference.tokenFor "v") 6000] ++ Reference.redisTurns 4 ++
    .disconnect 0 :: Reference.redisTurns 2

-- A socket that is verified twice takes only its last entry with it.
theorem second_verification_leaves_ghost :
    let server := socketRun Reference.packages Reference.turncoat (.starting [])
    (server.sent.isEmpty && server.replies.isEmpty && !server.crashed && server.sockets.all fun socket => !socket.connected) =
      true ∧ server.onlineUsersList = [("u", "u")] := by
  decide +kernel

end Planner
