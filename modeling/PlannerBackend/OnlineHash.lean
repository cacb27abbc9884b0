import PlannerBackend.HashRun
import PlannerBackend.OnlineList

set_option autoImplicit false

namespace Planner

open Redis Function

-- The client writes a string to its connection in UTF-8.
def utf8 (s : String) : Sds := s.toUTF8.data.toList

theorem utf8_injective : Injective utf8 := by
  intro s t same
  have bytes : s.toByteArray = t.toByteArray := ByteArray.ext (Array.toList_inj.mp same)
  exact String.toByteArray_inj.mp bytes

def sentEntry (entry : String × String) : Sds × Sds := (utf8 entry.1, utf8 entry.2)

def RedisCommand.written : RedisCommand → HashCommand
  | .hmset key value _ => .hmset [(utf8 key, utf8 value)]
  | .hgetall _ => .hgetall
  | .hdel key => .hdel [utf8 key]

-- The reply that the callbacks get, and the one that Redis gives. The object
-- that HGETALL is turned into has no order of its own.
def Carries : RedisReply → HashReply → Prop
  | .hmset _ (.ok _), .ok => True
  | .hgetall _ (.ok hash), .pairs list => list.Perm (hash.map sentEntry)
  | .hdel (.ok _), .integer _ => True
  | _, _ => False

-- The command that Redis executes at an event.
def executedAt (server : SocketServer) : SocketEvent → Option RedisCommand
  | .execute none => if server.crashed then none else server.sent.head?
  | _ => none

-- What Redis executes in a run, each command with the reply it is given.
def exchanged (pkg : Packages) : List SocketEvent → SocketServer → List (RedisCommand × RedisReply)
  | [], _ => []
  | event :: rest, server =>
      ((executedAt server event).bind fun command => (socketStep pkg server event).replies.getLast?.map (command, ·)).toList ++
        exchanged pkg rest (socketStep pkg server event)

-- The k-th command of a run meets the k-th situation.
def asEvents (situation : Nat → (Nat → UInt8) × Bool) : Nat → List RedisCommand → List HashEvent
  | _, [] => []
  | k, command :: rest => ⟨(situation k).1, (situation k).2, command.written⟩ :: asEvents situation (k + 1) rest

-- The key holds these users and no others.
def HoldsUsers (limits : HashLimits) (hash : Sds → Nat) (n : Nat) (key : Option HashObject) (users : Hash) : Prop :=
  ∃ m, KeyMeans limits hash n m key ∧ Listing (users.map sentEntry) m

theorem holds_le (limits : HashLimits) (hash : Sds → Nat) (n k : Nat) (key : Option HashObject) (users : Hash)
    (holds : HoldsUsers limits hash n key users) (le : n ≤ k) : HoldsUsers limits hash k key users := by
  obtain ⟨m, means, listing⟩ := holds
  exact ⟨m, key_means_le limits hash n k m key means le, listing⟩

theorem listing_without (pairs : List (Sds × Sds)) (m : Sds → Option Sds) (listing : Listing pairs m) (key : Sds) :
    Listing (pairs.filter fun pair => pair.1 ≠ key) (update m key none) := by
  refine ⟨listing.1.sublist (List.filter_sublist.map _), ?_⟩
  intro other val
  rw [List.mem_filter, listing.2]
  by_cases same : other = key
  · simp [same]
  · simp [same]

theorem sent_without (users : Hash) (key : String) :
    (users.filter fun entry => entry.1 != key).map sentEntry = (users.map sentEntry).filter fun pair => pair.1 ≠ utf8 key := by
  rw [List.filter_map]
  congr 2
  funext entry
  simp [sentEntry, utf8_injective.eq_iff, bne, beq_eq_decide]

theorem delete_listed (users : Hash) (m : Sds → Option Sds) (listing : Listing (users.map sentEntry) m) (key : String) :
    Listing ((users.delete key).map sentEntry) (update m (utf8 key) none) := by
  rw [Hash.delete, sent_without]
  exact listing_without _ m listing (utf8 key)

theorem set_listed (users : Hash) (m : Sds → Option Sds) (listing : Listing (users.map sentEntry) m) (key value : String) :
    Listing ((users.set key value).map sentEntry) (update m (utf8 key) (some (utf8 value))) := by
  have put := listing_add (delete_listed users m listing key) (utf8 key) (utf8 value) (update_self _ _ _)
    (List.perm_append_singleton _ _)
  rw [update_idem] at put
  rw [Hash.set, List.map_append]
  exact put

section Exchange

variable (limits : HashLimits) (fit : limits.Fit) (hash : Sds → Nat)

include fit

theorem command_carried (stale : Nat → UInt8) (canResize : Bool) (n : Nat) (key : Option HashObject) (users : Hash)
    (holds : HoldsUsers limits hash n key users) (bounded : n + 1 < 2 ^ 30) (command : RedisCommand) :
    ∃ next reply, hashCommand limits hash stale canResize key command.written = some (next, reply) ∧
    Carries (command.answer users) reply ∧
      HoldsUsers limits hash (n + 1) next (command.apply users) := by
  obtain ⟨m, means, listing⟩ := holds
  have puts : command.written.puts ≤ 1 := by cases command <;> simp [RedisCommand.written, HashCommand.puts]
  obtain ⟨next, reply, ran, answers, meansNext⟩ :=
    hash_command_refines limits hash fit stale canResize key n m means command.written (by omega)
  refine ⟨next, reply, ran, ?_, mapAfter m command.written, key_means_le limits hash _ _ _ next meansNext (by omega), ?_⟩
  · cases command with
    | hmset key value i =>
        cases reply with
        | ok => trivial
        | _ => exact answers
    | hgetall i =>
        cases reply with
        | pairs list => exact listings_perm list _ m answers listing
        | _ => exact answers
    | hdel key =>
        cases reply with
        | integer n => trivial
        | _ => exact answers
  · cases command with
    | hmset key value i => exact set_listed users m listing key value
    | hgetall i => exact listing
    | hdel key => exact delete_listed users m listing key

end Exchange

theorem reply_keeps_list (server : SocketServer) (answer : RedisReply) :
    (takeReply server answer).onlineUsersList = server.onlineUsersList := by
  cases answer with
  | hmset i result => cases result <;> rfl
  | hgetall i result =>
      simp only [takeReply]
      repeat' split
      all_goals rfl
  | hdel result => cases result <;> rfl

-- An event changes the list as the command that is executed at it does, and
-- the reply to the command is the newest.
theorem step_runs_command (pkg : Packages) (server : SocketServer) (event : SocketEvent) :
    match executedAt server event with
    | none => (socketStep pkg server event).onlineUsersList = server.onlineUsersList
    | some command => (socketStep pkg server event).onlineUsersList = command.apply server.onlineUsersList ∧
        (socketStep pkg server event).replies.getLast? = some (command.answer server.onlineUsersList) := by
  cases at_ : executedAt server event with
  | some command =>
      cases event with
      | execute failure =>
          cases failure with
          | some err => cases at_
          | none =>
              simp only [executedAt] at at_
              split at at_
              · cases at_
              · next running =>
                  obtain ⟨rest, queue⟩ : ∃ rest, server.sent = command :: rest := by
                    cases sent : server.sent with
                    | nil => simp [sent] at at_
                    | cons first rest => exact ⟨rest, by simpa [sent] using at_⟩
                  simp only [socketStep, if_neg running, queue, execute_succeeds]
                  exact ⟨trivial, List.getLast?_concat⟩
      | _ => cases at_
  | none =>
      have moved := step_moved pkg server event
      generalize socketStep pkg server event = next at moved
      cases moved with
      | still => rfl
      | joined => rfl
      | refused => rfl
      | verified i socket token now user here verdict => exact (set_kept _ _ _ i).1
      | toldNew => rfl
      | toldUpdate => rfl
      | left i socket => exact (disconnect_kept server i socket).2.1
      | executed failure command rest running queue =>
          cases failure with
          | none => simp [executedAt, running, queue] at at_
          | some err => cases command <;> rfl
      | replied answer rest => exact reply_keeps_list _ answer

theorem exchange_carried (pkg : Packages) (limits : HashLimits) (fit : limits.Fit) (hash : Sds → Nat)
    (situation : Nat → (Nat → UInt8) × Bool) (events : List SocketEvent) (server : SocketServer) (k n : Nat)
    (key : Option HashObject) (holds : HoldsUsers limits hash n key server.onlineUsersList)
    (bounded : n + events.length < 2 ^ 30) :
    ∃ next replies, hashRun limits hash (asEvents situation k ((exchanged pkg events server).map Prod.fst)) key =
    some (next, replies) ∧
      List.Forall₂ Carries ((exchanged pkg events server).map Prod.snd) replies ∧
      HoldsUsers limits hash (n + events.length) next (socketRun pkg events server).onlineUsersList := by
  induction events generalizing server k n key with
  | nil => exact ⟨key, [], rfl, .nil, holds⟩
  | cons event rest ih =>
      rw [List.length_cons] at bounded ⊢
      have stepped := step_runs_command pkg server event
      cases at_ : executedAt server event with
      | none =>
          rw [at_] at stepped
          obtain ⟨next, replies, ran, carried, held⟩ := ih (socketStep pkg server event) k n key (by rwa [stepped]) (by omega)
          have same : exchanged pkg (event :: rest) server = exchanged pkg rest (socketStep pkg server event) := by
            rw [exchanged, at_]
            rfl
          rw [same]
          exact ⟨next, replies, ran, carried, holds_le limits hash _ _ next _ held (by omega)⟩
      | some command =>
          rw [at_] at stepped
          obtain ⟨list, answer⟩ := stepped
          obtain ⟨once, reply, ranOnce, carriedOnce, heldOnce⟩ :=
            command_carried limits fit hash (situation k).1 (situation k).2 n key server.onlineUsersList holds (by omega) command
          obtain ⟨next, replies, ran, carried, held⟩ :=
            ih (socketStep pkg server event) (k + 1) (n + 1) once (by rwa [list]) (by omega)
          have same : exchanged pkg (event :: rest) server =
              (command, command.answer server.onlineUsersList) :: exchanged pkg rest (socketStep pkg server event) := by
            rw [exchanged, at_, Option.bind_some, answer]
            rfl
          rw [same]
          refine ⟨next, reply :: replies, ?_, .cons carriedOnce carried, holds_le limits hash _ _ next _ held (by omega)⟩
          simp only [List.map_cons, asEvents, hashRun, ranOnce, Option.bind_eq_bind, Option.bind_some, ran]
          rfl

-- The commands of the socket server, executed by Redis itself on the bytes
-- that the client writes, give the replies that its callbacks are modelled
-- with: through any run HGETALL tells the users of the online list, each once.
theorem redis_serves_online_list (pkg : Packages) (limits : HashLimits) (fit : limits.Fit) (hash : Sds → Nat)
    (situation : Nat → (Nat → UInt8) × Bool) (events : List SocketEvent) (bounded : events.length < 2 ^ 30) :
    ∃ key replies, hashRun limits hash (asEvents situation 0 ((exchanged pkg events .initial).map Prod.fst)) none =
    some (key, replies) ∧
      List.Forall₂ Carries ((exchanged pkg events .initial).map Prod.snd) replies := by
  have empty : HoldsUsers limits hash 0 none SocketServer.initial.onlineUsersList := ⟨fun _ => none, rfl, nothing_listed⟩
  obtain ⟨key, replies, ran, carried, _⟩ :=
    exchange_carried pkg limits fit hash situation events .initial 0 0 none empty (by omega)
  exact ⟨key, replies, ran, carried⟩

theorem reference_redis_serves :
    (exchanged Reference.packages (Reference.twoOnline "u" "v") .initial).length = 6 ∧
      ∃ key replies, hashRun .default (fun _ => 0)
          (asEvents (fun _ => (fun _ => 7, true)) 0
            ((exchanged Reference.packages (Reference.twoOnline "u" "v") .initial).map Prod.fst)) none =
            some (key, replies) ∧
        List.Forall₂ Carries ((exchanged Reference.packages (Reference.twoOnline "u" "v") .initial).map Prod.snd) replies :=
  ⟨by decide +kernel, redis_serves_online_list Reference.packages .default (by unfold HashLimits.Fit; decide) (fun _ => 0)
    (fun _ => (fun _ => 7, true)) (Reference.twoOnline "u" "v") (by decide)⟩

end Planner
