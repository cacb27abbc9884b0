import PlannerBackend.DictMap
import PlannerBackend.ZiplistList

set_option autoImplicit false

namespace Redis

open Memory

-- hash_max_ziplist_entries and hash_max_ziplist_value of the server.
structure HashLimits where
  maxEntries : Nat
  maxValue : Nat
deriving DecidableEq, Repr

def HashLimits.default : HashLimits := ⟨512, 64⟩

-- The encoding of a hash, with what its pointer leads to.
inductive HashObject where
  | ziplist (zl : Block)
  | ht (d : Dict Sds Sds)
deriving DecidableEq, Repr

def createHashObject : HashObject := .ziplist ziplistNew

def hashtableMinFill : Nat := 10

def htNeedsResize (d : Dict Sds Sds) : Bool :=
  decide (dictSlots d > dictHtInitialSize) && decide (dictSize d * 100 / dictSlots d < hashtableMinFill)

section Ziplists

variable (zl : Block)

-- The search for a field that three functions begin with; NULL is none.
def fieldPointer (field : Sds) : Option (Option Nat) :=
  (ziplistIndex zl 0).bind fun head => head.elim (some none) fun p => ziplistFind zl p field 1

-- Here and below none is an assertion that fails.
def hashTypeGetFromZiplist (field : Sds) : Option (Option ZipValue) := do
  match ← fieldPointer zl field with
  | none => some none
  | some fptr =>
      let vptr ← (ziplistNext zl fptr).join
      let value ← (ziplistGet zl vptr).join
      return some value

end Ziplists

inductive HashIterator where
  | ziplist (cursor : Option (Nat × Nat))
  | ht (di : DictIterator Sds Sds)

def hashTypeInitIterator : HashObject → HashIterator
  | .ziplist _ => .ziplist none
  | .ht _ => .ht dictGetIterator

-- The end is none. An iterator belongs to an object of its encoding.
def hashTypeNext : HashObject → HashIterator → Option (Option HashIterator)
  | .ziplist zl, .ziplist cursor => do
      match ← cursor.elim (ziplistIndex zl 0) fun (_, vptr) => ziplistNext zl vptr with
      | none => some none
      | some fptr => return some (.ziplist (some (fptr, ← (ziplistNext zl fptr).join)))
  | .ht d, .ht di => some ((dictNext d di).map .ht)
  | _, _ => none

-- The field and the value that the iterator stands at.
def hashTypeCurrentObject : HashObject → HashIterator → Option (ZipValue × ZipValue)
  | .ziplist zl, .ziplist (some (fptr, vptr)) => do return (← (ziplistGet zl fptr).join, ← (ziplistGet zl vptr).join)
  | .ht _, .ht di => di.entry.head?.map fun (key, val) => (.str key, .str val)
  | _, _ => none

-- The loop of the callers, until hashTypeNext returns C_ERR.
def eachPair (o : HashObject) : Nat → HashIterator → Option (List (ZipValue × ZipValue))
  | 0, _ => none
  | fuel + 1, hi => do
      match ← hashTypeNext o hi with
      | none => some []
      | some hi =>
          let pair ← hashTypeCurrentObject o hi
          return pair :: (← eachPair o fuel hi)

def HashObject.fuel : HashObject → Nat
  | .ziplist zl => zl.length
  | .ht d => dictSize d + 1

def allPairs (o : HashObject) : Option (List (ZipValue × ZipValue)) := eachPair o o.fuel (hashTypeInitIterator o)

section Server

variable (limits : HashLimits) (hash : Sds → Nat) (stale : Nat → UInt8) (canResize : Bool)

-- A field that is there already is a corrupted ziplist, which is none.
def addPairs : List (ZipValue × ZipValue) → Dict Sds Sds → Option (Dict Sds Sds)
  | [], d => some d
  | (key, value) :: rest, d => do
      let (d, ok) ← dictAdd hash canResize d (sdsOf key) (sdsOf value)
      if ok then addPairs rest d else none

-- To OBJ_ENCODING_HT, the only encoding that is asked for.
def hashTypeConvert : HashObject → Option HashObject
  | .ziplist zl => do
      let pairs ← allPairs (.ziplist zl)
      return .ht (← addPairs hash canResize pairs dictCreate)
  | .ht _ => none

def hashTypeTryConversion (o : HashObject) (argv : List Sds) : Option HashObject :=
  match o with
  | .ziplist zl =>
      if argv.any (fun arg => arg.length > limits.maxValue) then hashTypeConvert hash canResize (.ziplist zl) else some o
  | .ht _ => some o

def hashTypeGetFromHashTable (d : Dict Sds Sds) (field : Sds) : Option (Dict Sds Sds × Option Sds) := do
  let (d, de) ← dictFind hash d field
  return (d, (de.bind d.entryAt).map Prod.snd)

def hashTypeGetValue (o : HashObject) (field : Sds) : Option (HashObject × Option ZipValue) :=
  match o with
  | .ziplist zl => do return (o, ← hashTypeGetFromZiplist zl field)
  | .ht d => do
      let (d, value) ← hashTypeGetFromHashTable hash d field
      return (.ht d, value.map .str)

def hashTypeExists (o : HashObject) (field : Sds) : Option (HashObject × Bool) := do
  let (o, value) ← hashTypeGetValue hash o field
  return (o, value.isSome)

def hashTypeLength : HashObject → Option (HashObject × Nat)
  | .ziplist zl => do
      let (zl, length) ← ziplistLen zl
      return (.ziplist zl, length / 2)
  | .ht d => some (.ht d, dictSize d)

-- The value of the field is replaced, or the pair goes to the tail.
def setInZiplist (zl : Block) (field value : Sds) : Option (Block × Bool) := do
  match ← fieldPointer zl field with
  | some fptr =>
      let vptr ← (ziplistNext zl fptr).join
      let zl ← ziplistDelete stale zl vptr
      return (← ziplistInsert stale zl vptr value, true)
  | none =>
      let zl ← ziplistPush stale zl field .tail
      return (← ziplistPush stale zl value .tail, false)

-- The flag is 1 on update.
def hashTypeSet (o : HashObject) (field value : Sds) : Option (HashObject × Bool) :=
  match o with
  | .ziplist zl => do
      let (zl, update) ← setInZiplist stale zl field value
      let (o, length) ← hashTypeLength (.ziplist zl)
      if length > limits.maxEntries then return (← hashTypeConvert hash canResize o, update) else return (o, update)
  | .ht d => do
      let (d, de) ← dictFind hash d field
      match de with
      | some ref => return (.ht (dictSetVal d ref value), true)
      | none => return (.ht (← dictAdd hash canResize d field value).1, false)

def hashTypeDelete (o : HashObject) (field : Sds) : Option (HashObject × Bool) :=
  match o with
  | .ziplist zl => do
      match ← fieldPointer zl field with
      | none => some (o, false)
      | some fptr =>
          let zl ← ziplistDelete stale zl fptr
          return (.ziplist (← ziplistDelete stale zl fptr), true)
  | .ht d => do
      let (d, deleted) ← dictDelete hash d field
      return (.ht (if deleted && htNeedsResize d then (dictResize canResize d).1 else d), deleted)

def setPairs : List (Sds × Sds) → HashObject → Nat → Option (HashObject × Nat)
  | [], o, created => some (o, created)
  | (field, value) :: rest, o, created => do
      let (o, update) ← hashTypeSet limits hash stale canResize o field value
      setPairs rest o (created + if update then 0 else 1)

-- The key of the database, which may hold nothing, and how many fields are new.
def hsetCommand (key : Option HashObject) (pairs : List (Sds × Sds)) : Option (Option HashObject × Nat) := do
  let o ← hashTypeTryConversion limits hash canResize (key.getD createHashObject) (pairs.flatMap fun pair => [pair.1, pair.2])
  let (o, created) ← setPairs limits hash stale canResize pairs o 0
  return (some o, created)

-- A hash that loses its last field is removed, and no more fields are looked at.
def deleteFields : List Sds → HashObject → Nat → Option (Option HashObject × Nat)
  | [], o, deleted => some (some o, deleted)
  | field :: rest, o, deleted => do
      let (o, gone) ← hashTypeDelete hash stale canResize o field
      if gone then
        let (o, length) ← hashTypeLength o
        if length = 0 then some (none, deleted + 1) else deleteFields rest o (deleted + 1)
      else deleteFields rest o deleted

def hdelCommand (key : Option HashObject) (fields : List Sds) : Option (Option HashObject × Nat) :=
  key.elim (some (none, 0)) fun o => deleteFields hash stale canResize fields o 0

-- addReplyBulkCBuffer or addReplyBulkLongLong, with what is in its buffer.
def replyBulk (buf : Block) : ZipValue → Option Sds
  | .str s => some s
  | .int v => (ll2string buf v).map fun (buf, len) => buf.take len

def replyBuffer : Block := (List.range 64).map stale

def hgetCommand (key : Option HashObject) (field : Sds) : Option (Option HashObject × Option Sds) :=
  key.elim (some (none, none)) fun o => do
    let (o, value) ← hashTypeGetValue hash o field
    match value with
    | none => return (some o, none)
    | some value => return (some o, some (← replyBulk (replyBuffer stale) value))

def hexistsCommand (key : Option HashObject) (field : Sds) : Option (Option HashObject × Bool) :=
  key.elim (some (none, false)) fun o => do
    let (o, found) ← hashTypeExists hash o field
    return (some o, found)

def hlenCommand (key : Option HashObject) : Option (Option HashObject × Nat) :=
  key.elim (some (none, 0)) fun o => do
    let (o, length) ← hashTypeLength o
    return (some o, length)

def intMax : Nat := 2147483647

def replyPairs (buf : Block) : List (ZipValue × ZipValue) → Option (List (Sds × Sds))
  | [] => some []
  | (key, value) :: rest => do return (← replyBulk buf key, ← replyBulk buf value) :: (← replyPairs buf rest)

-- The reply announces length strings; length and count are ints, and they
-- are compared at the end.
def hgetallCommand (key : Option HashObject) : Option (Option HashObject × List (Sds × Sds)) :=
  key.elim (some (none, [])) fun o => do
    let (o, length) ← hashTypeLength o
    let pairs ← replyPairs (replyBuffer stale) (← allPairs o)
    if 2 * pairs.length ≤ intMax ∧ Int.bmod (2 * length : Nat) (2 ^ 32) = 2 * pairs.length then return (some o, pairs) else none

end Server

inductive HashCommand where
  | hset (pairs : List (Sds × Sds))
  | hmset (pairs : List (Sds × Sds))
  | hdel (fields : List Sds)
  | hget (field : Sds)
  | hexists (field : Sds)
  | hlen
  | hgetall

inductive HashReply where
  | ok
  | integer (n : Nat)
  | bulk (s : Option Sds)
  | pairs (list : List (Sds × Sds))
deriving DecidableEq, Repr

section Commands

variable (limits : HashLimits) (hash : Sds → Nat)

def hashCommand (stale : Nat → UInt8) (canResize : Bool) (key : Option HashObject) :
    HashCommand → Option (Option HashObject × HashReply)
  | .hset pairs => (hsetCommand limits hash stale canResize key pairs).map fun (key, created) => (key, .integer created)
  | .hmset pairs => (hsetCommand limits hash stale canResize key pairs).map fun (key, _) => (key, .ok)
  | .hdel fields => (hdelCommand hash stale canResize key fields).map fun (key, deleted) => (key, .integer deleted)
  | .hget field => (hgetCommand hash stale key field).map fun (key, value) => (key, .bulk value)
  | .hexists field => (hexistsCommand hash key field).map fun (key, found) => (key, .integer found.toNat)
  | .hlen => (hlenCommand key).map fun (key, length) => (key, .integer length)
  | .hgetall => (hgetallCommand stale key).map fun (key, list) => (key, .pairs list)

-- A command with what lies in fresh memory and whether dicts may be resized.
structure HashEvent where
  stale : Nat → UInt8
  canResize : Bool
  command : HashCommand

def hashRun : List HashEvent → Option HashObject → Option (Option HashObject × List HashReply)
  | [], key => some (key, [])
  | event :: rest, key => do
      let (key, reply) ← hashCommand limits hash event.stale event.canResize key event.command
      let (key, replies) ← hashRun rest key
      return (key, reply :: replies)

end Commands

end Redis
