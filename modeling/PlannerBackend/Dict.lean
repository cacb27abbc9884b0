import Mathlib.Algebra.Group.Nat.Defs

set_option autoImplicit false

namespace Redis

-- A dictht. A chain lists its entries from the head on. A table that is NULL
-- has no buckets; size and sizemask follow from the table.
structure DictHt (K V : Type) where
  table : List (List (K × V))
  used : Nat
deriving DecidableEq, Repr

structure Dict (K V : Type) where
  ht0 : DictHt K V
  ht1 : DictHt K V
  rehashidx : Option Nat
  iterators : Nat
deriving DecidableEq, Repr

-- A dictEntry pointer: which table, which bucket, how far down its chain.
structure EntryRef where
  second : Bool
  index : Nat
  position : Nat
deriving DecidableEq, Repr

section Tables

variable {K V : Type}

def DictHt.size (ht : DictHt K V) : Nat := ht.table.length

def DictHt.sizemask (ht : DictHt K V) : Nat := ht.size - 1

def dictReset : DictHt K V := ⟨[], 0⟩

def dictCreate : Dict K V := ⟨dictReset, dictReset, none, 0⟩

def Dict.ht (d : Dict K V) (second : Bool) : DictHt K V := if second then d.ht1 else d.ht0

def dictIsRehashing (d : Dict K V) : Bool := d.rehashidx.isSome

def dictSlots (d : Dict K V) : Nat := d.ht0.size + d.ht1.size

def dictSize (d : Dict K V) : Nat := d.ht0.used + d.ht1.used

def dictHtInitialSize : Nat := 4

def dictForceResizeRatio : Nat := 5

def longMax : Nat := 2 ^ 63 - 1

def nextPowerFrom (size i : Nat) (pos : 0 < i) : Nat :=
  if size ≤ i then i else nextPowerFrom size (i * 2) (by omega)
termination_by size - i

def dictNextPower (size : Nat) : Nat :=
  if longMax ≤ size then longMax + 1 else nextPowerFrom size dictHtInitialSize (by decide)

-- The flag is DICT_OK.
def dictExpand (d : Dict K V) (size : Nat) : Dict K V × Bool :=
  if dictIsRehashing d || d.ht0.used > size then (d, false)
  else
    let realsize := dictNextPower size
    if realsize = d.ht0.size then (d, false)
    else
      let n : DictHt K V := ⟨List.replicate realsize [], 0⟩
      if d.ht0.table.isEmpty then ({ d with ht0 := n }, true)
      else ({ d with ht1 := n, rehashidx := some 0 }, true)

-- The global dict_can_resize is off while a child process saves the data.
-- minimal is an int, which keeps the low 32 bits of used.
def dictResize (canResize : Bool) (d : Dict K V) : Dict K V × Bool :=
  if !canResize || dictIsRehashing d then (d, false)
  else
    let minimal := Int.bmod d.ht0.used (2 ^ 32)
    dictExpand d (if minimal < dictHtInitialSize then dictHtInitialSize else minimal.toNat)

def dictExpandIfNeeded (canResize : Bool) (d : Dict K V) : Dict K V × Bool :=
  if dictIsRehashing d then (d, true)
  else if d.ht0.size = 0 then dictExpand d dictHtInitialSize
  else if d.ht0.used ≥ d.ht0.size && (canResize || d.ht0.used / d.ht0.size > dictForceResizeRatio)
    then dictExpand d (d.ht0.used * 2)
  else (d, true)

inductive Skip (K V : Type) where
  | outside
  | tired (index : Nat)
  | found (index visits : Nat) (chain : List (K × V))

-- The loop over the empty buckets from an index on, given the buckets there.
-- It reads on past the end of the table if nothing stops it.
def skipEmpty : List (List (K × V)) → Nat → Nat → Skip K V
  | [], _, _ => .outside
  | [] :: rest, index, visits => if visits - 1 = 0 then .tired (index + 1) else skipEmpty rest (index + 1) (visits - 1)
  | (entry :: chain) :: _, index, visits => .found index visits (entry :: chain)

-- A write outside the table is none.
def DictHt.push (ht : DictHt K V) (index : Nat) (entry : K × V) : Option (DictHt K V) :=
  if index < ht.size then some ⟨ht.table.modify index (entry :: ·), ht.used + 1⟩ else none

end Tables

section Operations

variable {K V : Type} (hash : K → Nat)

def moveEntry (d : Dict K V) (entry : K × V) : Option (Dict K V) :=
  (d.ht1.push (hash entry.1 &&& d.ht1.sizemask) entry).map fun ht1 =>
    { d with ht0 := { d.ht0 with used := d.ht0.used - 1 }, ht1 := ht1 }

def moveChain : List (K × V) → Dict K V → Option (Dict K V)
  | [], d => some d
  | entry :: rest, d => (moveEntry hash d entry).bind (moveChain rest)

def moveBucket (d : Dict K V) (index : Nat) (chain : List (K × V)) : Option (Dict K V) :=
  (moveChain hash chain d).map fun d =>
    { d with ht0 := { d.ht0 with table := d.ht0.table.set index [] }, rehashidx := some (index + 1) }

def finishRehash (d : Dict K V) : Dict K V × Bool :=
  if d.ht0.used = 0 then ({ d with ht0 := d.ht1, ht1 := dictReset, rehashidx := none }, false) else (d, true)

-- none is a failed assertion or an access outside a table; the flag tells
-- whether there is more to rehash.
def rehashLoop : Nat → Nat → Dict K V → Option (Dict K V × Bool)
  | 0, _, d => some (finishRehash d)
  | n + 1, visits, d =>
      if d.ht0.used = 0 then some (finishRehash d)
      else match d.rehashidx with
        | none => none
        | some index =>
            if index < d.ht0.size then
              match skipEmpty (d.ht0.table.drop index) index visits with
              | .outside => none
              | .tired stop => some ({ d with rehashidx := some stop }, true)
              | .found here left chain => (moveBucket hash d here chain).bind (rehashLoop n left)
            else none

def dictRehash (d : Dict K V) (n : Nat) : Option (Dict K V × Bool) :=
  if dictIsRehashing d then rehashLoop hash n (n * 10) d else some (d, false)

def dictRehashStep (d : Dict K V) : Option (Dict K V) :=
  if d.iterators = 0 then (dictRehash hash d 1).map Prod.fst else some d

def rehashStepIfRehashing (d : Dict K V) : Option (Dict K V) :=
  if dictIsRehashing d then dictRehashStep hash d else some d

variable [DecidableEq K]

def searchHt (ht : DictHt K V) (key : K) : Option (Option (Nat × Nat)) :=
  (ht.table[hash key &&& ht.sizemask]?).map fun chain =>
    (chain.findIdx? fun entry => entry.1 = key).map fun position => (hash key &&& ht.sizemask, position)

-- The loop over the two tables that dictFind, _dictKeyIndex and
-- dictGenericDelete each write out.
def dictSearch (d : Dict K V) (key : K) : Option (Option EntryRef) :=
  (searchHt hash d.ht0 key).bind fun
    | some (index, position) => some (some ⟨false, index, position⟩)
    | none =>
        if dictIsRehashing d then
          (searchHt hash d.ht1 key).map fun found => found.map fun (index, position) => ⟨true, index, position⟩
        else some none

def Dict.entryAt (d : Dict K V) (ref : EntryRef) : Option (K × V) :=
  ((d.ht ref.second).table[ref.index]?).bind fun chain => chain[ref.position]?

def Dict.modifyHt (d : Dict K V) (second : Bool) (change : DictHt K V → DictHt K V) : Dict K V :=
  if second then { d with ht1 := change d.ht1 } else { d with ht0 := change d.ht0 }

def dictSetVal (d : Dict K V) (ref : EntryRef) (val : V) : Dict K V :=
  d.modifyHt ref.second fun ht =>
    { ht with table := ht.table.modify ref.index fun chain => chain.modify ref.position fun entry => (entry.1, val) }

def dictFind (d : Dict K V) (key : K) : Option (Dict K V × Option EntryRef) :=
  if d.ht0.used + d.ht1.used = 0 then some (d, none)
  else (rehashStepIfRehashing hash d).bind fun d => (dictSearch hash d key).map fun found => (d, found)

def dictFetchValue (d : Dict K V) (key : K) : Option (Dict K V × Option V) :=
  (dictFind hash d key).map fun (d, found) => (d, (found.bind d.entryAt).map Prod.snd)

inductive Added where
  | failed
  | existing (ref : EntryRef)
  | added
deriving DecidableEq, Repr

def dictKeyIndex (canResize : Bool) (d : Dict K V) (key : K) : Option (Dict K V × Except Added Nat) :=
  let expanded := dictExpandIfNeeded canResize d
  if expanded.2 then
    (dictSearch hash expanded.1 key).map fun
      | some ref => (expanded.1, .error (.existing ref))
      | none => (expanded.1, .ok (hash key &&& (expanded.1.ht (dictIsRehashing expanded.1)).sizemask))
  else some (expanded.1, .error .failed)

-- The caller fills in the value of the new entry at once.
def dictAddRaw (canResize : Bool) (d : Dict K V) (key : K) (val : V) : Option (Dict K V × Added) :=
  (rehashStepIfRehashing hash d).bind fun d =>
    (dictKeyIndex hash canResize d key).bind fun
      | (d, .error outcome) => some (d, outcome)
      | (d, .ok index) =>
          ((d.ht (dictIsRehashing d)).push index (key, val)).map fun ht => (d.modifyHt (dictIsRehashing d) fun _ => ht, .added)

def dictAdd (canResize : Bool) (d : Dict K V) (key : K) (val : V) : Option (Dict K V × Bool) :=
  (dictAddRaw hash canResize d key val).map fun (d, outcome) => (d, outcome = .added)

-- The result tells whether the key is new.
def dictReplace (canResize : Bool) (d : Dict K V) (key : K) (val : V) : Option (Dict K V × Bool) :=
  (dictAddRaw hash canResize d key val).bind fun
    | (d, .added) => some (d, true)
    | (d, .existing ref) => some (dictSetVal d ref val, false)
    | (_, .failed) => none

def unlinkAt (d : Dict K V) (ref : EntryRef) : Dict K V :=
  d.modifyHt ref.second fun ht => ⟨ht.table.modify ref.index fun chain => chain.eraseIdx ref.position, ht.used - 1⟩

def dictGenericDelete (d : Dict K V) (key : K) : Option (Dict K V × Option (K × V)) :=
  if d.ht0.used = 0 && d.ht1.used = 0 then some (d, none)
  else (rehashStepIfRehashing hash d).bind fun d =>
    (dictSearch hash d key).map fun
      | some ref => (unlinkAt d ref, d.entryAt ref)
      | none => (d, none)

def dictDelete (d : Dict K V) (key : K) : Option (Dict K V × Bool) :=
  (dictGenericDelete hash d key).map fun (d, removed) => (d, removed.isSome)

end Operations

section Iterators

variable {K V : Type}

-- An unsafe iterator: entry is the rest of the chain from the entry returned
-- last, NULL before the first; the index is -1 then.
structure DictIterator (K V : Type) where
  second : Bool
  index : Option Nat
  entry : List (K × V)
deriving DecidableEq, Repr

def dictGetIterator : DictIterator K V := ⟨false, none, []⟩

-- The next chain that is not NULL, with the index of its bucket.
def nextChain : List (List (K × V)) → Nat → Option (Nat × List (K × V))
  | [], _ => none
  | [] :: rest, index => nextChain rest (index + 1)
  | (entry :: chain) :: _, index => some (index, entry :: chain)

def nextInTable (d : Dict K V) (second : Bool) (index : Nat) : Option (DictIterator K V) :=
  (nextChain ((d.ht second).table.drop index) index).map fun (found, chain) => ⟨second, some found, chain⟩

-- In the table the iterator is in from the next index on, then in the second.
def nextBucket (d : Dict K V) (iter : DictIterator K V) : Option (DictIterator K V) :=
  (nextInTable d iter.second (iter.index.elim 0 (· + 1))).or
    (if dictIsRehashing d && !iter.second then nextInTable d true 0 else none)

-- The iterator stands at the entry that is returned; none is NULL.
def dictNext (d : Dict K V) (iter : DictIterator K V) : Option (DictIterator K V) :=
  match iter.entry with
  | _ :: following :: rest => some { iter with entry := following :: rest }
  | _ => nextBucket d iter

end Iterators

end Redis
