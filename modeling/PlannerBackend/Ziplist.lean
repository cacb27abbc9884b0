import PlannerBackend.Decimal

set_option autoImplicit false

namespace Redis

open Memory

def zipEnd : UInt8 := 255

def zipBigPrevlen : Nat := 254

def zipStr06B : Nat := 0

def zipStr14B : Nat := 64

def zipStr32B : Nat := 128

def zipInt16B : Nat := 192

def zipInt32B : Nat := 208

def zipInt64B : Nat := 224

def zipInt24B : Nat := 240

def zipIntImmMin : Nat := 241

def zipIntImmMax : Nat := 253

def zipInt8B : Nat := 254

def uint16Max : Nat := 65535

-- The two bits of ZIP_STR_MASK are both set in no string encoding.
def zipIsStr (encoding : Nat) : Bool := decide (encoding / 64 * 64 < 192)

def ziplistHeaderSize : Nat := 10

def ziplistBytes (zl : Block) : Option Nat := (load zl 0 4).map unle

def ziplistTailOffset (zl : Block) : Option Nat := (load zl 4 4).map unle

def ziplistLength (zl : Block) : Option Nat := (load zl 8 2).map unle

def setZiplistBytes (zl : Block) (bytes : Nat) : Option Block := store zl 0 (le 4 bytes)

def setZiplistTailOffset (zl : Block) (offset : Nat) : Option Block := store zl 4 (le 4 offset)

def setZiplistLength (zl : Block) (length : Nat) : Option Block := store zl 8 (le 2 length)

def ziplistIncrLength (zl : Block) (incr : Int) : Option Block := do
  let length ← ziplistLength zl
  if length < uint16Max then setZiplistLength zl (wordOf 2 (length + incr)) else some zl

structure Zlentry where
  prevrawlensize : Nat
  prevrawlen : Nat
  lensize : Nat
  len : Nat
  headersize : Nat
  encoding : Nat
deriving DecidableEq, Repr

def zipEntryEncoding (byte : UInt8) : Nat := if byte.toNat < 192 then byte.toNat / 64 * 64 else byte.toNat

def zipIntSize (encoding : Nat) : Option Nat :=
  if encoding = zipInt8B then some 1
  else if encoding = zipInt16B then some 2
  else if encoding = zipInt24B then some 3
  else if encoding = zipInt32B then some 4
  else if encoding = zipInt64B then some 8
  else if zipIntImmMin ≤ encoding ∧ encoding ≤ zipIntImmMax then some 0
  else none

-- What zipStoreEntryEncoding writes. Without a destination it only returns how
-- long this is.
def entryEncoding (encoding rawlen : Nat) : Block :=
  if zipIsStr encoding then
    if rawlen ≤ 63 then [UInt8.ofNat (zipStr06B + rawlen)]
    else if rawlen ≤ 16383 then [UInt8.ofNat (zipStr14B + rawlen / 256 % 64), UInt8.ofNat (rawlen % 256)]
    else UInt8.ofNat zipStr32B :: (le 4 rawlen).reverse
  else [UInt8.ofNat encoding]

-- The encoding, the bytes it takes and the bytes of the content.
def zipDecodeLength (m : Block) (p : Nat) : Option (Nat × Nat × Nat) := do
  let first ← m[p]?
  let encoding := zipEntryEncoding first
  if encoding < 192 then
    if encoding = zipStr06B then return (encoding, 1, first.toNat % 64)
    else if encoding = zipStr14B then return (encoding, 2, first.toNat % 64 * 256 + (← m[p + 1]?).toNat)
    else if encoding = zipStr32B then return (encoding, 5, unle (← load m (p + 1) 4).reverse)
    else none
  else return (encoding, 1, ← zipIntSize encoding)

def prevEntryLengthLarge (len : Nat) : Block := UInt8.ofNat zipBigPrevlen :: le 4 len

-- What zipStorePrevEntryLength writes, or only the length of it.
def prevEntryLength (len : Nat) : Block := if len < zipBigPrevlen then [UInt8.ofNat len] else prevEntryLengthLarge len

def zipStorePrevEntryLengthLarge (m : Block) (p len : Nat) : Option Block := store m p (prevEntryLengthLarge len)

def zipStorePrevEntryLength (m : Block) (p len : Nat) : Option Block := store m p (prevEntryLength len)

def zipDecodePrevlensize (m : Block) (p : Nat) : Option Nat := do
  let first ← m[p]?
  if first.toNat < zipBigPrevlen then return 1 else return 5

-- The bytes of the field and what it holds.
def zipDecodePrevlen (m : Block) (p : Nat) : Option (Nat × Nat) := do
  let first ← m[p]?
  if first.toNat < zipBigPrevlen then return (1, first.toNat) else return (5, unle (← load m (p + 1) 4))

def zipPrevLenByteDiff (m : Block) (p len : Nat) : Option Int := do
  let prevlensize ← zipDecodePrevlensize m p
  return (prevEntryLength len).length - prevlensize

def zipRawEntryLength (m : Block) (p : Nat) : Option Nat := do
  let prevlensize ← zipDecodePrevlensize m p
  let (_, lensize, len) ← zipDecodeLength m (p + prevlensize)
  return prevlensize + lensize + len

def zipTryEncoding (entry : Sds) : Option (Int × Nat) :=
  if entry.length ≥ 32 ∨ entry.length = 0 then none
  else
    (string2ll entry).map fun value =>
      (value,
        if 0 ≤ value ∧ value ≤ 12 then zipIntImmMin + value.toNat
        else if -128 ≤ value ∧ value ≤ 127 then zipInt8B
        else if -32768 ≤ value ∧ value ≤ 32767 then zipInt16B
        else if -8388608 ≤ value ∧ value ≤ 8388607 then zipInt24B
        else if -2147483648 ≤ value ∧ value ≤ 2147483647 then zipInt32B
        else zipInt64B)

-- Three bytes are the upper ones of the value shifted by eight bits.
def integerBytes (value : Int) (encoding : Nat) : Option Block :=
  if encoding = zipInt8B then some (le 1 (wordOf 1 value))
  else if encoding = zipInt16B then some (le 2 (wordOf 2 value))
  else if encoding = zipInt24B then some ((le 4 (wordOf 4 (value * 256))).drop 1)
  else if encoding = zipInt32B then some (le 4 (wordOf 4 value))
  else if encoding = zipInt64B then some (le 8 (wordOf 8 value))
  else if zipIntImmMin ≤ encoding ∧ encoding ≤ zipIntImmMax then some []
  else none

def zipSaveInteger (m : Block) (p : Nat) (value : Int) (encoding : Nat) : Option Block :=
  (integerBytes value encoding).bind (store m p)

def zipLoadInteger (m : Block) (p encoding : Nat) : Option Int :=
  if encoding = zipInt8B then (load m p 1).map fun bytes => signedOf 1 (unle bytes)
  else if encoding = zipInt16B then (load m p 2).map fun bytes => signedOf 2 (unle bytes)
  else if encoding = zipInt32B then (load m p 4).map fun bytes => signedOf 4 (unle bytes)
  else if encoding = zipInt24B then (load m p 3).map fun bytes => signedOf 4 (unle (0 :: bytes)) / 256
  else if encoding = zipInt64B then (load m p 8).map fun bytes => signedOf 8 (unle bytes)
  else if zipIntImmMin ≤ encoding ∧ encoding ≤ zipIntImmMax then some (encoding % 16 - 1)
  else none

def zipEntry (m : Block) (p : Nat) : Option Zlentry := do
  let (prevrawlensize, prevrawlen) ← zipDecodePrevlen m p
  let (encoding, lensize, len) ← zipDecodeLength m (p + prevrawlensize)
  return ⟨prevrawlensize, prevrawlen, lensize, len, prevrawlensize + lensize, encoding⟩

def ziplistNew : Block := le 4 11 ++ le 4 ziplistHeaderSize ++ le 2 0 ++ [zipEnd]

section Updates

variable (stale : Nat → UInt8)

def ziplistResize (zl : Block) (len : Nat) : Option Block := do
  let zl ← setZiplistBytes (realloc stale zl len) len
  store zl (len - 1) [zipEnd]

-- Makes room in the entry at np for the length of the entry before it.
def cascadeGrow (zl : Block) (np curlen rawlen rawlensize prevrawlensize : Nat) : Option Block := do
  let extra := rawlensize - prevrawlensize
  let zl ← ziplistResize stale zl (curlen + extra)
  let tail ← ziplistTailOffset zl
  let zl ← (if tail ≠ np then setZiplistTailOffset zl (tail + extra) else some zl)
  let zl ← memmove zl (np + rawlensize) (np + prevrawlensize) (curlen - np - prevrawlensize - 1)
  zipStorePrevEntryLength zl np rawlen

-- The loop of __ziplistCascadeUpdate.
def cascadeLoop : Nat → Block → Nat → Nat → Option Block
  | 0, _, _, _ => none
  | fuel + 1, zl, p, curlen => do
      let first ← zl[p]?
      if first = zipEnd then some zl
      else
        let cur ← zipEntry zl p
        let rawlen := cur.headersize + cur.len
        let rawlensize := (prevEntryLength rawlen).length
        let after ← zl[p + rawlen]?
        if after = zipEnd then some zl
        else
          let next ← zipEntry zl (p + rawlen)
          if next.prevrawlen = rawlen then some zl
          else if next.prevrawlensize < rawlensize then
            let zl ← cascadeGrow stale zl (p + rawlen) curlen rawlen rawlensize next.prevrawlensize
            cascadeLoop fuel zl (p + rawlen) (curlen + (rawlensize - next.prevrawlensize))
          else if next.prevrawlensize > rawlensize then zipStorePrevEntryLengthLarge zl (p + rawlen) rawlen
          else zipStorePrevEntryLength zl (p + rawlen) rawlen

def ziplistCascadeUpdate (zl : Block) (p : Nat) : Option Block := do
  let curlen ← ziplistBytes zl
  cascadeLoop stale zl.length zl p curlen

-- The first entry after the num at p, and how many of them there are.
def skipEntries (zl : Block) : Nat → Nat → Nat → Option (Nat × Nat)
  | 0, p, deleted => some (p, deleted)
  | num + 1, p, deleted => do
      let first ← zl[p]?
      if first = zipEnd then some (p, deleted) else skipEntries zl num (p + (← zipRawEntryLength zl p)) (deleted + 1)

-- The end of the list moves up to first.
def deleteShift (zl : Block) (p start totlen prevrawlen : Nat) (nextdiff : Int) : Option Block := do
  let p := (p - nextdiff : Int).toNat
  let zl ← zipStorePrevEntryLength zl p prevrawlen
  let offset ← ziplistTailOffset zl
  let zl ← setZiplistTailOffset zl (offset - totlen)
  let tail ← zipEntry zl p
  let after ← zl[p + (tail.headersize + tail.len)]?
  let zl ← (if after ≠ zipEnd then setZiplistTailOffset zl (offset - totlen + nextdiff : Int).toNat else some zl)
  let bytes ← ziplistBytes zl
  memmove zl start p (bytes - p - 1)

-- What is deleted reaches from start up to p.
def deleteFound (zl : Block) (start p deleted prevrawlen : Nat) : Option Block := do
  let totlen := p - start
  if totlen > 0 then
    let after ← zl[p]?
    let nextdiff ← (if after ≠ zipEnd then zipPrevLenByteDiff zl p prevrawlen else some 0)
    let zl ← (if after ≠ zipEnd then deleteShift zl p start totlen prevrawlen nextdiff
      else setZiplistTailOffset zl (start - prevrawlen))
    let bytes ← ziplistBytes zl
    let zl ← ziplistResize stale zl (bytes - totlen + nextdiff : Int).toNat
    let zl ← ziplistIncrLength zl (-deleted)
    if nextdiff ≠ 0 then ziplistCascadeUpdate stale zl start else some zl
  else some zl

-- __ziplistDelete
def ziplistDeleteEntries (zl : Block) (p num : Nat) : Option Block := do
  let first ← zipEntry zl p
  let (q, deleted) ← skipEntries zl num p 0
  deleteFound stale zl p q deleted first.prevrawlen

-- The length of the entry in front of p.
def prevlenAt (zl : Block) (p : Nat) : Option Nat := do
  let first ← zl[p]?
  if first ≠ zipEnd then return (← zipDecodePrevlen zl p).2
  else
    let ptail ← ziplistTailOffset zl
    let last ← zl[ptail]?
    if last ≠ zipEnd then zipRawEntryLength zl ptail else return 0

-- Moves what stands at p back by reqlen, where it gets the new length before it.
def insertShift (zl : Block) (p curlen reqlen : Nat) (nextdiff : Int) (forcelarge : Bool) : Option Block := do
  let zl ← memmove zl (p + reqlen) (p - nextdiff : Int).toNat (curlen - p - 1 + nextdiff : Int).toNat
  let zl ← (if forcelarge then zipStorePrevEntryLengthLarge zl (p + reqlen) reqlen
    else zipStorePrevEntryLength zl (p + reqlen) reqlen)
  let offset ← ziplistTailOffset zl
  let zl ← setZiplistTailOffset zl (offset + reqlen)
  let tail ← zipEntry zl (p + reqlen)
  let after ← zl[p + (reqlen + tail.headersize + tail.len)]?
  if after ≠ zipEnd then setZiplistTailOffset zl (offset + reqlen + nextdiff : Int).toNat else some zl

def insertWrite (zl : Block) (p prevlen : Nat) (s : Sds) (value : Int) (encoding : Nat) : Option Block := do
  let zl ← zipStorePrevEntryLength zl p prevlen
  let p := p + (prevEntryLength prevlen).length
  let zl ← store zl p (entryEncoding encoding s.length)
  let p := p + (entryEncoding encoding s.length).length
  if zipIsStr encoding then store zl p s else zipSaveInteger zl p value encoding

-- Room of reqlen bytes at p. The entry behind it keeps a field of five bytes
-- rather than shrink by more than the new entry takes.
def insertOpen (zl : Block) (p curlen reqlen : Nat) (diff : Int) : Option Block := do
  let forcelarge := decide (diff = -4 ∧ reqlen < 4)
  let nextdiff := if forcelarge then 0 else diff
  let zl ← ziplistResize stale zl (curlen + reqlen + nextdiff : Int).toNat
  let first ← zl[p]?
  let zl ← (if first ≠ zipEnd then insertShift zl p curlen reqlen nextdiff forcelarge else setZiplistTailOffset zl p)
  if nextdiff ≠ 0 then ziplistCascadeUpdate stale zl (p + reqlen) else some zl

-- __ziplistInsert
def ziplistInsert (zl : Block) (p : Nat) (s : Sds) : Option Block := do
  let curlen ← ziplistBytes zl
  let prevlen ← prevlenAt zl p
  let (value, encoding) := (zipTryEncoding s).getD (123456789, 0)
  let payload ← (if (zipTryEncoding s).isSome then zipIntSize encoding else some s.length)
  let reqlen := payload + (prevEntryLength prevlen).length + (entryEncoding encoding s.length).length
  let first ← zl[p]?
  let diff ← (if first ≠ zipEnd then zipPrevLenByteDiff zl p reqlen else some 0)
  let zl ← insertOpen stale zl p curlen reqlen diff
  let zl ← insertWrite zl p prevlen s value encoding
  ziplistIncrLength zl 1

inductive ZiplistEnd where
  | head
  | tail
deriving DecidableEq, Repr

def ziplistPush (zl : Block) (s : Sds) : ZiplistEnd → Option Block
  | .head => ziplistInsert stale zl ziplistHeaderSize s
  | .tail => do ziplistInsert stale zl ((← ziplistBytes zl) - 1) s

-- The pointer stays where it is, at what follows.
def ziplistDelete (zl : Block) (p : Nat) : Option Block := ziplistDeleteEntries stale zl p 1

end Updates

section Access

variable (zl : Block)

def indexForward : Nat → Nat → Option (Option Nat)
  | index, p => do
      let first ← zl[p]?
      if first = zipEnd then some none
      else
        match index with
        | 0 => some (some p)
        | index + 1 => indexForward index (p + (← zipRawEntryLength zl p))

def indexBackward : Nat → Nat → Nat → Option (Option Nat)
  | index, p, prevlen =>
      if prevlen > 0 then
        match index with
        | 0 => some (some p)
        | index + 1 => do indexBackward index (p - prevlen) (← zipDecodePrevlen zl (p - prevlen)).2
      else some (if index > 0 then none else some p)

-- A negative index counts from the tail. NULL is none.
def ziplistIndex (index : Int) : Option (Option Nat) :=
  if index < 0 then do
    let p ← ziplistTailOffset zl
    let first ← zl[p]?
    if first = zipEnd then some none else indexBackward zl (-index - 1).toNat p (← zipDecodePrevlen zl p).2
  else indexForward zl index.toNat ziplistHeaderSize

def ziplistNext (p : Nat) : Option (Option Nat) := do
  let first ← zl[p]?
  if first = zipEnd then some none
  else
    let p := p + (← zipRawEntryLength zl p)
    let first ← zl[p]?
    if first = zipEnd then some none else some (some p)

def ziplistPrev (p : Nat) : Option (Option Nat) := do
  let first ← zl[p]?
  if first = zipEnd then
    let p ← ziplistTailOffset zl
    let first ← zl[p]?
    if first = zipEnd then some none else some (some p)
  else if p = ziplistHeaderSize then some none
  else
    let (_, prevlen) ← zipDecodePrevlen zl p
    if prevlen > 0 then some (some (p - prevlen)) else none

inductive ZipValue where
  | str (s : Sds)
  | int (v : Int)
deriving DecidableEq, Repr

def ziplistGet (p : Nat) : Option (Option ZipValue) := do
  let first ← zl[p]?
  if first = zipEnd then some none
  else
    let entry ← zipEntry zl p
    if zipIsStr entry.encoding then some (some (.str (← load zl (p + entry.headersize) entry.len)))
    else some (some (.int (← zipLoadInteger zl (p + entry.headersize) entry.encoding)))

-- The string is encoded at the first integer it is compared with, which sets
-- vencoding. 255 marks one that is no integer.
def findLoop (vstr : Sds) (skip : Nat) : Nat → Nat → Nat → Nat → Int → Option (Option Nat)
  | 0, _, _, _, _ => none
  | fuel + 1, p, skipcnt, vencoding, vll => do
      let first ← zl[p]?
      if first = zipEnd then some none
      else
        let prevlensize ← zipDecodePrevlensize zl p
        let (encoding, lensize, len) ← zipDecodeLength zl (p + prevlensize)
        let q := p + prevlensize + lensize
        if skipcnt = 0 then
          if zipIsStr encoding then
            let same ← (if len = vstr.length then (load zl q len).map (· == vstr) else some false)
            if same then some (some p) else findLoop vstr skip fuel (q + len) skip vencoding vll
          else
            let (vll, vencoding) := if vencoding = 0 then (zipTryEncoding vstr).getD (vll, 255) else (vll, vencoding)
            let same ← (if vencoding ≠ 255 then (zipLoadInteger zl q encoding).map (· == vll) else some false)
            if same then some (some p) else findLoop vstr skip fuel (q + len) skip vencoding vll
        else findLoop vstr skip fuel (q + len) (skipcnt - 1) vencoding vll

def ziplistFind (p : Nat) (vstr : Sds) (skip : Nat) : Option (Option Nat) := findLoop zl vstr skip zl.length p 0 0 0

def countLoop : Nat → Nat → Nat → Option Nat
  | 0, _, _ => none
  | fuel + 1, p, len => do
      let first ← zl[p]?
      if first = zipEnd then some len else countLoop fuel (p + (← zipRawEntryLength zl p)) (len + 1)

-- A length that was too large for its field is counted and, when it is no
-- longer, stored.
def ziplistLen : Option (Block × Nat) := do
  let length ← ziplistLength zl
  if length < uint16Max then some (zl, length)
  else
    let len ← countLoop zl zl.length ziplistHeaderSize 0
    if len < uint16Max then return (← setZiplistLength zl len, len) else return (zl, len)

end Access

def ziplistDeleteRange (stale : Nat → UInt8) (zl : Block) (index : Int) (num : Nat) : Option Block := do
  match ← ziplistIndex zl index with
  | none => some zl
  | some p => ziplistDeleteEntries stale zl p num

end Redis
