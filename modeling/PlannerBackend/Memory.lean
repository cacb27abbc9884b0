import Mathlib.Algebra.Group.Nat.Defs

set_option autoImplicit false

namespace Memory

-- One allocated block. An access outside it has no result, so that a function
-- with a result has stayed inside.
abbrev Block := List UInt8

def load (m : Block) (p n : Nat) : Option Block := if p + n ≤ m.length then some ((m.drop p).take n) else none

def store (m : Block) (p : Nat) (bytes : Block) : Option Block :=
  if p + bytes.length ≤ m.length then some (m.take p ++ bytes ++ m.drop (p + bytes.length)) else none

def memmove (m : Block) (dst src n : Nat) : Option Block := (load m src n).bind (store m dst)

-- What zrealloc adds is whatever the memory held.
def realloc (stale : Nat → UInt8) (m : Block) (n : Nat) : Block := m.take n ++ (List.range (n - m.length)).map stale

-- Little endian, the low bytes of a number that is too large.
def le : Nat → Nat → Block
  | 0, _ => []
  | n + 1, v => UInt8.ofNat (v % 256) :: le n (v / 256)

def unle : Block → Nat
  | [] => 0
  | byte :: rest => byte.toNat + 256 * unle rest

-- Two's complement in n bytes.
def wordOf (n : Nat) (v : Int) : Nat := (v % (256 ^ n : Nat)).toNat

def signedOf (n u : Nat) : Int := if 2 * u < 256 ^ n then u else u - (256 ^ n : Nat)

section Accesses

variable {m before held after : Block} {p : Nat} (split : m = before ++ (held ++ after)) (here : p = before.length)

include split here

theorem load_at {n : Nat} (whole : n = held.length) : load m p n = some held := by
  subst split here whole
  simp [load]

theorem store_at {bytes : Block} (fits : bytes.length = held.length) : store m p bytes = some (before ++ (bytes ++ after)) := by
  subst split here
  simp [store, fits]

end Accesses

-- The source and the destination may overlap.
theorem memmove_at {m before moved after front held back : Block} {dst src n : Nat} (source : m = before ++ (moved ++ after))
    (from_here : src = before.length) (whole : n = moved.length) (target : m = front ++ (held ++ back))
    (to_there : dst = front.length) (fits : moved.length = held.length) :
    memmove m dst src n = some (front ++ (moved ++ back)) := by
  rw [memmove, load_at source from_here whole, Option.bind_some, store_at target to_there fits]

theorem split_at_length (bytes : Block) (n : Nat) (enough : n ≤ bytes.length) :
    ∃ front back, bytes = front ++ back ∧ front.length = n :=
  ⟨bytes.take n, bytes.drop n, (List.take_append_drop n bytes).symm, by rw [List.length_take, Nat.min_eq_left enough]⟩

-- The bytes stand at p.
def Holds (m : Block) (p : Nat) (bytes : Block) : Prop := ∃ before after, m = before ++ (bytes ++ after) ∧ p = before.length

section Holding

variable {m : Block} {p : Nat}

theorem load_holds {bytes : Block} (holds : Holds m p bytes) : load m p bytes.length = some bytes := by
  obtain ⟨before, after, split, here⟩ := holds
  exact load_at split here rfl

theorem byte_holds {byte : UInt8} {rest : Block} (holds : Holds m p (byte :: rest)) : m[p]? = some byte := by
  obtain ⟨before, after, rfl, rfl⟩ := holds
  simp

theorem holds_left {first second : Block} (holds : Holds m p (first ++ second)) : Holds m p first := by
  obtain ⟨before, after, split, here⟩ := holds
  exact ⟨before, second ++ after, by rw [split, List.append_assoc], here⟩

theorem holds_right {first second : Block} (holds : Holds m p (first ++ second)) : Holds m (p + first.length) second := by
  obtain ⟨before, after, split, here⟩ := holds
  exact ⟨before ++ first, after, by simp [split], by simp [here]⟩

theorem holds_tail {byte : UInt8} {rest : Block} (holds : Holds m p (byte :: rest)) : Holds m (p + 1) rest :=
  holds_right (show Holds m p ([byte] ++ rest) from holds)

end Holding

theorem realloc_grow (stale : Nat → UInt8) (m : Block) (extra : Nat) :
    ∃ fresh : Block, fresh.length = extra ∧ realloc stale m (m.length + extra) = m ++ fresh :=
  ⟨(List.range extra).map stale, by simp, by rw [realloc, List.take_of_length_le (Nat.le_add_right ..), Nat.add_sub_cancel_left]⟩

theorem realloc_shrink (stale : Nat → UInt8) (kept cut : Block) (n : Nat) (whole : n = kept.length) :
    realloc stale (kept ++ cut) n = kept := by
  subst whole
  simp [realloc, Nat.sub_eq_zero_of_le]

theorem le_length (n v : Nat) : (le n v).length = n := by
  induction n generalizing v with
  | zero => rfl
  | succ n ih => rw [le, List.length_cons, ih]

theorem unle_le (n v : Nat) (small : v < 256 ^ n) : unle (le n v) = v := by
  induction n generalizing v with
  | zero =>
      have zero : v = 0 := by simpa using small
      rw [zero]
      rfl
  | succ n ih =>
      have high : v / 256 < 256 ^ n := Nat.div_lt_of_lt_mul (by rwa [← Nat.pow_succ'])
      rw [le, unle, ih _ high, UInt8.toNat_ofNat_of_lt' (by simp only [UInt8.size]; omega)]
      omega

theorem word_of_lt (n : Nat) (v : Int) : wordOf n v < 256 ^ n := by
  have positive : 0 < 256 ^ n := Nat.pow_pos (by omega)
  have below := Int.emod_lt_of_pos v (b := (256 ^ n : Nat)) (by omega)
  have above := Int.emod_nonneg v (b := (256 ^ n : Nat)) (by omega)
  rw [wordOf]
  omega

theorem signed_word (n : Nat) (v : Int) (low : -(256 ^ n : Nat) ≤ 2 * v) (high : 2 * v < (256 ^ n : Nat)) :
    signedOf n (wordOf n v) = v := by
  rw [signedOf, wordOf]
  by_cases positive : 0 ≤ v
  · rw [Int.emod_eq_of_lt positive (by omega), if_pos (by omega)]
    omega
  · have wrapped : v % (256 ^ n : Nat) = v + (256 ^ n : Nat) := by
      rw [← Int.add_emod_right, Int.emod_eq_of_lt (by omega) (by omega)]
    rw [wrapped, if_neg (by omega)]
    omega

end Memory
