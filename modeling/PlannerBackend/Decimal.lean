import Mathlib.Algebra.Group.Nat.Defs
import PlannerBackend.Memory

set_option autoImplicit false

namespace Redis

open Memory

abbrev Sds := List UInt8

def ullongMax : Nat := 18446744073709551615

def llongMax : Nat := 9223372036854775807

-- '-'
def minus : UInt8 := 45

-- '0' and up
def digit (d : Nat) : UInt8 := UInt8.ofNat (48 + d)

def digitVal (c : UInt8) : Nat := c.toNat - 48

-- '0' to '9'
def isDigit (c : UInt8) : Bool := decide (48 ≤ c.toNat) && decide (c.toNat ≤ 57)

-- The loop over the remaining digits. It stops at the first byte that is none.
def parseDigits : Sds → Nat → Option (Nat × Sds)
  | [], v => some (v, [])
  | c :: p, v =>
      if isDigit c then
        if v > ullongMax / 10 then none
        else if v * 10 > ullongMax - digitVal c then none
        else parseDigits p (v * 10 + digitVal c)
      else some (v, c :: p)

def parseSigned (negative : Bool) (p : Sds) : Option Int :=
  match p with
  | [] => none
  | c :: p =>
      if isDigit c && digitVal c != 0 then
        match parseDigits p (digitVal c) with
        | none => none
        | some (v, unread) =>
            if unread.length > 0 then none
            else if negative then if v > llongMax + 1 then none else some (-(v : Int))
            else if v > llongMax then none
            else some v
      else none

def string2ll (s : Sds) : Option Int :=
  match s with
  | [] => none
  | c :: p =>
      if p.length = 0 ∧ c = digit 0 then some 0
      else if c = minus then parseSigned true p
      else parseSigned false (c :: p)

def digits10 (v : Nat) : Nat :=
  if v < 10 then 1
  else if v < 100 then 2
  else if v < 1000 then 3
  else if v < 1000000000000 then
    if v < 100000000 then
      if v < 1000000 then
        if v < 10000 then 4 else 5 + (decide (v ≥ 100000)).toNat
      else 7 + (decide (v ≥ 10000000)).toNat
    else if v < 10000000000 then 9 + (decide (v ≥ 1000000000)).toNat
    else 11 + (decide (v ≥ 100000000000)).toNat
  else 12 + digits10 (v / 1000000000000)

def chars (s : String) : Sds := s.toList.map Char.toUInt8

def digits : Sds :=
  chars "0001020304050607080910111213141516171819" ++
  chars "2021222324252627282930313233343536373839" ++
  chars "4041424344454647484950515253545556575859" ++
  chars "6061626364656667686970717273747576777879" ++
  chars "8081828384858687888990919293949596979899"

-- Two digits at a time, from the back. An index below 0 has wrapped around.
def storeDigits (dst : Block) (next value : Nat) : Option Block :=
  if 100 ≤ value then
    if next < 2 then none
    else do
      let dst ← store dst (next - 1) ((digits.drop (value % 100 * 2)).take 2)
      storeDigits dst (next - 2) (value / 100)
  else if value < 10 then store dst next [digit value]
  else if next < 1 then none
  else store dst (next - 1) ((digits.drop (value * 2)).take 2)

def ll2string (dst : Block) (svalue : Int) : Option (Block × Nat) :=
  let value := svalue.natAbs
  let negative := decide (svalue < 0)
  let length := digits10 value + negative.toNat
  if length ≥ dst.length then some (dst, 0)
  else do
    let dst ← store dst length [0]
    let dst ← storeDigits dst (length - 1) value
    let dst ← if negative then store dst 0 [minus] else some dst
    return (dst, length)

def reversedDigits (v : Nat) : Sds := digit (v % 10) :: if v / 10 = 0 then [] else reversedDigits (v / 10)

-- Negating the smallest long long gives it back, and as an unsigned one its
-- absolute value.
def sdsll2str (value : Int) : Sds := (reversedDigits value.natAbs ++ if value < 0 then [minus] else []).reverse

-- The decimal numeral, and that of a signed number.
def decimal (v : Nat) : Sds := if v < 10 then [digit v] else decimal (v / 10) ++ [digit (v % 10)]

def text (v : Int) : Sds := if v < 0 then minus :: decimal v.natAbs else decimal v.natAbs

theorem digit_is_digit (d : Nat) (small : d < 10) : isDigit (digit d) = true ∧ digitVal (digit d) = d := by
  have value : (digit d).toNat = 48 + d := UInt8.toNat_ofNat_of_lt' (by simp only [UInt8.size]; omega)
  simp only [isDigit, digitVal, value, Bool.and_eq_true, decide_eq_true_eq]
  omega

theorem is_digit_iff (c : UInt8) : isDigit c = true ↔ digitVal c < 10 ∧ c = digit (digitVal c) := by
  constructor
  · intro found
    simp only [isDigit, Bool.and_eq_true, decide_eq_true_eq] at found
    refine ⟨by simp only [digitVal]; omega, UInt8.toNat_inj.mp ?_⟩
    rw [digit, UInt8.toNat_ofNat_of_lt' (by simp only [digitVal, UInt8.size]; omega), digitVal]
    omega
  · rintro ⟨small, same⟩
    rw [same]
    exact (digit_is_digit _ small).1

theorem decimal_snoc (v d : Nat) (positive : 0 < v) (small : d < 10) : decimal (v * 10 + d) = decimal v ++ [digit d] := by
  rw [decimal, if_neg (by omega)]
  congr
  · omega
  · omega

-- The number that the digits read so far and the ones ahead stand for.
def valueFrom (v : Nat) (p : Sds) : Nat := p.foldl (fun v c => v * 10 + digitVal c) v

theorem value_from_le (v : Nat) (p : Sds) : v ≤ valueFrom v p := by
  induction p generalizing v with
  | nil => exact Nat.le_refl v
  | cons c p ih => exact Nat.le_trans (by omega) (ih (v * 10 + digitVal c))

theorem parse_digits_iff (p : Sds) (v w : Nat) (bounded : v ≤ ullongMax) :
    parseDigits p v = some (w, []) ↔ p.all isDigit = true ∧ valueFrom v p = w ∧ w ≤ ullongMax := by
  induction p generalizing v with
  | nil =>
      simp only [parseDigits, valueFrom, List.foldl_nil, List.all_nil, true_and, Option.some.injEq, Prod.mk.injEq, and_true]
      constructor
      · rintro rfl
        exact ⟨rfl, bounded⟩
      · exact And.left
  | cons c p ih =>
      simp only [parseDigits, List.all_cons, Bool.and_eq_true]
      by_cases isd : isDigit c = true
      · have small := ((is_digit_iff c).mp isd).1
        have grows := value_from_le (v * 10 + digitVal c) p
        have max : ullongMax = 18446744073709551615 := rfl
        rw [if_pos isd, valueFrom, List.foldl_cons, ← valueFrom]
        -- Both overflow checks are one: they fail when the next value is too large.
        by_cases fits : v * 10 + digitVal c ≤ ullongMax
        · rw [if_neg (by omega), if_neg (by omega), ih _ fits]
          simp [isd]
        · have refused : (if v > ullongMax / 10 then none
              else if v * 10 > ullongMax - digitVal c then none else parseDigits p (v * 10 + digitVal c)) = none := by
            split
            · rfl
            · exact if_pos (by omega)
          rw [refused]
          simp only [reduceCtorEq, false_iff, not_and, isd, true_and]
          intro _ reads
          omega
      · simp [isd]

theorem decimal_value_from (v : Nat) (p : Sds) (positive : 0 < v) (all : p.all isDigit = true) :
    decimal (valueFrom v p) = decimal v ++ p := by
  induction p generalizing v with
  | nil => simp [valueFrom]
  | cons c p ih =>
      simp only [List.all_cons, Bool.and_eq_true] at all
      obtain ⟨small, same⟩ := (is_digit_iff c).mp all.1
      rw [valueFrom, List.foldl_cons, ← valueFrom, ih _ (by omega) all.2,
        decimal_snoc v _ positive small, ← same, List.append_assoc]
      rfl

-- A numeral starts with one of the digits 1 to 9 unless it is 0.
theorem decimal_parts (v : Nat) (positive : 0 < v) :
    ∃ c p, decimal v = c :: p ∧ isDigit c = true ∧ digitVal c ≠ 0 ∧ p.all isDigit = true ∧ valueFrom (digitVal c) p = v := by
  induction v using Nat.strongRecOn with
  | ind v ih =>
      rw [decimal]
      split
      case isTrue small =>
        obtain ⟨isd, value⟩ := digit_is_digit v small
        exact ⟨digit v, [], rfl, isd, by omega, rfl, value⟩
      case isFalse large =>
        obtain ⟨c, p, same, first, nonzero, rest, value⟩ := ih (v / 10) (by omega) (by omega)
        obtain ⟨isd, last⟩ := digit_is_digit (v % 10) (by omega)
        refine ⟨c, p ++ [digit (v % 10)], by rw [same]; rfl, first, nonzero, by simp [rest, isd], ?_⟩
        simp only [valueFrom, List.foldl_append, List.foldl_cons, List.foldl_nil, last] at value ⊢
        omega

theorem parse_signed_iff (negative : Bool) (p : Sds) (v : Int) :
    parseSigned negative p = some v ↔
      ∃ n, 0 < n ∧ p = decimal n ∧ v = (if negative then -(n : Int) else n) ∧ n ≤ llongMax + negative.toNat := by
  have max : ullongMax = 18446744073709551615 := rfl
  have lmax : llongMax = 9223372036854775807 := rfl
  constructor
  · intro parsed
    match p, parsed with
    | c :: p, parsed =>
        simp only [parseSigned] at parsed
        split at parsed
        case isFalse => cases parsed
        case isTrue first =>
          simp only [Bool.and_eq_true, bne_iff_ne, ne_eq] at first
          obtain ⟨isd, nonzero⟩ := first
          obtain ⟨small, same⟩ := (is_digit_iff c).mp isd
          match read : parseDigits p (digitVal c) with
          | none => simp [read] at parsed
          | some (n, d :: unread) => simp [read] at parsed
          | some (n, []) =>
              obtain ⟨all, value, _⟩ := (parse_digits_iff p _ n (by omega)).mp read
              have numeral := decimal_value_from (digitVal c) p (by omega) all
              have first : decimal (digitVal c) = [c] := by rw [decimal, if_pos small, ← same]
              have grows := value_from_le (digitVal c) p
              simp only [read, List.length_nil, gt_iff_lt, Nat.lt_irrefl, if_false] at parsed
              refine ⟨n, by omega, by rw [← value, numeral, first]; rfl, ?_⟩
              cases negative with
              | true =>
                  simp only [if_true, Option.ite_none_left_eq_some, Option.some.injEq] at parsed
                  exact ⟨parsed.2.symm, by simp only [Bool.toNat_true]; omega⟩
              | false =>
                  simp only [Bool.false_eq_true, if_false, Option.ite_none_left_eq_some, Option.some.injEq] at parsed
                  exact ⟨parsed.2.symm, by simp only [Bool.toNat_false]; omega⟩
  · rintro ⟨n, positive, rfl, rfl, bounded⟩
    obtain ⟨c, p, same, first, nonzero, rest, value⟩ := decimal_parts n positive
    have small := ((is_digit_iff c).mp first).1
    have read := (parse_digits_iff p (digitVal c) n (by omega)).mpr
      ⟨rest, value, by cases negative <;> simp only [Bool.toNat_true, Bool.toNat_false] at bounded <;> omega⟩
    simp only [same, parseSigned, first, Bool.true_and, bne_iff_ne, ne_eq, nonzero, not_false_eq_true, if_true, read,
      List.length_nil, gt_iff_lt, Nat.lt_irrefl, if_false]
    cases negative with
    | true =>
        simp only [Bool.toNat_true] at bounded
        rw [if_pos rfl, if_neg (by omega), if_pos rfl]
    | false =>
        simp only [Bool.toNat_false] at bounded
        rw [if_neg Bool.false_ne_true, if_neg (by omega), if_neg Bool.false_ne_true]

theorem text_neg (n : Nat) (positive : 0 < n) : text (-(n : Int)) = minus :: decimal n := by
  rw [text, if_pos (by omega), Int.natAbs_neg, Int.natAbs_natCast]

theorem text_nat (n : Nat) : text n = decimal n := by
  rw [text, if_neg (by omega), Int.natAbs_natCast]

-- A number is read from its own text and from nothing else.
theorem string2ll_iff (s : Sds) (v : Int) : string2ll s = some v ↔ s = text v ∧ -(llongMax + 1 : Int) ≤ v ∧ v ≤ llongMax := by
  have max : llongMax = 9223372036854775807 := rfl
  constructor
  · intro parsed
    match s, parsed with
    | c :: p, parsed =>
        simp only [string2ll] at parsed
        split at parsed
        case isTrue zero =>
          obtain ⟨rfl, rfl⟩ := And.imp_left List.length_eq_zero_iff.mp zero
          cases parsed
          exact ⟨by rw [text, if_neg (by omega), decimal]; rfl, by omega, by omega⟩
        case isFalse =>
          split at parsed
          case isTrue sign =>
            obtain ⟨n, positive, rfl, rfl, bounded⟩ := (parse_signed_iff true p v).mp parsed
            simp only [Bool.toNat_true] at bounded
            exact ⟨by rw [if_pos rfl, text_neg n positive, sign], by rw [if_pos rfl]; omega, by rw [if_pos rfl]; omega⟩
          case isFalse =>
            obtain ⟨n, _, same, rfl, bounded⟩ := (parse_signed_iff false (c :: p) v).mp parsed
            simp only [Bool.toNat_false] at bounded
            rw [if_neg Bool.false_ne_true]
            exact ⟨by rw [same, text_nat], by omega, by omega⟩
  · rintro ⟨rfl, low, high⟩
    rcases Int.lt_trichotomy v 0 with below | rfl | above
    · obtain ⟨n, rfl⟩ : ∃ n : Nat, v = -(n : Int) := ⟨v.natAbs, by omega⟩
      have signed : minus ≠ digit 0 := by decide
      rw [text_neg n (by omega), string2ll, if_neg (by simp [signed]), if_pos rfl, parse_signed_iff]
      exact ⟨n, by omega, rfl, rfl, by simp only [Bool.toNat_true]; omega⟩
    · rw [text, if_neg (by omega), decimal]
      rfl
    · obtain ⟨n, rfl⟩ : ∃ n : Nat, v = n := ⟨v.natAbs, by omega⟩
      obtain ⟨c, p, same, first, nonzero, _⟩ := decimal_parts n (by omega)
      have unsigned : c ≠ minus := by
        rintro rfl
        exact absurd first (by decide)
      have leading : c ≠ digit 0 := by
        rintro rfl
        exact nonzero rfl
      rw [text_nat, same, string2ll, if_neg (by simp [leading]), if_neg unsigned, parse_signed_iff]
      exact ⟨n, by omega, same.symm, rfl, by simp only [Bool.toNat_false]; omega⟩

theorem reversed_digits (v : Nat) : (reversedDigits v).reverse = decimal v := by
  induction v using Nat.strongRecOn with
  | ind v ih =>
      rw [reversedDigits, decimal, List.reverse_cons]
      split
      case isTrue small =>
        rw [if_pos (by omega), Nat.mod_eq_of_lt (by omega)]
        rfl
      case isFalse large => rw [if_neg (by omega), ih (v / 10) (by omega)]

theorem sdsll2str_text (v : Int) : sdsll2str v = text v := by
  rw [sdsll2str, text, List.reverse_append, reversed_digits]
  split
  · rfl
  · rfl

theorem decimal_length_shift (k v : Nat) (large : 10 ^ k ≤ v) : (decimal v).length = k + (decimal (v / 10 ^ k)).length := by
  induction k generalizing v with
  | zero => simp
  | succ k ih =>
      have room : 10 ^ k ≤ v / 10 := (Nat.le_div_iff_mul_le (by omega)).mpr (by rwa [← Nat.pow_succ])
      have positive : 0 < 10 ^ k := Nat.pow_pos (by omega)
      rw [decimal, if_neg (by rw [Nat.pow_succ] at large; omega), List.length_append, ih _ room, Nat.div_div_eq_div_mul,
        ← Nat.pow_succ', List.length_singleton, Nat.add_right_comm]

theorem decimal_length (k v : Nat) (large : 10 ^ k ≤ v) (small : v < 10 ^ (k + 1)) : (decimal v).length = k + 1 := by
  have last : v / 10 ^ k < 10 := Nat.div_lt_of_lt_mul (by rwa [← Nat.pow_succ])
  rw [decimal_length_shift k v large, decimal, if_pos last]
  rfl

theorem decimal_length_either (k v : Nat) (large : 10 ^ k ≤ v) (small : v < 10 ^ (k + 2)) :
    (decimal v).length = k + 1 + (decide (v ≥ 10 ^ (k + 1))).toNat := by
  by_cases longer : v ≥ 10 ^ (k + 1)
  · rw [decimal_length (k + 1) v longer small, decide_eq_true longer]
    rfl
  · rw [decimal_length k v large (by omega), decide_eq_false longer]
    rfl

theorem digits10_length (v : Nat) : digits10 v = (decimal v).length := by
  induction v using Nat.strongRecOn with
  | ind v ih =>
      rw [digits10]
      repeat' split
      · rw [decimal, if_pos ‹_›]
        rfl
      · exact (decimal_length 1 v (by omega) (by omega)).symm
      · exact (decimal_length 2 v (by omega) (by omega)).symm
      · exact (decimal_length 3 v (by omega) (by omega)).symm
      · exact (decimal_length_either 4 v (by omega) (by omega)).symm
      · exact (decimal_length_either 6 v (by omega) (by omega)).symm
      · exact (decimal_length_either 8 v (by omega) (by omega)).symm
      · exact (decimal_length_either 10 v (by omega) (by omega)).symm
      · rw [ih _ (by omega)]
        exact (decimal_length_shift 12 v (by omega)).symm

theorem digits_table : digits = (List.range 100).flatMap fun v => [digit (v / 10), digit (v % 10)] := by
  decide +kernel

theorem digits_pair (v : Nat) (small : v < 100) : (digits.drop (v * 2)).take 2 = [digit (v / 10), digit (v % 10)] := by
  have all : ∀ v < 100, (digits.drop (v * 2)).take 2 = [digit (v / 10), digit (v % 10)] := by
    rw [digits_table]
    decide +kernel
  exact all v small

theorem decimal_two (v : Nat) (large : 10 ≤ v) (small : v < 100) : decimal v = [digit (v / 10), digit (v % 10)] := by
  rw [decimal, if_neg (by omega), decimal, if_pos (by omega)]
  rfl

theorem decimal_pair (v : Nat) (large : 100 ≤ v) :
    decimal v = decimal (v / 100) ++ [digit (v % 100 / 10), digit (v % 100 % 10)] := by
  have tens : v / 10 % 10 = v % 100 / 10 := by omega
  have ones : v % 10 = v % 100 % 10 := by omega
  rw [decimal, if_neg (by omega), decimal, if_neg (by omega), Nat.div_div_eq_div_mul, List.append_assoc, tens, ones]
  rfl

theorem decimal_nonempty (v : Nat) : 0 < (decimal v).length := by
  rw [decimal]
  split
  · simp
  · simp

theorem store_digits_spec (value : Nat) (before held after : Block) (next : Nat) (last : next + 1 = before.length + held.length)
    (fits : held.length = (decimal value).length) :
    storeDigits (before ++ held ++ after) next value = some (before ++ decimal value ++ after) := by
  induction value using Nat.strongRecOn generalizing held after next with
  | ind value ih =>
      rw [storeDigits]
      split
      case isTrue large =>
        have split := decimal_pair value large
        have nonempty := decimal_nonempty (value / 100)
        obtain ⟨front, back, rfl, two⟩ : ∃ front back, held = front ++ back ∧ back.length = 2 :=
          ⟨held.take (held.length - 2), held.drop (held.length - 2), (List.take_append_drop ..).symm, by
            rw [split, List.length_append] at fits
            simp only [List.length_drop]
            simp at fits
            omega⟩
        have front_fits : front.length = (decimal (value / 100)).length := by
          rw [split, List.length_append, List.length_append, two] at fits
          exact Nat.add_right_cancel fits
        simp only [List.length_append] at last
        have stored : store (before ++ (front ++ back) ++ after) (next - 1) [digit (value % 100 / 10), digit (value % 100 % 10)] =
            some ((before ++ front) ++ ([digit (value % 100 / 10), digit (value % 100 % 10)] ++ after)) :=
          store_at (show _ = (before ++ front) ++ (back ++ after) by simp) (by rw [List.length_append]; omega) two.symm
        have rest := ih (value / 100) (by omega) front ([digit (value % 100 / 10), digit (value % 100 % 10)] ++ after)
          (next - 2) (by omega) front_fits
        rw [if_neg (by omega), digits_pair _ (by omega), stored, split]
        simpa only [List.append_assoc, Option.bind_eq_bind, Option.bind_some] using rest
      case isFalse small =>
        split
        case isTrue one =>
          rw [decimal, if_pos one] at fits ⊢
          rw [List.append_assoc, List.append_assoc]
          exact store_at rfl (by simp only [List.length_singleton] at fits; omega) fits.symm
        case isFalse two =>
          rw [decimal_two value (by omega) (by omega)] at fits ⊢
          have both : held.length = 2 := fits
          rw [if_neg (by omega), digits_pair value (by omega)]
          rw [List.append_assoc, List.append_assoc]
          exact store_at rfl (by omega) fits.symm

theorem text_length (v : Int) : (text v).length = digits10 v.natAbs + (decide (v < 0)).toNat := by
  rw [digits10_length, text]
  split
  case isTrue negative => simp [negative]
  case isFalse positive => simp [positive]

theorem ll2string_spec (dst : Block) (v : Int) (room : (text v).length < dst.length) :
    ll2string dst v = some (text v ++ 0 :: dst.drop ((text v).length + 1), (text v).length) := by
  have length := text_length v
  obtain ⟨held, byte, rest, rfl, fits⟩ : ∃ held byte rest, dst = held ++ byte :: rest ∧ held.length = (text v).length :=
    ⟨dst.take (text v).length, dst.get ⟨(text v).length, room⟩, dst.drop ((text v).length + 1), by simp, by simp; omega⟩
  have ended : store (held ++ byte :: rest) (text v).length [0] = some (held ++ 0 :: rest) :=
    store_at (show _ = held ++ ([byte] ++ rest) from rfl) fits.symm rfl
  have tail : (held ++ byte :: rest).drop ((text v).length + 1) = rest := by simp [← fits]
  simp only [ll2string, ← length, ge_iff_le]
  rw [if_neg (by omega), tail]
  simp only [ended, Option.bind_eq_bind, Option.bind_some]
  by_cases negative : v < 0
  · have signed : text v = minus :: decimal v.natAbs := if_pos negative
    obtain ⟨sign, held, rfl⟩ : ∃ sign rest, held = sign :: rest := by
      cases held with
      | nil => simp [signed] at fits
      | cons sign rest => exact ⟨sign, rest, rfl⟩
    have stored := store_digits_spec v.natAbs [sign] held (0 :: rest) ((text v).length - 1)
      (by simp only [← fits, List.length_cons, List.length_nil]; omega) (by simpa [signed] using fits)
    have marked : store (sign :: (decimal v.natAbs ++ 0 :: rest)) 0 [minus] = some (minus :: (decimal v.natAbs ++ 0 :: rest)) :=
      store_at (show _ = [] ++ ([sign] ++ (decimal v.natAbs ++ 0 :: rest)) from rfl) rfl rfl
    simp only [List.cons_append, List.nil_append] at stored
    simp only [List.cons_append, stored, negative, decide_true, if_true, Option.bind_some, marked]
    rw [signed]
    rfl
  · have unsigned : text v = decimal v.natAbs := if_neg negative
    have stored := store_digits_spec v.natAbs [] held (0 :: rest) ((text v).length - 1)
      (by have := decimal_nonempty v.natAbs; simp only [unsigned] at fits ⊢; simp only [List.length_nil]; omega)
        (by rw [fits, unsigned])
    simp only [List.nil_append] at stored
    simp only [stored, negative, decide_false, Bool.false_eq_true, if_false, Option.bind_some]
    rw [unsigned]
    rfl

theorem decimal_length_le (k v : Nat) (small : v < 10 ^ (k + 1)) : (decimal v).length ≤ k + 1 := by
  induction k generalizing v with
  | zero =>
      rw [decimal, if_pos (by simpa using small)]
      exact Nat.le_refl 1
  | succ k ih =>
      rw [decimal]
      split
      · simp
      · have shorter := ih (v / 10) (Nat.div_lt_of_lt_mul (by rwa [← Nat.pow_succ']))
        rw [List.length_append, List.length_singleton]
        omega

theorem text_short (v : Int) (low : -(llongMax + 1 : Int) ≤ v) (high : v ≤ llongMax) : (text v).length ≤ 20 := by
  have max : llongMax = 9223372036854775807 := rfl
  have short := decimal_length_le 18 v.natAbs (by omega)
  rw [text]
  split
  · rw [List.length_cons]
    omega
  · omega

-- What a string is read as is printed as that string again, by both printers.
theorem integers_keep_their_text (s : Sds) (v : Int) (dst : Block) (room : 21 ≤ dst.length) :
    string2ll s = some v ↔ (-(llongMax + 1 : Int) ≤ v ∧ v ≤ llongMax) ∧ sdsll2str v = s ∧
      ll2string dst v = some (s ++ 0 :: dst.drop (s.length + 1), s.length) := by
  rw [string2ll_iff, sdsll2str_text]
  constructor
  · rintro ⟨rfl, low, high⟩
    exact ⟨⟨low, high⟩, rfl, ll2string_spec dst v (by have := text_short v low high; omega)⟩
  · rintro ⟨⟨low, high⟩, same, _⟩
    exact ⟨same.symm, low, high⟩

theorem reference_integers_keep_their_text :
    string2ll (chars "-9223372036854775808") = some (-9223372036854775808) ∧ string2ll (chars "9223372036854775808") = none ∧
      ll2string (List.replicate 21 7) (-9223372036854775808) = some (chars "-9223372036854775808" ++ [0], 20) := by
  have read : string2ll (chars "-9223372036854775808") = some (-9223372036854775808) := by decide +kernel
  exact ⟨read, by decide +kernel, ((integers_keep_their_text _ _ (List.replicate 21 7) (by decide)).mp read).2.2⟩

end Redis
