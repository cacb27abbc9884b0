import Mathlib.Data.List.Basic
import PlannerBackend.ZiplistLayout

set_option autoImplicit false

namespace Redis

open Memory

theorem offset_snoc (front : List Cell) (cell : Cell) : offsetOf (front ++ [cell]) = offsetOf front + cell.size := by
  rw [offset_append, weight, weight, Nat.add_zero]

theorem last_size_snoc (prev : Nat) (front : List Cell) (cell : Cell) : lastSize prev (front ++ [cell]) = cell.size := by
  rw [last_size_append, lastSize, lastSize]

section Positions

variable {zl : Block} {cells : List Cell} (lists : Lists zl cells)

include lists

theorem cell_at (front : List Cell) (cell : Cell) (back : List Cell) (parts : cells = front ++ cell :: back) :
    cell.Fits (lastSize 0 front) ∧ Holds zl (offsetOf front) (cell.bytes (lastSize 0 front)) := by
  obtain ⟨length, split, _⟩ := lists.split
  have fit := lists.fit
  rw [parts, all_fit_append] at fit
  refine ⟨fit.2.1, header (offsetOf cells + 1) (offsetOf cells.dropLast) length ++ spread 0 front,
    spread cell.size back ++ [zipEnd], ?_, ?_⟩
  · rw [split, parts, spread_append, spread]
    simp only [List.append_assoc]
  · rw [List.length_append, header_length, spread_length, offsetOf]

theorem end_at : zl[offsetOf cells]? = some zipEnd := by
  obtain ⟨length, split, _⟩ := lists.split
  have ended : Holds zl (offsetOf cells) [zipEnd] :=
    ⟨header (offsetOf cells + 1) (offsetOf cells.dropLast) length ++ spread 0 cells, [], by simp [split],
      by rw [List.length_append, header_length, spread_length, offsetOf]⟩
  exact byte_holds ended

theorem index_forward (index : Nat) (front back : List Cell) (parts : cells = front ++ back) :
    indexForward zl index (offsetOf front) =
    some (if index < back.length then some (offsetOf (front ++ back.take index)) else none) := by
  induction back generalizing front index with
  | nil =>
      rw [List.append_nil] at parts
      rw [indexForward.eq_def, ← parts]
      simp [end_at lists]
  | cons cell back ih =>
      obtain ⟨fits, holds⟩ := cell_at lists front cell back parts
      obtain ⟨byte, first, inside, _⟩ := first_byte fits holds
      rw [indexForward.eq_def]
      simp only [first, inside, Option.bind_eq_bind, Option.bind_some, if_false]
      cases index with
      | zero => simp
      | succ index =>
          have rest := ih index (front ++ [cell]) (by simp [parts])
          rw [offset_snoc] at rest
          simp only [raw_entry_length fits holds, Option.bind_some, rest, List.length_cons, Nat.add_lt_add_iff_right,
            List.take_succ_cons, List.append_assoc, List.singleton_append]

theorem index_backward (index : Nat) (front : List Cell) (cell : Cell) (back : List Cell)
    (parts : cells = front ++ cell :: back) :
    indexBackward zl index (offsetOf front) (lastSize 0 front) =
      some (if index ≤ front.length then some (offsetOf (front.take (front.length - index))) else none) := by
  induction index generalizing front cell back with
  | zero =>
      rw [indexBackward.eq_def]
      simp
  | succ index ih =>
      rw [indexBackward.eq_def]
      rcases List.eq_nil_or_concat' front with rfl | ⟨front, before, rfl⟩
      · simp [lastSize]
      · have rest := ih front before (cell :: back) (by simp [parts])
        obtain ⟨fits, holds⟩ := cell_at lists front before (cell :: back) (by simp [parts])
        have back : offsetOf (front ++ [before]) - before.size = offsetOf front := by rw [offset_snoc, Nat.add_sub_cancel]
        simp only [last_size_snoc, size_pos, gt_iff_lt, if_true, back, decode_prevlen fits holds, Option.bind_eq_bind,
          Option.bind_some, rest, List.length_append, List.length_singleton, Nat.add_le_add_iff_right, Nat.add_sub_add_right]
        rw [List.take_append_of_le_length (Nat.sub_le ..)]

theorem tail_at : ziplistTailOffset zl = some (offsetOf cells.dropLast) := by
  obtain ⟨length, split, _⟩ := lists.split
  have small := lists.small
  have before : offsetOf cells.dropLast ≤ offsetOf cells := by
    rcases List.eq_nil_or_concat' cells with rfl | ⟨front, last, rfl⟩
    · exact Nat.le_refl _
    · rw [List.dropLast_concat, offset_snoc]
      omega
  rw [split]
  exact ziplist_tail_offset _ _ _ _ (by omega)

-- The entry that an index names, counted from the tail when it is negative.
theorem ziplist_index (index : Int) :
    ziplistIndex zl index =
      some (if index < 0 then if -index ≤ cells.length then some (offsetOf (cells.take (cells.length - (-index).toNat))) else none
        else if index < cells.length then some (offsetOf (cells.take index.toNat)) else none) := by
  rw [ziplistIndex]
  split
  case isTrue negative =>
    rcases List.eq_nil_or_concat' cells with rfl | ⟨front, last, rfl⟩
    · have ended := end_at lists
      simp only [tail_at lists, List.dropLast_nil, ended, Option.bind_eq_bind, Option.bind_some, if_true, List.length_nil]
      rw [if_neg (by omega)]
    · obtain ⟨fits, holds⟩ := cell_at lists front last [] rfl
      obtain ⟨byte, first, inside, _⟩ := first_byte fits holds
      simp only [tail_at lists, List.dropLast_concat, first, inside, Option.bind_eq_bind, Option.bind_some, if_false,
        decode_prevlen fits holds,
        index_backward lists (-index - 1).toNat front last [] rfl, List.length_append, List.length_singleton]
      by_cases inside : -index ≤ (front.length + 1 : Nat)
      · rw [if_pos (by omega), if_pos inside, List.take_append_of_le_length (by omega)]
        congr 4
        omega
      · rw [if_neg (by omega), if_neg inside]
  case isFalse positive =>
    have found := index_forward lists index.toNat [] cells rfl
    simp only [List.nil_append] at found
    rw [show ziplistHeaderSize = offsetOf [] from rfl, found]
    by_cases inside : index < cells.length
    · rw [if_pos (by omega), if_pos inside]
    · rw [if_neg (by omega), if_neg inside]

theorem ziplist_next (front : List Cell) (cell : Cell) (back : List Cell) (parts : cells = front ++ cell :: back) :
    ziplistNext zl (offsetOf front) = some (if back = [] then none else some (offsetOf (front ++ [cell]))) := by
  obtain ⟨fits, holds⟩ := cell_at lists front cell back parts
  obtain ⟨byte, first, inside, _⟩ := first_byte fits holds
  simp only [ziplistNext, first, inside, Option.bind_eq_bind, Option.bind_some, if_false,
    raw_entry_length fits holds, ← offset_snoc]
  cases back with
  | nil =>
      have ended := end_at lists
      rw [parts] at ended
      simp [ended]
  | cons next back =>
      obtain ⟨fits, holds⟩ := cell_at lists (front ++ [cell]) next back (by simp [parts])
      obtain ⟨byte, first, inside, _⟩ := first_byte fits holds
      simp [first, inside]

theorem ziplist_prev (front back : List Cell) (parts : cells = front ++ back) :
    ziplistPrev zl (offsetOf front) = some (if front = [] then none else some (offsetOf front.dropLast)) := by
  cases back with
  | nil =>
      rw [List.append_nil] at parts
      subst parts
      simp only [ziplistPrev, end_at lists, Option.bind_eq_bind, Option.bind_some, if_true, tail_at lists]
      rcases List.eq_nil_or_concat' cells with rfl | ⟨front, last, rfl⟩
      · simp [end_at lists]
      · obtain ⟨fits, holds⟩ := cell_at lists front last [] rfl
        obtain ⟨byte, first, inside, _⟩ := first_byte fits holds
        simp [first, inside]
  | cons cell back =>
      obtain ⟨fits, holds⟩ := cell_at lists front cell back parts
      obtain ⟨byte, first, inside, _⟩ := first_byte fits holds
      simp only [ziplistPrev, first, inside, Option.bind_eq_bind, Option.bind_some, if_false, decode_prevlen fits holds]
      rcases List.eq_nil_or_concat' front with rfl | ⟨front, last, rfl⟩
      · rfl
      · have positive := size_pos last
        have apart : offsetOf (front ++ [last]) ≠ ziplistHeaderSize := by
          rw [offset_snoc, offsetOf, ziplistHeaderSize]
          omega
        have back : offsetOf (front ++ [last]) - last.size = offsetOf front := by rw [offset_snoc, Nat.add_sub_cancel]
        simp [apart, last_size_snoc, positive, back]

end Positions

section Searching

-- The position of the string among the entries that are compared, with skip
-- others between any two.
def findFrom (vstr : Sds) (skip : Nat) : Nat → List Cell → Option Nat
  | _, [] => none
  | 0, cell :: back => if cell.content = vstr then some 0 else (findFrom vstr skip skip back).map (· + 1)
  | skipcnt + 1, _ :: back => (findFrom vstr skip skipcnt back).map (· + 1)

-- The string is no integer, or it is this one.
def Resolved (vstr : Sds) (vencoding : Nat) (vll : Int) : Prop :=
  vencoding = 255 ∧ zipTryEncoding vstr = none ∨ vencoding ≠ 255 ∧ zipTryEncoding vstr = some (vll, vencoding)

variable {vstr s : Sds}

theorem resolve (vencoding : Nat) (vll : Int) (before : vencoding = 0 ∨ Resolved vstr vencoding vll) :
    ∃ now nowEncoding, (if vencoding = 0 then (zipTryEncoding vstr).getD (vll, 255) else (vll, vencoding)) = (now, nowEncoding) ∧
      Resolved vstr nowEncoding now := by
  split
  case isTrue untried =>
    cases tried : zipTryEncoding vstr with
    | none => exact ⟨vll, 255, rfl, .inl ⟨rfl, tried⟩⟩
    | some found =>
        obtain ⟨_, bytes, codes⟩ := try_encoding_codes vstr found.1 found.2 tried
        obtain ⟨_, low⟩ := codes.tag
        exact ⟨found.1, found.2, rfl, .inr ⟨by omega, tried⟩⟩
  case isFalse tried => exact ⟨vll, vencoding, rfl, before.resolve_left tried⟩

theorem string_same (plain : zipTryEncoding s = none) (m : Block) (q : Nat) (holds : Holds m q (payloadOf s)) :
    (if (payloadOf s).length = vstr.length then (load m q (payloadOf s).length).map (· == vstr) else some false) =
    some (s == vstr) := by
  have payload : payloadOf s = s := by simp only [payloadOf, plain]
  have loaded := load_holds holds
  rw [payload] at loaded ⊢
  split
  · rw [loaded]
    rfl
  case isFalse longer =>
    have apart : s ≠ vstr := by
      rintro rfl
      exact longer rfl
    simp [apart]

-- Both are read from their own text only, so that equal numbers are equal
-- strings.
theorem integer_same (value vll : Int) (encoding vencoding : Nat) (tried : zipTryEncoding s = some (value, encoding))
    (resolved : Resolved vstr vencoding vll) (m : Block) (q : Nat) (holds : Holds m q (payloadOf s)) :
    (if vencoding ≠ 255 then (zipLoadInteger m q (encodingOf s)).map (· == vll) else some false) = some (s == vstr) := by
  have read := integer_read s value encoding tried m q holds
  rcases resolved with ⟨rfl, none⟩ | ⟨numeric, found⟩
  · have apart : s ≠ vstr := by
      rintro rfl
      rw [tried] at none
      cases none
    simp [apart]
  · obtain ⟨left, _⟩ := try_encoding_codes s value encoding tried
    obtain ⟨right, _⟩ := try_encoding_codes vstr vll vencoding found
    rw [if_pos numeric, read, Option.map_some]
    congr 1
    rw [Bool.eq_iff_iff, beq_iff_eq, beq_iff_eq]
    constructor
    · rintro rfl
      rw [((string2ll_iff s value).mp left).1, ((string2ll_iff vstr value).mp right).1]
    · rintro rfl
      rw [left] at right
      cases right
      rfl

variable {zl : Block} {cells : List Cell} (lists : Lists zl cells)

include lists

theorem find_loop (skip fuel : Nat) (front back : List Cell) (skipcnt vencoding : Nat) (vll : Int) (parts : cells = front ++ back)
    (enough : back.length < fuel) (before : vencoding = 0 ∨ Resolved vstr vencoding vll) :
    findLoop zl vstr skip fuel (offsetOf front) skipcnt vencoding vll =
      some ((findFrom vstr skip skipcnt back).map fun i => offsetOf (front ++ back.take i)) := by
  induction back generalizing front fuel skipcnt vencoding vll with
  | nil =>
      obtain ⟨fuel, rfl⟩ := Nat.exists_eq_add_of_lt enough
      rw [List.append_nil] at parts
      subst parts
      simp only [findLoop, end_at lists, Option.bind_eq_bind, Option.bind_some, if_true]
      cases skipcnt with
      | zero => rfl
      | succ skipcnt => rfl
  | cons cell back ih =>
      match fuel, enough with
      | fuel + 1, enough =>
        obtain ⟨fits, holds⟩ := cell_at lists front cell back parts
        obtain ⟨byte, first, inside, _⟩ := first_byte fits holds
        have payload := payload_holds holds
        rw [← Nat.add_assoc] at payload
        have ahead : offsetOf front + fieldSize cell.wide + (headOf cell.content).length + (payloadOf cell.content).length =
            offsetOf (front ++ [cell]) := by
          simp only [offset_snoc, Cell.size, bodyOf, List.length_append, Nat.add_assoc]
        have next (skipcnt vencoding : Nat) (vll : Int) (before : vencoding = 0 ∨ Resolved vstr vencoding vll) :=
          ih fuel (front ++ [cell]) skipcnt vencoding vll (by simp [parts]) (Nat.lt_of_succ_lt_succ enough) before
        simp only [findLoop, first, inside, Option.bind_eq_bind, Option.bind_some, if_false, decode_prevlensize fits holds,
          decode_cell fits holds, ahead, encoding_is_str]
        cases skipcnt with
        | succ skipcnt =>
            rw [if_neg (by omega), Nat.add_sub_cancel, next skipcnt vencoding vll before, findFrom]
            simp [Function.comp_def]
        | zero =>
            rw [if_pos rfl]
            cases tried : zipTryEncoding cell.content with
            | none =>
                simp only [Option.isNone_none, if_true, string_same tried zl _ payload, Option.bind_some,
                  next skip vencoding vll before, findFrom]
                by_cases same : cell.content = vstr
                · simp [same]
                · simp [same, Function.comp_def]
            | some found =>
                obtain ⟨now, nowEncoding, resolves, resolved⟩ := resolve vencoding vll before
                simp only [Option.isNone_some, Bool.false_eq_true, if_false, resolves, Option.bind_some,
                  next skip nowEncoding now (.inr resolved),
                  integer_same found.1 now found.2 nowEncoding tried resolved zl _ payload, findFrom]
                by_cases same : cell.content = vstr
                · simp [same]
                · simp [same, Function.comp_def]

theorem length_enough : cells.length < zl.length := by
  obtain ⟨length, split, _⟩ := lists.split
  have enough := length_le_weight cells
  rw [split, List.length_append, header_length, List.length_append, List.length_singleton, spread_length]
  omega

theorem ziplist_find (front back : List Cell) (parts : cells = front ++ back) (vstr : Sds) (skip : Nat) :
    ziplistFind zl (offsetOf front) vstr skip =
    some ((findFrom vstr skip 0 back).map fun i => offsetOf (front ++ back.take i)) := by
  have enough := length_enough lists
  rw [parts, List.length_append] at enough
  exact find_loop lists skip zl.length front back 0 0 0 parts (by omega) (.inl rfl)

theorem count_loop (fuel : Nat) (front back : List Cell) (parts : cells = front ++ back)
    (enough : back.length < fuel) (len : Nat) :
    countLoop zl fuel (offsetOf front) len = some (len + back.length) := by
  induction back generalizing fuel front len with
  | nil =>
      obtain ⟨fuel, rfl⟩ := Nat.exists_eq_add_of_lt enough
      rw [List.append_nil] at parts
      subst parts
      simp [countLoop, end_at lists]
  | cons cell back ih =>
      match fuel, enough with
      | fuel + 1, enough =>
        obtain ⟨fits, holds⟩ := cell_at lists front cell back parts
        obtain ⟨byte, first, inside, _⟩ := first_byte fits holds
        have next := ih fuel (front ++ [cell]) (by simp [parts]) (Nat.lt_of_succ_lt_succ enough) (len + 1)
        rw [offset_snoc] at next
        simp only [countLoop, first, inside, Option.bind_eq_bind, Option.bind_some, if_false,
          raw_entry_length fits holds, next, List.length_cons]
        congr 1
        omega

-- A count stored again is exact.
theorem ziplist_len : ∃ next, ziplistLen zl = some (next, cells.length) ∧ Lists next cells := by
  obtain ⟨length, split, counts⟩ := lists.split
  have small : length < 256 ^ 2 := by
    rcases counts with ⟨_, small⟩ | rfl
    · simp only [uint16Max] at small
      omega
    · decide
  have stored : ziplistLength zl = some length := by
    rw [split]
    exact ziplist_length _ _ _ _ small
  have counted := count_loop lists zl.length [] cells rfl (length_enough lists) 0
  rw [show offsetOf [] = ziplistHeaderSize from rfl, Nat.zero_add] at counted
  simp only [ziplistLen, stored, Option.bind_eq_bind, Option.bind_some]
  rcases counts with ⟨rfl, exact⟩ | rfl
  · exact ⟨zl, by rw [if_pos exact], lists⟩
  · simp only [Nat.lt_irrefl, if_false, counted, Option.bind_some]
    by_cases fewer : cells.length < uint16Max
    · have set := set_ziplist_length (offsetOf cells + 1) (offsetOf cells.dropLast) uint16Max
        (spread 0 cells ++ [zipEnd]) cells.length
      rw [← split] at set
      refine ⟨_, by rw [if_pos fewer, set]; rfl, ⟨_, rfl, .inl ⟨rfl, fewer⟩⟩, lists.fit, lists.small⟩
    · exact ⟨zl, by rw [if_neg fewer]; rfl, lists⟩

end Searching

end Redis
