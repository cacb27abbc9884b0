import PlannerBackend.ZiplistDelete

set_option autoImplicit false

namespace Redis

open Memory

section Footprint

-- The strings never take more bytes than this, with five for the length before
-- each of them and four to spare.
def footprint : List Sds → Nat
  | [] => 0
  | s :: rest => s.length + 18 + footprint rest

theorem footprint_append (l r : List Sds) : footprint (l ++ r) = footprint l + footprint r := by
  induction l with
  | nil => simp [footprint]
  | cons s l ih => rw [List.cons_append, footprint, ih, footprint, Nat.add_assoc (s.length + 18)]

theorem footprint_sublist (l r : List Sds) (sub : l.Sublist r) : footprint l ≤ footprint r := by
  induction sub with
  | slnil => exact Nat.le_refl 0
  | cons s _ ih =>
      rw [footprint]
      omega
  | cons_cons s _ ih =>
      rw [footprint, footprint]
      omega

theorem integer_bytes_short (value : Int) (encoding : Nat) (bytes : Block) (written : integerBytes value encoding = some bytes) :
    bytes.length ≤ 8 := by
  simp only [integerBytes] at written
  repeat' split at written
  all_goals cases written
  all_goals simp [le_length]

theorem head_short (s : Sds) : (headOf s).length ≤ 5 ∧ ((zipTryEncoding s).isSome → (headOf s).length = 1) := by
  cases tried : zipTryEncoding s with
  | none =>
      refine ⟨?_, by simp⟩
      rw [headOf, entryEncoding]
      repeat' split
      all_goals simp [le_length]
  | some found =>
      obtain ⟨_, bytes, codes⟩ := try_encoding_codes s found.1 found.2 tried
      have numeric : zipIsStr found.2 = false := decide_eq_false (by have := codes.tag; omega)
      have single : (headOf s).length = 1 := by simp [headOf, tried, entryEncoding, numeric]
      exact ⟨by omega, fun _ => single⟩

theorem body_short (s : Sds) : (bodyOf s).length ≤ s.length + 9 := by
  obtain ⟨short, single⟩ := head_short s
  rw [bodyOf, List.length_append, payloadOf]
  cases tried : zipTryEncoding s with
  | none =>
      simp only
      omega
  | some found =>
      obtain ⟨_, bytes, codes⟩ := try_encoding_codes s found.1 found.2 tried
      have few := integer_bytes_short _ _ _ codes.written
      rw [single (by simp [tried])]
      simp only [codes.written, Option.getD_some]
      omega

theorem size_short (cell : Cell) : cell.size ≤ cell.content.length + 14 := by
  have short := body_short cell.content
  have field : fieldSize cell.wide ≤ 5 := by
    rw [fieldSize]
    split <;> omega
  rw [Cell.size]
  omega

theorem weight_footprint (cells : List Cell) : weight cells + 4 * cells.length ≤ footprint (cells.map Cell.content) := by
  induction cells with
  | nil => exact Nat.le_refl 0
  | cons cell cells ih =>
      have short := size_short cell
      rw [weight, List.length_cons, List.map_cons, footprint]
      omega

end Footprint

-- sdsfromlonglong prints what was stored as an integer.
def sdsOf : ZipValue → Sds
  | .str s => s
  | .int v => sdsll2str v

theorem sds_of_value (s : Sds) : sdsOf (valueOf s) = s := by
  rw [valueOf]
  cases tried : zipTryEncoding s with
  | none => rfl
  | some found =>
      obtain ⟨read, _⟩ := try_encoding_codes s found.1 found.2 tried
      rw [sdsOf, sdsll2str_text]
      exact ((string2ll_iff s found.1).mp read).1.symm

def Room (contents : List Sds) : Prop := footprint contents + 11 < 256 ^ 4

section Contents

variable (stale : Nat → UInt8) (zl : Block) (cells front back : List Cell) (lists : Lists zl cells)
  (parts : cells = front ++ back)

include lists parts

theorem insert_contents (s : Sds) (room : Room (front.map Cell.content ++ s :: back.map Cell.content)) :
    ∃ next rest, ziplistInsert stale zl (offsetOf front) s = some next ∧ Lists next (front ++ rest) ∧
      rest.map Cell.content = s :: back.map Cell.content := by
  have before := weight_footprint front
  have behind := weight_footprint back
  have short := size_short (freshCell (lastSize 0 front) s)
  have free : offsetOf cells + 1 + (freshCell (lastSize 0 front) s).size + 4 * back.length < 256 ^ 4 := by
    rw [Room, footprint_append, footprint] at room
    rw [parts, offset_append, offsetOf]
    simp only [freshCell] at short ⊢
    omega
  obtain ⟨next, after, inserted, listed, same, _⟩ := ziplist_insert stale zl cells front back lists parts s free
  exact ⟨next, _, inserted, listed, by rw [List.map_cons, same]; rfl⟩

theorem delete_contents (some_ : back ≠ []) (num : Nat) (room : Room (cells.map Cell.content)) :
    ∃ next after, ziplistDeleteEntries stale zl (offsetOf front) num = some next ∧ Lists next (front ++ after) ∧
      after.map Cell.content = (back.map Cell.content).drop num := by
  have before := weight_footprint front
  have left := weight_footprint (back.drop num)
  have fewer := footprint_sublist _ _ ((List.drop_sublist num back).map Cell.content)
  have free : offsetOf front + weight (back.drop num) + 1 + 4 * (back.drop num).length < 256 ^ 4 := by
    rw [Room, parts, List.map_append, footprint_append] at room
    rw [offsetOf]
    omega
  obtain ⟨next, after, deleted, listed, same, _⟩ := ziplist_delete_entries stale zl cells front back lists parts some_ num free
  exact ⟨next, after, deleted, listed, by rw [same, List.map_drop]⟩

end Contents

-- The place that an index stands for in a list of n, from the tail when it is
-- negative.
def place (n : Nat) (index : Int) : Option Nat :=
  if index < 0 then if -index ≤ n then some (n - (-index).toNat) else none
  else if index < n then some index.toNat else none

theorem place_lt (n : Nat) (index : Int) (i : Nat) (at_ : place n index = some i) : i < n := by
  rw [place] at at_
  repeat' split at at_
  all_goals cases at_
  all_goals omega

inductive ZiplistOp where
  | push (s : Sds) (where_ : ZiplistEnd)
  | insert (index : Int) (s : Sds)
  | delete (index : Int)
  | deleteRange (index : Int) (num : Nat)
  | get (index : Int)
  | next (index : Int)
  | prev (index : Int)
  | find (index : Int) (s : Sds) (skip : Nat)
  | len

inductive ZiplistAnswer where
  | done
  | text (s : Option Sds)
  | count (n : Nat)
deriving DecidableEq, Repr

section Running

variable (stale : Nat → UInt8) (zl : Block)

-- What a caller does that has an index for an entry.
def atIndex (index : Int) (absent : Block × ZiplistAnswer) (found : Nat → Option (Block × ZiplistAnswer)) :
    Option (Block × ZiplistAnswer) :=
  (ziplistIndex zl index).bind fun p => p.elim (some absent) found

def textAt (p : Option Nat) : Option (Block × ZiplistAnswer) :=
  p.elim (some (zl, .text none)) fun p => (ziplistGet zl p).map fun value => (zl, .text (value.map sdsOf))

-- A string that is found is answered with the one behind it.
def ziplistOp : ZiplistOp → Option (Block × ZiplistAnswer)
  | .push s where_ => (ziplistPush stale zl s where_).map (·, .done)
  | .insert index s => atIndex zl index (zl, .done) fun p => (ziplistInsert stale zl p s).map (·, .done)
  | .delete index => atIndex zl index (zl, .done) fun p => (ziplistDelete stale zl p).map (·, .done)
  | .deleteRange index num => (ziplistDeleteRange stale zl index num).map (·, .done)
  | .get index => (ziplistIndex zl index).bind (textAt zl)
  | .next index => atIndex zl index (zl, .text none) fun p => (ziplistNext zl p).bind (textAt zl)
  | .prev index => atIndex zl index (zl, .text none) fun p => (ziplistPrev zl p).bind (textAt zl)
  | .find index s skip => atIndex zl index (zl, .text none) fun p =>
      (ziplistFind zl p s skip).bind fun q => q.elim (some (zl, .text none)) fun q => (ziplistNext zl q).bind (textAt zl)
  | .len => (ziplistLen zl).map fun (zl, n) => (zl, .count n)

end Running

-- The entries may be reallocated with any bytes behind them.
def ziplistRun : List ((Nat → UInt8) × ZiplistOp) → Block → Option (Block × List ZiplistAnswer)
  | [], zl => some (zl, [])
  | (stale, op) :: rest, zl =>
      (ziplistOp stale zl op).bind fun (zl, answer) => (ziplistRun rest zl).map fun (zl, answers) => (zl, answer :: answers)

-- The first of the places that are compared where the string stands.
def findEvery (s : Sds) (skip : Nat) (l : List Sds) : Option Nat :=
  (List.range l.length).find? fun k => k % (skip + 1) = 0 && l[k]? = some s

def listOp (l : List Sds) : ZiplistOp → List Sds × ZiplistAnswer
  | .push s .head => (s :: l, .done)
  | .push s .tail => (l ++ [s], .done)
  | .insert index s => ((place l.length index).elim l fun i => l.take i ++ s :: l.drop i, .done)
  | .delete index => ((place l.length index).elim l l.eraseIdx, .done)
  | .deleteRange index num => ((place l.length index).elim l fun i => l.take i ++ l.drop (i + num), .done)
  | .get index => (l, .text ((place l.length index).bind fun i => l[i]?))
  | .next index => (l, .text ((place l.length index).bind fun i => l[i + 1]?))
  | .prev index => (l, .text ((place l.length index).bind fun i => if i = 0 then none else l[i - 1]?))
  | .find index s skip =>
      (l, .text ((place l.length index).bind fun i => (findEvery s skip (l.drop i)).bind fun k => l[i + k + 1]?))
  | .len => (l, .count l.length)

def listRun : List ((Nat → UInt8) × ZiplistOp) → List Sds → List Sds × List ZiplistAnswer
  | [], l => (l, [])
  | (_, op) :: rest, l => ((listRun rest (listOp l op).1).1, (listOp l op).2 :: (listRun rest (listOp l op).1).2)

-- What an operation adds to the footprint.
def ZiplistOp.adds : ZiplistOp → Nat
  | .push s _ | .insert _ s => s.length + 18
  | _ => 0

def addedBy : List ((Nat → UInt8) × ZiplistOp) → Nat
  | [] => 0
  | (_, op) :: rest => op.adds + addedBy rest

theorem op_footprint (l : List Sds) (op : ZiplistOp) : footprint (listOp l op).1 ≤ footprint l + op.adds := by
  have cut (i : Nat) : footprint (l.take i) + footprint (l.drop i) = footprint l :=
    by rw [← footprint_append, List.take_append_drop]
  cases op with
  | push s where_ =>
      cases where_ with
      | head => simp only [listOp, footprint, ZiplistOp.adds]; omega
      | tail => simp only [listOp, footprint_append, footprint, ZiplistOp.adds]; omega
  | insert index s =>
      simp only [listOp, ZiplistOp.adds]
      cases place l.length index with
      | none => exact Nat.le_add_right _ _
      | some i =>
          have := cut i
          simp only [Option.elim_some, footprint_append, footprint]
          omega
  | delete index =>
      simp only [listOp, ZiplistOp.adds]
      cases place l.length index with
      | none => exact Nat.le_refl _
      | some i => exact footprint_sublist _ _ (List.eraseIdx_sublist l i)
  | deleteRange index num =>
      simp only [listOp, ZiplistOp.adds]
      cases place l.length index with
      | none => exact Nat.le_refl _
      | some i =>
          have := cut i
          have fewer := footprint_sublist _ _ (List.drop_sublist num (l.drop i))
          rw [List.drop_drop] at fewer
          simp only [Option.elim_some, footprint_append]
          omega
  | _ => exact Nat.le_refl _

section Steps

variable (stale : Nat → UInt8) (zl : Block) (cells : List Cell) (lists : Lists zl cells)

include lists

theorem index_place (index : Int) :
    ziplistIndex zl index = some ((place cells.length index).map fun i => offsetOf (cells.take i)) := by
  rw [ziplist_index lists index, place]
  repeat' split
  all_goals rfl

theorem text_at (i : Nat) (inside : i < cells.length) :
    textAt zl (some (offsetOf (cells.take i))) = some (zl, .text (cells.map Cell.content)[i]?) := by
  have parts : cells = cells.take i ++ cells[i] :: cells.drop (i + 1) := by rw [List.getElem_cons_drop, List.take_append_drop]
  obtain ⟨fits, holds⟩ := cell_at lists _ _ _ parts
  simp only [textAt, Option.elim_some, ziplist_get fits holds, Option.map_some, sds_of_value]
  rw [List.getElem?_map, List.getElem?_eq_getElem inside, Option.map_some]

theorem next_text (i : Nat) (inside : i < cells.length) :
    (ziplistNext zl (offsetOf (cells.take i))).bind (textAt zl) = some (zl, .text (cells.map Cell.content)[i + 1]?) := by
  have parts : cells = cells.take i ++ cells[i] :: cells.drop (i + 1) := by rw [List.getElem_cons_drop, List.take_append_drop]
  rw [ziplist_next lists _ _ _ parts, Option.bind_some]
  by_cases last : cells.drop (i + 1) = []
  · rw [if_pos last]
    have short := List.drop_eq_nil_iff.mp last
    rw [List.getElem?_eq_none (by rw [List.length_map]; exact short)]
    rfl
  · rw [if_neg last, List.take_append_getElem]
    have more : i + 1 < cells.length := by
      rw [List.drop_eq_nil_iff] at last
      omega
    exact text_at zl cells lists (i + 1) more

theorem prev_text (i : Nat) (inside : i < cells.length) :
    (ziplistPrev zl (offsetOf (cells.take i))).bind (textAt zl) =
      some (zl, .text (if i = 0 then none else (cells.map Cell.content)[i - 1]?)) := by
  rw [ziplist_prev lists (cells.take i) (cells.drop i) (List.take_append_drop i cells).symm, Option.bind_some]
  cases i with
  | zero => rfl
  | succ i =>
      have before : cells.take (i + 1) ≠ [] := by
        rw [ne_eq, List.take_eq_nil_iff]
        intro empty
        rcases empty with empty | empty
        · omega
        · rw [empty] at inside
          exact absurd inside (Nat.not_lt_zero _)
      rw [if_neg before, List.dropLast_take (by omega), if_neg (by omega)]
      exact text_at zl cells lists i (by omega)

end Steps

-- The counter makes it wait for the next place that is compared.
theorem find_from_range (s : Sds) (skip skipcnt : Nat) (back : List Cell) :
    findFrom s skip skipcnt back =
      (List.range back.length).find? fun k =>
        skipcnt ≤ k && (k - skipcnt) % (skip + 1) = 0 && (back.map Cell.content)[k]? = some s := by
  induction back generalizing skipcnt with
  | nil => cases skipcnt <;> rfl
  | cons cell back ih =>
      rw [List.length_cons, List.range_succ_eq_map, List.find?_cons, List.find?_map]
      cases skipcnt with
      | succ skipcnt =>
          rw [findFrom, ih]
          congr 2
          funext k
          simp only [Function.comp_def, List.map_cons, List.getElem?_cons_succ, Nat.succ_le_succ_iff, Nat.succ_sub_succ]
      | zero =>
          rw [findFrom]
          by_cases same : cell.content = s
          · simp [same]
          · rw [if_neg same, ih skip]
            simp only [List.map_cons, List.getElem?_cons_zero, Option.some.injEq, same, decide_false, Bool.and_false]
            congr 2
            funext k
            simp only [Function.comp_def, List.getElem?_cons_succ, Nat.zero_le, decide_true, Bool.true_and, Nat.sub_zero]
            congr 1
            rw [← Bool.decide_and, decide_eq_decide]
            by_cases far : skip ≤ k
            · rw [show k.succ = k - skip + (skip + 1) by omega, Nat.add_mod_right]
              exact and_iff_right far
            · rw [Nat.mod_eq_of_lt (show k.succ < skip + 1 by omega)]
              exact ⟨fun both => absurd both.1 far, fun none_ => absurd none_ (Nat.succ_ne_zero k)⟩

section Refining

variable (stale : Nat → UInt8) (zl : Block) (cells : List Cell) (lists : Lists zl cells)

include lists

theorem find_every (i : Nat) (s : Sds) (skip : Nat) :
    ziplistFind zl (offsetOf (cells.take i)) s skip =
      some ((findEvery s skip ((cells.map Cell.content).drop i)).map fun k => offsetOf (cells.take (i + k))) := by
  rw [ziplist_find lists _ _ (List.take_append_drop i cells).symm, find_from_range, findEvery]
  simp only [Nat.zero_le, decide_true, Bool.true_and, Nat.sub_zero, ← List.map_drop, List.length_map, ← List.take_add]

omit lists in
theorem find_inside (i k : Nat) (s : Sds) (skip : Nat) (found : findEvery s skip ((cells.map Cell.content).drop i) = some k) :
    i + k < cells.length := by
  have member := List.mem_of_find?_eq_some found
  rw [List.mem_range, List.length_drop, List.length_map] at member
  omega

theorem at_index (index : Int) (absent : Block × ZiplistAnswer) (found : Nat → Option (Block × ZiplistAnswer)) :
    atIndex zl index absent found = (place cells.length index).elim (some absent) fun i => found (offsetOf (cells.take i)) := by
  rw [atIndex, index_place zl cells lists, Option.bind_some]
  cases place cells.length index with
  | none => rfl
  | some i => rfl

theorem push_refines (s : Sds) (where_ : ZiplistEnd) (room : Room (listOp (cells.map Cell.content) (.push s where_)).1) :
    ∃ next rest, ziplistPush stale zl s where_ = some next ∧ Lists next rest ∧
      rest.map Cell.content = (listOp (cells.map Cell.content) (.push s where_)).1 := by
  cases where_ with
  | head =>
      obtain ⟨next, rest, pushed, listed, same⟩ := insert_contents stale zl cells [] cells lists rfl s room
      exact ⟨next, rest, pushed, listed, same⟩
  | tail =>
      obtain ⟨next, rest, pushed, listed, same⟩ :=
        insert_contents stale zl cells cells [] lists (List.append_nil cells).symm s room
      refine ⟨next, cells ++ rest, ?_, listed, by rw [List.map_append, same]; rfl⟩
      rw [ziplistPush, listed_bytes zl cells lists]
      exact pushed

theorem delete_refines (index : Int) (num : Nat) (room : Room (cells.map Cell.content)) :
    ∃ next rest, ziplistDeleteRange stale zl index num = some next ∧ Lists next rest ∧
      rest.map Cell.content = (listOp (cells.map Cell.content) (.deleteRange index num)).1 := by
  rw [ziplistDeleteRange, index_place zl cells lists, listOp, List.length_map]
  cases at_ : place cells.length index with
  | none => exact ⟨zl, cells, rfl, lists, rfl⟩
  | some i =>
      have inside := place_lt cells.length index i at_
      have some_ : cells.drop i ≠ [] := by
        rw [ne_eq, List.drop_eq_nil_iff]
        omega
      obtain ⟨next, after, deleted, listed, same⟩ :=
        delete_contents stale zl cells _ _ lists (List.take_append_drop i cells).symm some_ num room
      refine ⟨next, cells.take i ++ after, deleted, listed, ?_⟩
      rw [List.map_append, same, List.map_take, List.map_drop, List.drop_drop]
      rfl

theorem insert_refines (index : Int) (s : Sds) (room : Room (listOp (cells.map Cell.content) (.insert index s)).1) :
    ∃ next rest, ziplistOp stale zl (.insert index s) = some (next, (listOp (cells.map Cell.content) (.insert index s)).2) ∧
      Lists next rest ∧ rest.map Cell.content = (listOp (cells.map Cell.content) (.insert index s)).1 := by
  simp only [ziplistOp, at_index zl cells lists, listOp, List.length_map] at room ⊢
  cases at_ : place cells.length index with
  | none => exact ⟨zl, cells, rfl, lists, rfl⟩
  | some i =>
      rw [at_, Option.elim_some, ← List.map_take, ← List.map_drop] at room
      obtain ⟨next, rest, inserted, listed, same⟩ :=
        insert_contents stale zl cells _ _ lists (List.take_append_drop i cells).symm s room
      refine ⟨next, cells.take i ++ rest, by rw [Option.elim_some, inserted]; rfl, listed, ?_⟩
      rw [List.map_append, same, List.map_take, List.map_drop]
      rfl

-- A deletion is the deletion of a range of one.
theorem erase_refines (index : Int) (room : Room (cells.map Cell.content)) :
    ∃ next rest, ziplistOp stale zl (.delete index) = some (next, (listOp (cells.map Cell.content) (.delete index)).2) ∧
      Lists next rest ∧ rest.map Cell.content = (listOp (cells.map Cell.content) (.delete index)).1 := by
  obtain ⟨next, rest, deleted, listed, same⟩ := delete_refines stale zl cells lists index 1 room
  simp only [ziplistDeleteRange, index_place zl cells lists, Option.bind_eq_bind, Option.bind_some] at deleted
  simp only [ziplistOp, at_index zl cells lists, listOp, List.length_map] at same ⊢
  refine ⟨next, rest, ?_, listed, ?_⟩
  · cases at_ : place cells.length index with
    | none =>
        rw [at_] at deleted
        cases deleted
        rfl
    | some i =>
        rw [at_] at deleted
        rw [Option.elim_some, ziplistDelete, show ziplistDeleteEntries stale zl _ 1 = _ from deleted]
        rfl
  · rw [same]
    cases place cells.length index with
    | none => rfl
    | some i => rw [Option.elim_some, Option.elim_some, List.eraseIdx_eq_take_drop_succ]

theorem ziplist_op_refines (op : ZiplistOp) (room : Room (cells.map Cell.content))
    (roomAfter : Room (listOp (cells.map Cell.content) op).1) :
    ∃ next rest, ziplistOp stale zl op = some (next, (listOp (cells.map Cell.content) op).2) ∧ Lists next rest ∧
      rest.map Cell.content = (listOp (cells.map Cell.content) op).1 := by
  have place_inside (index : Int) (i : Nat) (at_ : place cells.length index = some i) := place_lt cells.length index i at_
  cases op with
  | push s where_ =>
      obtain ⟨next, rest, pushed, listed, same⟩ := push_refines stale zl cells lists s where_ roomAfter
      refine ⟨next, rest, ?_, listed, same⟩
      rw [ziplistOp, pushed]
      cases where_ <;> rfl
  | insert index s => exact insert_refines stale zl cells lists index s roomAfter
  | delete index => exact erase_refines stale zl cells lists index room
  | deleteRange index num =>
      obtain ⟨next, rest, deleted, listed, same⟩ := delete_refines stale zl cells lists index num room
      exact ⟨next, rest, by rw [ziplistOp, deleted]; rfl, listed, same⟩
  | get index =>
      refine ⟨zl, cells, ?_, lists, rfl⟩
      simp only [ziplistOp, index_place zl cells lists, Option.bind_some, listOp, List.length_map]
      cases at_ : place cells.length index with
      | none => rfl
      | some i => exact text_at zl cells lists i (place_inside index i at_)
  | next index =>
      refine ⟨zl, cells, ?_, lists, rfl⟩
      simp only [ziplistOp, at_index zl cells lists, listOp, List.length_map]
      cases at_ : place cells.length index with
      | none => rfl
      | some i => exact next_text zl cells lists i (place_inside index i at_)
  | prev index =>
      refine ⟨zl, cells, ?_, lists, rfl⟩
      simp only [ziplistOp, at_index zl cells lists, listOp, List.length_map]
      cases at_ : place cells.length index with
      | none => rfl
      | some i => exact prev_text zl cells lists i (place_inside index i at_)
  | find index s skip =>
      refine ⟨zl, cells, ?_, lists, rfl⟩
      simp only [ziplistOp, at_index zl cells lists, listOp, List.length_map]
      cases at_ : place cells.length index with
      | none => rfl
      | some i =>
          simp only [Option.elim_some, Option.bind_some, find_every zl cells lists]
          cases found : findEvery s skip ((cells.map Cell.content).drop i) with
          | none => rfl
          | some k => exact next_text zl cells lists (i + k) (find_inside cells i k s skip found)
  | len =>
      obtain ⟨next, counted, listed⟩ := ziplist_len lists
      refine ⟨next, cells, ?_, listed, rfl⟩
      rw [ziplistOp, counted, listOp, List.length_map]
      rfl

end Refining

theorem ziplist_run_refines (ops : List ((Nat → UInt8) × ZiplistOp)) (zl : Block) (cells : List Cell) (lists : Lists zl cells)
    (bounded : footprint (cells.map Cell.content) + addedBy ops + 11 < 256 ^ 4) :
    ∃ next rest, ziplistRun ops zl = some (next, (listRun ops (cells.map Cell.content)).2) ∧ Lists next rest ∧
      rest.map Cell.content = (listRun ops (cells.map Cell.content)).1 := by
  induction ops generalizing zl cells with
  | nil => exact ⟨zl, cells, rfl, lists, rfl⟩
  | cons first rest ih =>
      obtain ⟨stale, op⟩ := first
      have grown := op_footprint (cells.map Cell.content) op
      rw [addedBy] at bounded
      obtain ⟨next, after, ran, listed, same⟩ :=
        ziplist_op_refines stale zl cells lists op (by rw [Room]; omega) (by rw [Room]; omega)
      rw [← same] at grown
      obtain ⟨last, ended, ranRest, listedLast, sameLast⟩ := ih next after listed (by omega)
      refine ⟨last, ended, ?_, listedLast, by rw [sameLast, same]; rfl⟩
      simp only [ziplistRun, ran, Option.bind_some, ranRest, same]
      rfl

-- A ziplist answers as the list of its strings: through every growing and
-- shrinking of the length fields no byte outside the block is touched, and
-- what was stored as an integer comes back as the text it was.
theorem ziplist_refines_list (ops : List ((Nat → UInt8) × ZiplistOp)) (bounded : addedBy ops + 11 < 256 ^ 4) :
    ∃ zl cells, ziplistRun ops ziplistNew = some (zl, (listRun ops []).2) ∧ Lists zl cells ∧
      cells.map Cell.content = (listRun ops []).1 := by
  have empty : footprint (([] : List Cell).map Cell.content) = 0 := rfl
  exact ziplist_run_refines ops ziplistNew [] new_lists (by omega)

-- The long string in front makes the entries of 250 bytes behind it widen one
-- after the other; its deletion narrows only the first of them.
def Reference.cascade : List ZiplistOp :=
  [.push (chars "1024") .tail, .push (List.replicate 250 97) .head, .push (List.replicate 250 98) .head,
    .insert 0 (List.replicate 300 99), .get (-1), .delete 0, .next (-2), .find 0 (chars "1024") 0, .prev (-1), .len]

theorem reference_ziplist_refines_list :
    ∃ zl, ziplistRun (Reference.cascade.map fun op => (fun _ => 7, op)) ziplistNew =
      some (zl, [.done, .done, .done, .done, .text (some (chars "1024")), .done, .text (some (chars "1024")), .text none,
        .text (some (List.replicate 250 97)), .count 3]) := by
  obtain ⟨zl, _, ran, _⟩ := ziplist_refines_list (Reference.cascade.map fun op => (fun _ => 7, op))
    (by decide +kernel)
  exact ⟨zl, ran⟩

end Redis
