import Mathlib.Logic.Function.Basic
import PlannerBackend.DictSound

set_option autoImplicit false

namespace Redis

open List Function

section Maps

variable {K V : Type} [DecidableEq K]

-- The finite map that a dictionary is for.
def Dict.Means (d : Dict K V) (m : K → Option V) : Prop := ∀ key val, (key, val) ∈ d.entries ↔ m key = some val

variable (hash : K → Nat) (d next : Dict K V) (m : K → Option V) (means : d.Means m)

include means

omit [DecidableEq K] in
theorem means_same (same : next.entries ~ d.entries) : next.Means m :=
  fun key val => same.mem_iff.trans (means key val)

omit [DecidableEq K] in
theorem means_none (key : K) : (∀ val, (key, val) ∉ d.entries) ↔ m key = none := by
  rw [Option.eq_none_iff_forall_ne_some]
  exact forall_congr' fun val => not_congr (means key val)

theorem means_put (key : K) (val : V) (others : List (K × V))
    (whole : ∀ other old, other ≠ key → ((other, old) ∈ d.entries ↔ (other, old) ∈ others)) (fresh : ∀ old, (key, old) ∉ others)
    (put : next.entries ~ (key, val) :: others) : next.Means (update m key (some val)) := by
  intro other old
  rw [put.mem_iff, mem_cons, Prod.mk.injEq]
  by_cases same : other = key
  · subst same
    simp [fresh old, eq_comm]
  · rw [update_of_ne same, ← means other old, whole other old same]
    simp [same]

theorem means_drop (key : K) (whole : ∀ other old, other ≠ key → ((other, old) ∈ d.entries ↔ (other, old) ∈ next.entries))
    (gone : ∀ old, (key, old) ∉ next.entries) : next.Means (update m key none) := by
  intro other old
  by_cases same : other = key
  · subst same
    simp [gone old]
  · rw [update_of_ne same, ← means other old, whole other old same]

end Maps

section Specs

variable {K V : Type} [DecidableEq K] (hash : K → Nat) (d : Dict K V) (sound : d.Sound hash)

include sound

omit [DecidableEq K] in
theorem key_once (key : K) (old : V) (others : List (K × V)) (whole : d.entries ~ (key, old) :: others) :
    (∀ val, (key, val) ∉ others) ∧ ∀ other val, other ≠ key → ((other, val) ∈ d.entries ↔ (other, val) ∈ others) := by
  constructor
  · intro val member
    have keys := (whole.map Prod.fst).nodup_iff.mp sound.distinct
    exact (nodup_cons.mp keys).1 (mem_map.mpr ⟨(key, val), member, rfl⟩)
  · intro other val different
    rw [whole.mem_iff, mem_cons, Prod.mk.injEq]
    simp [different]

omit [DecidableEq K] sound in
theorem entry_member (ref : EntryRef) (entry : K × V) (at_ : d.entryAt ref = some entry) : entry ∈ d.entries := by
  obtain ⟨chain, here, there⟩ := Option.bind_eq_some_iff.mp at_
  have inTable : entry ∈ (d.ht ref.second).entries := mem_flatten.mpr ⟨chain, mem_of_getElem? here, mem_of_getElem? there⟩
  cases second : ref.second <;> rw [second] at inTable
  · exact mem_append_left _ inTable
  · exact mem_append_right _ inTable

variable (m : K → Option V) (means : d.Means m) (key : K)

include means

theorem fetch_value_map : ∃ next, dictFetchValue hash d key = some (next, m key) ∧ next.Sound hash ∧ next.Means m ∧
    dictSize next = dictSize d := by
  obtain ⟨next, found, ran, kept, located⟩ := find_spec hash key d sound
  have same := means_same d next m means kept.entries
  refine ⟨next, ?_, kept.sound, same, rearranged_size hash d sound next kept⟩
  rw [dictFetchValue, ran, Option.map_some]
  cases found with
  | none => rw [(means_none next m same key).mp located]; rfl
  | some ref =>
      obtain ⟨val, at_⟩ := located
      rw [(same key val).mp (entry_member next ref (key, val) at_)]
      simp [at_]

theorem delete_map : ∃ next, dictDelete hash d key = some (next, (m key).isSome) ∧ next.Sound hash ∧
    next.Means (update m key none) ∧
    dictSize next = dictSize d - if (m key).isSome then 1 else 0 := by
  obtain ⟨next, removed, ran, soundNext, result⟩ := delete_spec hash key d sound
  have size := size_entries hash next soundNext
  rw [size_entries hash d sound, dictDelete, ran]
  cases removed with
  | none =>
      obtain ⟨same, absent⟩ := result
      have unset := (means_none d m means key).mp absent
      refine ⟨next, by simp [unset], soundNext, ?_, by simp [size, unset, same.length_eq]⟩
      rw [← unset, update_eq_self]
      exact means_same d next m means same
  | some entry =>
      obtain ⟨key, old⟩ := entry
      obtain ⟨rfl, whole⟩ := result
      have set := (means key old).mp (whole.symm.subset mem_cons_self)
      obtain ⟨gone, others⟩ := key_once hash d sound key old next.entries whole
      exact ⟨next, by simp [set], soundNext, means_drop d next m means key others gone, by simp [size, set, whole.length_eq]⟩

variable (canResize : Bool) (val : V) (bounded : dictSize d ≤ 2 ^ 62)

include bounded

theorem add_map : ∃ next, dictAdd hash canResize d key val = some (next, (m key).isNone) ∧ next.Sound hash ∧
    next.Means (if (m key).isNone then update m key (some val) else m) ∧
    dictSize next = dictSize d + if (m key).isNone then 1 else 0 := by
  obtain ⟨next, outcome, ran, soundNext, result⟩ := add_raw_spec hash key d sound canResize val bounded
  have size := size_entries hash next soundNext
  rw [size_entries hash d sound, dictAdd, ran]
  cases outcome with
  | failed => exact result.elim
  | added =>
      obtain ⟨holds, absent⟩ := result
      have unset := (means_none d m means key).mp absent
      refine ⟨next, by simp [unset], soundNext, ?_, by simp [size, unset, holds.length_eq]⟩
      rw [if_pos (by simp [unset])]
      exact means_put d next m means key val d.entries (fun _ _ _ => Iff.rfl) absent holds
  | existing ref =>
      obtain ⟨same, old, at_⟩ := result
      have set := (means key old).mp (same.subset (entry_member next ref (key, old) at_))
      refine ⟨next, by simp [set], soundNext, ?_, by simp [size, set, same.length_eq]⟩
      rw [if_neg (by simp [set])]
      exact means_same d next m means same

theorem replace_map : ∃ next, dictReplace hash canResize d key val = some (next, (m key).isNone) ∧ next.Sound hash ∧
    next.Means (update m key (some val)) ∧ dictSize next = dictSize d + if (m key).isNone then 1 else 0 := by
  obtain ⟨next, outcome, ran, soundNext, result⟩ := add_raw_spec hash key d sound canResize val bounded
  rw [size_entries hash d sound, dictReplace, ran, Option.bind_some]
  cases outcome with
  | failed => exact result.elim
  | added =>
      obtain ⟨holds, absent⟩ := result
      have unset := (means_none d m means key).mp absent
      refine ⟨next, by simp [unset], soundNext, ?_, by simp [unset, size_entries hash next soundNext, holds.length_eq]⟩
      exact means_put d next m means key val d.entries (fun _ _ _ => Iff.rfl) absent holds
  | existing ref =>
      obtain ⟨same, old, at_⟩ := result
      have set := (means key old).mp (same.subset (entry_member next ref (key, old) at_))
      obtain ⟨others, whole, put, soundPut⟩ := set_val_spec hash next soundNext ref (key, old) at_ val
      obtain ⟨fresh, rest⟩ := key_once hash next soundNext key old others whole
      refine ⟨dictSetVal next ref val, by simp [set], soundPut, ?_, ?_⟩
      · exact means_put next (dictSetVal next ref val) m (means_same d next m means same) key val others rest fresh put
      · rw [size_entries hash _ soundPut, put.length_eq, ← same.length_eq, whole.length_eq]
        simp [set]

end Specs

inductive DictOp (K V : Type) where
  | add (key : K) (val : V)
  | replace (key : K) (val : V)
  | fetchValue (key : K)
  | delete (key : K)
  | resize
  | rehash (n : Nat)

inductive DictAnswer (V : Type) where
  | status (ok : Bool)
  | value (found : Option V)
  | internal
deriving DecidableEq, Repr

section Runs

variable {K V : Type} [DecidableEq K] (hash : K → Nat)

def dictOp (canResize : Bool) (d : Dict K V) : DictOp K V → Option (Dict K V × DictAnswer V)
  | .add key val => (dictAdd hash canResize d key val).map fun (d, ok) => (d, .status ok)
  | .replace key val => (dictReplace hash canResize d key val).map fun (d, ok) => (d, .status ok)
  | .fetchValue key => (dictFetchValue hash d key).map fun (d, found) => (d, .value found)
  | .delete key => (dictDelete hash d key).map fun (d, ok) => (d, .status ok)
  | .resize => some ((dictResize canResize d).1, .internal)
  | .rehash n => (dictRehash hash d n).map fun (d, _) => (d, .internal)

-- Resizing may be switched off and on between any two operations.
def dictRun : List (Bool × DictOp K V) → Dict K V → Option (Dict K V × List (DictAnswer V))
  | [], d => some (d, [])
  | (canResize, op) :: rest, d =>
      (dictOp hash canResize d op).bind fun (d, answer) => (dictRun rest d).map fun (d, answers) => (d, answer :: answers)

def mapOp (m : K → Option V) : DictOp K V → (K → Option V) × DictAnswer V
  | .add key val => (if (m key).isNone then update m key (some val) else m, .status (m key).isNone)
  | .replace key val => (update m key (some val), .status (m key).isNone)
  | .fetchValue key => (m, .value (m key))
  | .delete key => (update m key none, .status (m key).isSome)
  | .resize => (m, .internal)
  | .rehash _ => (m, .internal)

def mapRun : List (Bool × DictOp K V) → (K → Option V) → (K → Option V) × List (DictAnswer V)
  | [], m => (m, [])
  | (_, op) :: rest, m => ((mapRun rest (mapOp m op).1).1, (mapOp m op).2 :: (mapRun rest (mapOp m op).1).2)

theorem op_refines (canResize : Bool) (d : Dict K V) (sound : d.Sound hash) (m : K → Option V) (means : d.Means m)
    (bounded : dictSize d ≤ 2 ^ 62) (op : DictOp K V) :
    ∃ next, dictOp hash canResize d op = some (next, (mapOp m op).2) ∧ next.Sound hash ∧ next.Means (mapOp m op).1 ∧
      dictSize next ≤ dictSize d + 1 := by
  cases op with
  | add key val =>
      obtain ⟨next, ran, soundNext, meansNext, size⟩ := add_map hash d sound m means key canResize val bounded
      refine ⟨next, by rw [dictOp, ran]; rfl, soundNext, meansNext, ?_⟩
      rw [size]
      split <;> omega
  | replace key val =>
      obtain ⟨next, ran, soundNext, meansNext, size⟩ := replace_map hash d sound m means key canResize val bounded
      refine ⟨next, by rw [dictOp, ran]; rfl, soundNext, meansNext, ?_⟩
      rw [size]
      split <;> omega
  | fetchValue key =>
      obtain ⟨next, ran, soundNext, meansNext, size⟩ := fetch_value_map hash d sound m means key
      exact ⟨next, by rw [dictOp, ran]; rfl, soundNext, meansNext, by omega⟩
  | delete key =>
      obtain ⟨next, ran, soundNext, meansNext, size⟩ := delete_map hash d sound m means key
      exact ⟨next, by rw [dictOp, ran]; rfl, soundNext, meansNext, by omega⟩
  | resize =>
      have kept := resize_spec hash d sound canResize
      exact ⟨_, rfl, kept.sound, means_same d _ m means kept.entries, by rw [rearranged_size hash d sound _ kept]; omega⟩
  | rehash n =>
      obtain ⟨next, more, ran, kept, _⟩ := rehash_spec hash d sound n
      exact ⟨next, by rw [dictOp, ran]; rfl, kept.sound, means_same d next m means kept.entries,
        by rw [rearranged_size hash d sound next kept]; omega⟩

theorem run_refines (ops : List (Bool × DictOp K V)) (d : Dict K V) (sound : d.Sound hash) (m : K → Option V) (means : d.Means m)
    (bounded : dictSize d + ops.length ≤ 2 ^ 62) :
    ∃ next, dictRun hash ops d = some (next, (mapRun ops m).2) ∧ next.Sound hash ∧ next.Means (mapRun ops m).1 := by
  induction ops generalizing d m with
  | nil => exact ⟨d, rfl, sound, means⟩
  | cons first rest ih =>
      obtain ⟨canResize, op⟩ := first
      rw [length_cons] at bounded
      obtain ⟨next, ran, soundNext, meansNext, size⟩ := op_refines hash canResize d sound m means (by omega) op
      obtain ⟨last, ranRest, soundLast, meansLast⟩ := ih next soundNext (mapOp m op).1 meansNext (by omega)
      exact ⟨last, by simp only [dictRun, ran, Option.bind_some, ranRest]; rfl, soundLast, meansLast⟩

end Runs

-- A dictionary answers as the map of its keys to their values, through any
-- number of resizings and half finished rehashings. On the way no assertion
-- fails and no access misses its table.
theorem dict_refines_map {K V : Type} [DecidableEq K] (hash : K → Nat) (ops : List (Bool × DictOp K V))
    (bounded : ops.length ≤ 2 ^ 62) :
    ∃ d, dictRun hash ops dictCreate = some (d, (mapRun ops fun _ => none).2) ∧ d.Means (mapRun ops fun _ => none).1 ∧
      (d.entries.map Prod.fst).Nodup ∧ dictSize d = d.entries.length := by
  obtain ⟨d, ran, sound, means⟩ := run_refines hash ops dictCreate (create_sound hash) (fun _ => none)
    (by simp [Dict.Means, Dict.entries, DictHt.entries, dictCreate, dictReset])
      (by simpa [dictSize, dictCreate, dictReset] using bounded)
  exact ⟨d, ran, means, sound.distinct, size_entries hash d sound⟩

-- The fifth key doubles the table; the deletion finds its key in the old one.
def Reference.halfMoved : List (Bool × DictOp Nat String) :=
  [1, 2, 3, 4, 5].map (fun key => (true, .add key "x")) ++ [(true, .delete 3)]

theorem reference_dict_refines_map :
    ∃ d, dictRun id (Reference.halfMoved ++ [(true, .add 4 "y"), (true, .fetchValue 3), (true, .fetchValue 4)]) dictCreate =
      some (d, replicate 6 (.status true) ++ [.status false, .value none, .value (some "x")]) := by
  obtain ⟨d, ran, _⟩ :=
    dict_refines_map id (Reference.halfMoved ++ [(true, .add 4 "y"), (true, .fetchValue 3), (true, .fetchValue 4)]) (by decide)
  exact ⟨d, ran⟩

section Finishing

variable {K V : Type} (hash : K → Nat)

-- The clock stops it after some rounds.
def dictRehashMilliseconds : Nat → Dict K V → Option (Dict K V)
  | 0, d => (dictRehash hash d 100).map Prod.fst
  | rounds + 1, d => (dictRehash hash d 100).bind fun (d, more) => if more then dictRehashMilliseconds rounds d else some d

-- Every round takes rehashidx on, which never passes the size of the table.
theorem rounds_finish (rounds : Nat) (d : Dict K V) (sound : d.Sound hash) (index : Nat) (rehashing : d.rehashidx = some index)
    (enough : d.ht0.size ≤ index + rounds) :
    ∃ next, dictRehashMilliseconds hash rounds d = some next ∧ next.rehashidx = none ∧ next.entries ~ d.entries := by
  induction rounds generalizing d index with
  | zero =>
      obtain ⟨next, more, ran, kept, advanced⟩ := rehash_spec hash d sound 100
      refine ⟨next, by rw [dictRehashMilliseconds, ran]; rfl, ?_, kept.entries⟩
      rcases advanced (Option.isSome_iff_exists.mpr ⟨index, rehashing⟩) with stop | ⟨_, _, i, j, from_, to_, _, further, within⟩
      · exact stop.2
      · cases rehashing.symm.trans from_
        have past := further (by decide)
        omega
  | succ rounds ih =>
      obtain ⟨moved, more, ran, kept, advanced⟩ := rehash_spec hash d sound 100
      simp only [dictRehashMilliseconds, ran, Option.bind_some]
      rcases advanced (Option.isSome_iff_exists.mpr ⟨index, rehashing⟩)
        with ⟨rfl, stop⟩ | ⟨rfl, size, i, j, from_, to_, _, further, within⟩
      · exact ⟨moved, rfl, stop, kept.entries⟩
      · cases rehashing.symm.trans from_
        have past := further (by decide)
        obtain ⟨next, finished, stop, same⟩ := ih moved kept.sound j to_ (by omega)
        exact ⟨next, finished, stop, same.trans kept.entries⟩

end Finishing

-- A rehashing comes to its end, with every key where it was: as many rounds
-- as the old table has buckets are enough from wherever it stands.
theorem rehashing_finishes {K V : Type} [DecidableEq K] (hash : K → Nat) (ops : List (Bool × DictOp K V))
    (bounded : ops.length ≤ 2 ^ 62) (d : Dict K V) (answers : List (DictAnswer V))
    (reached : dictRun hash ops dictCreate = some (d, answers)) (rounds : Nat) (enough : d.ht0.size ≤ rounds) :
    ∃ next, dictRehashMilliseconds hash rounds d = some next ∧ dictIsRehashing next = false ∧
    next.Means (mapRun ops fun _ => none).1 := by
  obtain ⟨_, ran, sound, means⟩ := run_refines hash ops dictCreate (create_sound hash) (fun _ => none)
    (by simp [Dict.Means, Dict.entries, DictHt.entries, dictCreate, dictReset])
      (by simpa [dictSize, dictCreate, dictReset] using bounded)
  cases reached.symm.trans ran
  cases rehashing : d.rehashidx with
  | some index =>
      obtain ⟨next, finished, stop, same⟩ := rounds_finish hash rounds d sound index rehashing (by omega)
      exact ⟨next, finished, by simp [dictIsRehashing, stop], means_same d next _ means same⟩
  | none =>
      have still : dictIsRehashing d = false := by simp [dictIsRehashing, rehashing]
      refine ⟨d, ?_, still, means⟩
      cases rounds <;> simp [dictRehashMilliseconds, dictRehash, still]

theorem reference_rehashing_finishes :
    ∃ d answers, dictRun id Reference.halfMoved dictCreate = some (d, answers) ∧ dictIsRehashing d = true ∧
      ∃ next, dictRehashMilliseconds id 4 d = some next ∧ dictIsRehashing next = false := by
  have facts : ((dictRun id Reference.halfMoved dictCreate).any fun reached =>
      dictIsRehashing reached.1 && reached.1.ht0.size == 4) = true := by
    decide +kernel
  obtain ⟨⟨d, answers⟩, ran, shape⟩ := (Option.any_eq_true _ _).mp facts
  obtain ⟨rehashing, size⟩ := Bool.and_eq_true_iff.mp shape
  obtain ⟨next, finished, still, _⟩ :=
    rehashing_finishes id Reference.halfMoved (by decide) d answers ran 4 (Nat.le_of_eq (beq_iff_eq.mp size))
  exact ⟨d, answers, ran, rehashing, next, finished, still⟩

section Iteration

variable {K V : Type} (d : Dict K V)

-- What an iterator has still to return.
def remaining (iter : DictIterator K V) : List (K × V) :=
  iter.entry.tail ++ ((d.ht iter.second).table.drop (iter.index.elim 0 (· + 1))).flatten ++
    if dictIsRehashing d && !iter.second then d.ht1.entries else []

theorem next_chain_spec (table rest : List (List (K × V))) (index : Nat) (ahead : table.drop index = rest) :
    match nextChain rest index with
    | none => (table.drop index).flatten = []
    | some (found, chain) => (∃ entry tail, chain = entry :: tail) ∧ (table.drop index).flatten =
    chain ++ (table.drop (found + 1)).flatten := by
  induction rest generalizing index with
  | nil => simp [nextChain, ahead]
  | cons first rest ih =>
      have later : table.drop (index + 1) = rest := by
        rw [← drop_drop, ahead]
        rfl
      cases first with
      | cons entry chain => simp [nextChain, ahead, later]
      | nil =>
          have same : (table.drop index).flatten = (table.drop (index + 1)).flatten := by rw [ahead, later]; rfl
          rw [nextChain, same]
          exact ih (index + 1) later

theorem next_in_table_spec (second : Bool) (index : Nat) :
    match nextInTable d second index with
    | none => ((d.ht second).table.drop index).flatten = []
    | some next => ∃ entry tail found, next = ⟨second, some found, entry :: tail⟩ ∧
        ((d.ht second).table.drop index).flatten = entry :: tail ++ ((d.ht second).table.drop (found + 1)).flatten := by
  have spec := next_chain_spec (d.ht second).table _ index rfl
  unfold nextInTable
  cases found : nextChain ((d.ht second).table.drop index) index with
  | none => simpa [found] using spec
  | some place =>
      rw [found] at spec
      obtain ⟨⟨entry, tail, chain⟩, flat⟩ := spec
      exact ⟨entry, tail, place.1, by rw [← chain], by rw [← chain]; exact flat⟩

-- What a step of the iteration tells about what was left.
def Steps (iter : DictIterator K V) : Option (DictIterator K V) → Prop
  | none => remaining d iter = []
  | some next => ∃ entry tail, next.entry = entry :: tail ∧ remaining d iter = entry :: remaining d next

theorem next_bucket_spec (iter : DictIterator K V) (last : iter.entry.tail = []) : Steps d iter (nextBucket d iter) := by
  have here := next_in_table_spec d iter.second (iter.index.elim 0 (· + 1))
  unfold nextBucket
  cases found : nextInTable d iter.second (iter.index.elim 0 (· + 1)) with
  | some next =>
      rw [found] at here
      obtain ⟨entry, tail, place, rfl, flat⟩ := here
      refine ⟨entry, tail, rfl, ?_⟩
      simp [remaining, last, flat]
  | none =>
      rw [found] at here
      by_cases more : (dictIsRehashing d && !iter.second) = true
      · have there := next_in_table_spec d true 0
        rw [Option.none_or, if_pos more]
        cases found : nextInTable d true 0 with
        | some next =>
            rw [found] at there
            obtain ⟨entry, tail, place, rfl, flat⟩ := there
            refine ⟨entry, tail, rfl, ?_⟩
            simp only [remaining, last, here, if_pos more, DictHt.entries]
            simpa [Dict.ht] using flat
        | none =>
            rw [found] at there
            simp only [Steps, remaining, last, here, if_pos more, DictHt.entries]
            simpa [Dict.ht] using there
      · rw [Option.none_or, if_neg more]
        simp only [Steps, remaining, last, here, if_neg more]
        rfl

theorem next_spec (iter : DictIterator K V) : Steps d iter (dictNext d iter) := by
  unfold dictNext
  split
  · next first following rest chain => exact ⟨following, rest, rfl, by simp [remaining, chain]⟩
  · next short =>
      apply next_bucket_spec
      match chain : iter.entry with
      | [] => rfl
      | [_] => rfl
      | first :: following :: rest => exact absurd chain (short first following rest)

-- The loop of the callers, which stops at NULL.
def collect : Nat → DictIterator K V → Option (List (K × V))
  | 0, _ => none
  | fuel + 1, iter =>
      match dictNext d iter with
      | none => some []
      | some next => next.entry.head?.bind fun entry => (collect fuel next).map (entry :: ·)

theorem collect_spec (fuel : Nat) (iter : DictIterator K V) (enough : (remaining d iter).length < fuel) :
    collect d fuel iter = some (remaining d iter) := by
  induction fuel generalizing iter with
  | zero => exact absurd enough (Nat.not_lt_zero _)
  | succ fuel ih =>
      have steps := next_spec d iter
      unfold collect
      cases stepped : dictNext d iter with
      | none =>
          rw [stepped] at steps
          exact congrArg some steps.symm
      | some next =>
          rw [stepped] at steps
          obtain ⟨entry, tail, here, left⟩ := steps
          rw [left, length_cons] at enough
          simp only [here, head?_cons, Option.bind_some, ih next (by omega), Option.map_some, left]

end Iteration

-- An iteration returns every entry once, in the middle of a rehashing too.
theorem iterator_spec {K V : Type} (hash : K → Nat) (d : Dict K V) (sound : d.Sound hash) :
    collect d (dictSize d + 1) dictGetIterator = some d.entries := by
  have all : remaining d dictGetIterator = d.entries := by
    cases rehashing : dictIsRehashing d with
    | true => simp [remaining, dictGetIterator, Dict.entries, DictHt.entries, Dict.ht, rehashing]
    | false =>
        have second := idle_second hash d sound (by simpa [dictIsRehashing] using rehashing)
        rw [Dict.entries, second]
        simp [remaining, dictGetIterator, DictHt.entries, Dict.ht, rehashing]
  rw [← all]
  apply collect_spec
  rw [all, size_entries hash d sound]
  omega

end Redis
