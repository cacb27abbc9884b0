import Mathlib.Data.List.Perm.Basic
import PlannerBackend.Dict

set_option autoImplicit false

namespace Redis

open List

section Buckets

variable {α : Type} (table : List (List α)) (i : Nat) (chain : List α) (here : table[i]? = some chain)

include here

-- A table is one of its chains and the others.
theorem flatten_modify_perm (change : List α → List α) :
    (table.modify i change).flatten ~ change chain ++ (table.eraseIdx i).flatten := by
  induction table generalizing i with
  | nil => simp at here
  | cons first rest ih =>
      cases i with
      | zero =>
          cases here
          simp
      | succ i =>
          calc ((first :: rest).modify (i + 1) change).flatten = first ++ (rest.modify i change).flatten := by simp
            _ ~ first ++ (change chain ++ (rest.eraseIdx i).flatten) := (ih i here).append_left first
            _ ~ change chain ++ (first ++ (rest.eraseIdx i).flatten) := perm_append_comm_assoc ..
            _ = change chain ++ ((first :: rest).eraseIdx (i + 1)).flatten := rfl

theorem flatten_perm : table.flatten ~ chain ++ (table.eraseIdx i).flatten := by
  have same := flatten_modify_perm table i chain here id
  rwa [modify_id] at same

end Buckets

section Positions

variable {α : Type} (chain : List α) (position : Nat) (entry : α) (there : chain[position]? = some entry)

include there

theorem modify_at_perm (change : α → α) : chain.modify position change ~ change entry :: chain.eraseIdx position := by
  obtain ⟨inside, rfl⟩ := List.getElem?_eq_some_iff.mp there
  rw [modify_eq_take_cons_drop inside, eraseIdx_eq_take_drop_succ]
  exact perm_middle

theorem at_perm : chain ~ entry :: chain.eraseIdx position := by
  have same := modify_at_perm chain position entry there id
  rwa [modify_id] at same

end Positions

variable {K V : Type} (hash : K → Nat)

def DictHt.entries (ht : DictHt K V) : List (K × V) := ht.table.flatten

def Dict.entries (d : Dict K V) : List (K × V) := d.ht0.entries ++ d.ht1.entries

-- A table whose size is a power of two, whose count is right, and whose
-- entries stand in the buckets that their hashes select.
structure DictHt.Sound (ht : DictHt K V) : Prop where
  sized : ht.size = 0 ∨ ∃ k, ht.size = 2 ^ k
  counted : ht.used = ht.entries.length
  placed : ∀ i chain, ht.table[i]? = some chain → ∀ entry ∈ chain, hash entry.1 &&& ht.sizemask = i

def EmptyBelow (table : List (List (K × V))) (index : Nat) : Prop := ∀ i chain, i < index → table[i]? = some chain → chain = []

-- Buckets below rehashidx have been moved.
structure Moving (d : Dict K V) (index : Nat) : Prop where
  first : 0 < d.ht0.size
  second : 0 < d.ht1.size
  within : index ≤ d.ht0.size
  below : EmptyBelow d.ht0.table index

-- The second table is there exactly while the first is being moved to it.
structure Dict.Sound (d : Dict K V) : Prop where
  old : d.ht0.Sound hash
  new : d.ht1.Sound hash
  distinct : (d.entries.map Prod.fst).Nodup
  idle : d.rehashidx = none → d.ht1.size = 0
  moving : ∀ index, d.rehashidx = some index → Moving d index

theorem reset_sound : (dictReset : DictHt K V).Sound hash := by
  constructor <;> simp [dictReset, DictHt.entries, DictHt.size]

theorem create_sound : (dictCreate : Dict K V).Sound hash := by
  refine ⟨reset_sound hash, reset_sound hash, ?_, ?_, ?_⟩
    <;> simp [dictCreate, dictReset, Dict.entries, DictHt.entries, DictHt.size]

section Table

variable (ht : DictHt K V) (sound : ht.Sound hash)

include sound

theorem index_lt (h : Nat) (some_ : 0 < ht.size) : h &&& ht.sizemask < ht.size := by
  rcases sound.sized with none_ | ⟨k, size⟩
  · omega
  · rw [DictHt.sizemask, size, Nat.and_two_pow_sub_one_eq_mod]
    exact Nat.mod_lt _ (Nat.two_pow_pos k)

theorem used_zero_iff : ht.used = 0 ↔ ht.entries = [] := by
  rw [sound.counted, length_eq_zero_iff]

theorem chain_le_used (i : Nat) (chain : List (K × V)) (here : ht.table[i]? = some chain) : chain.length ≤ ht.used := by
  have lengths := (flatten_perm ht.table i chain here).length_eq
  rw [sound.counted, DictHt.entries, lengths, length_append]
  exact Nat.le_add_right ..

-- A change of one chain keeps the table sound if every entry it leaves there
-- belongs there.
theorem modify_sound (i : Nat) (chain : List (K × V)) (here : ht.table[i]? = some chain) (change : List (K × V) → List (K × V))
    (used : Nat) (belong : ∀ entry ∈ change chain, hash entry.1 &&& ht.sizemask = i)
    (count : used + chain.length = ht.used + (change chain).length) :
    (⟨ht.table.modify i change, used⟩ : DictHt K V).Sound hash := by
  have size : (⟨ht.table.modify i change, used⟩ : DictHt K V).size = ht.size := by simp [DictHt.size]
  constructor
  · rcases sound.sized with none_ | ⟨k, power⟩
    · exact .inl (size.trans none_)
    · exact .inr ⟨k, by rw [size, power]⟩
  · have after := (flatten_modify_perm ht.table i chain here change).length_eq
    have before := (flatten_perm ht.table i chain here).length_eq
    have counted := sound.counted
    simp only [DictHt.entries, length_append] at after before counted ⊢
    omega
  · intro j other there entry member
    rw [DictHt.sizemask, size, ← DictHt.sizemask]
    by_cases same : i = j
    · subst same
      rw [getElem?_modify_eq, here] at there
      cases there
      exact belong entry member
    · rw [getElem?_modify_ne _ _ same] at there
      exact sound.placed j other there entry member

theorem push_spec (entry : K × V) (some_ : 0 < ht.size) :
    ∃ next, ht.push (hash entry.1 &&& ht.sizemask) entry = some next ∧ next.Sound hash ∧ next.entries ~ entry :: ht.entries ∧
      next.size = ht.size ∧ next.used = ht.used + 1 := by
  have inside := index_lt hash ht sound (hash entry.1) some_
  obtain ⟨chain, here⟩ : ∃ chain, ht.table[hash entry.1 &&& ht.sizemask]? = some chain := ⟨_, getElem?_eq_getElem inside⟩
  refine ⟨_, if_pos inside, ?_, ?_, by simp [DictHt.size], rfl⟩
  · apply modify_sound hash ht sound _ chain here
    · intro other member
      rcases mem_cons.mp member with rfl | old
      · rfl
      · exact sound.placed _ chain here other old
    · simp
      omega
  · calc (ht.table.modify _ (entry :: ·)).flatten ~ (entry :: chain) ++ (ht.table.eraseIdx _).flatten :=
      flatten_modify_perm ht.table _ chain here _
      _ ~ entry :: ht.entries := ((flatten_perm ht.table _ chain here).symm).cons entry

end Table

-- What moving entries does to the whole: nothing.
structure Rearranged (d next : Dict K V) : Prop where
  sound : next.Sound hash
  entries : next.entries ~ d.entries

theorem rearranged_refl (d : Dict K V) (sound : d.Sound hash) : Rearranged hash d d := ⟨sound, .refl _⟩

theorem rearranged_trans (a b c : Dict K V) (first : Rearranged hash a b) (second : Rearranged hash b c) : Rearranged hash a c :=
  ⟨second.sound, second.entries.trans first.entries⟩

section Rehash

theorem move_chain_spec (chain : List (K × V)) (d : Dict K V) (new : d.ht1.Sound hash) (some_ : 0 < d.ht1.size)
    (enough : chain.length ≤ d.ht0.used) :
    ∃ next, moveChain hash chain d = some next ∧ next.ht0.table = d.ht0.table ∧ next.ht0.used + chain.length = d.ht0.used ∧
      next.ht1.Sound hash ∧ next.ht1.entries ~ chain ++ d.ht1.entries ∧ next.ht1.size = d.ht1.size := by
  induction chain generalizing d with
  | nil => exact ⟨d, rfl, rfl, rfl, new, .refl _, rfl⟩
  | cons entry rest ih =>
      obtain ⟨ht1, pushed, sound, holds, size, _⟩ := push_spec hash d.ht1 new entry some_
      have moved : moveEntry hash d entry = some { d with ht0 := { d.ht0 with used := d.ht0.used - 1 }, ht1 := ht1 } := by
        rw [moveEntry, pushed]
        rfl
      rw [length_cons] at enough
      obtain ⟨next, ran, table, used, soundNext, holdsNext, sizeNext⟩ :=
        ih { d with ht0 := { d.ht0 with used := d.ht0.used - 1 }, ht1 := ht1 } sound (size ▸ some_) (Nat.le_sub_one_of_lt enough)
      refine ⟨next, by rw [moveChain, moved]; exact ran, table, ?_, soundNext, ?_, sizeNext.trans size⟩
      · rw [length_cons]
        simp only at used
        omega
      · calc next.ht1.entries ~ rest ++ ht1.entries := holdsNext
          _ ~ rest ++ entry :: d.ht1.entries := holds.append_left rest
          _ ~ (entry :: rest) ++ d.ht1.entries := perm_middle

theorem empty_below_next (table : List (List (K × V))) (index : Nat) (below : EmptyBelow table index)
    (here : table[index]? = some []) :
    EmptyBelow table (index + 1) := by
  intro i chain low there
  rcases Nat.lt_succ_iff_lt_or_eq.mp low with lower | rfl
  · exact below i chain lower there
  · cases here.symm.trans there
    rfl

-- What the loop over the empty buckets has learned when it stops.
def Skipped (table : List (List (K × V))) (index : Nat) : Skip K V → Prop
  | .outside => ∀ bound, EmptyBelow table bound
  | .tired stop => index < stop ∧ stop ≤ table.length ∧ EmptyBelow table stop
  | .found here _ chain => index ≤ here ∧ table[here]? = some chain ∧ chain ≠ [] ∧ EmptyBelow table here

theorem skip_spec (table rest : List (List (K × V))) (index visits : Nat) (ahead : table.drop index = rest)
    (below : EmptyBelow table index) :
    Skipped table index (skipEmpty rest index visits) := by
  induction rest generalizing index visits with
  | nil =>
      intro bound i chain _ there
      have inside := (List.getElem?_eq_some_iff.mp there).1
      have short := drop_eq_nil_iff.mp ahead
      exact below i chain (by omega) there
  | cons first rest ih =>
      have here : table[index]? = some first := by
        rw [← Nat.add_zero index, ← getElem?_drop, ahead]
        rfl
      have later : table.drop (index + 1) = rest := by
        rw [← drop_drop, ahead]
        rfl
      cases first with
      | cons entry chain => exact ⟨Nat.le_refl _, here, cons_ne_nil entry chain, below⟩
      | nil =>
          have next := empty_below_next table index below here
          unfold skipEmpty
          split
          · exact ⟨Nat.lt_succ_self index, (List.getElem?_eq_some_iff.mp here).1, next⟩
          · have skipped := ih (index + 1) (visits - 1) later next
            generalize skipEmpty rest (index + 1) (visits - 1) = stopped at skipped ⊢
            cases stopped with
            | outside => exact skipped
            | tired stop => exact ⟨Nat.lt_of_succ_lt skipped.1, skipped.2⟩
            | found there left chain => exact ⟨Nat.le_of_succ_le skipped.1, skipped.2⟩

section Bucket

variable (d : Dict K V) (sound : d.Sound hash) (rehashing : dictIsRehashing d = true)

include sound rehashing

theorem rehashing_sizes : 0 < d.ht0.size ∧ 0 < d.ht1.size := by
  obtain ⟨index, here⟩ := Option.isSome_iff_exists.mp rehashing
  exact ⟨(sound.moving index here).first, (sound.moving index here).second⟩

theorem move_bucket_spec (index : Nat) (chain : List (K × V)) (here : d.ht0.table[index]? = some chain)
    (below : EmptyBelow d.ht0.table index) :
    ∃ next, moveBucket hash d index chain = some next ∧ Rearranged hash d next ∧ next.rehashidx = some (index + 1) ∧
      next.ht0.size = d.ht0.size := by
  obtain ⟨some0, some1⟩ := rehashing_sizes hash d sound rehashing
  have whole := flatten_perm d.ht0.table index chain here
  have enough := chain_le_used hash d.ht0 sound.old index chain here
  obtain ⟨moved, ran, table, used, new, holds, size⟩ := move_chain_spec hash chain d sound.new some1 enough
  have old : (⟨d.ht0.table.modify index fun _ => [], moved.ht0.used⟩ : DictHt K V).Sound hash :=
    modify_sound hash d.ht0 sound.old index chain here _ _ (by simp) (by simpa using used)
  have kept : (d.ht0.table.modify index fun _ => []).flatten ++ moved.ht1.entries ~ d.entries := by
    calc (d.ht0.table.modify index fun _ => []).flatten ++ moved.ht1.entries
        ~ (d.ht0.table.eraseIdx index).flatten ++ (chain ++ d.ht1.entries) :=
          (flatten_modify_perm d.ht0.table index chain here _).append holds
      _ ~ chain ++ ((d.ht0.table.eraseIdx index).flatten ++ d.ht1.entries) := perm_append_comm_assoc ..
      _ = (chain ++ (d.ht0.table.eraseIdx index).flatten) ++ d.ht1.entries := (append_assoc ..).symm
      _ ~ d.entries := whole.symm.append_right _
  refine ⟨⟨⟨d.ht0.table.modify index fun _ => [], moved.ht0.used⟩, moved.ht1, some (index + 1), moved.iterators⟩, ?_,
    ⟨⟨old, new, ?_, by simp, ?_⟩, kept⟩, rfl, by simp [DictHt.size]⟩
  · rw [moveBucket, ran, ← table, ← set_eq_modify]
    rfl
  · exact (kept.map Prod.fst).nodup_iff.mpr sound.distinct
  · rintro _ ⟨⟩
    refine ⟨by simpa [DictHt.size] using some0, size ▸ some1, ?_, ?_⟩
    · simpa [DictHt.size] using Nat.succ_le_of_lt (List.getElem?_eq_some_iff.mp here).1
    · intro i other low there
      by_cases same : index = i
      · subst same
        simpa [here, eq_comm] using there
      · rw [getElem?_modify_ne _ _ same] at there
        exact below i other (by omega) there

omit rehashing in
theorem finish_spec (done : d.ht0.used = 0) :
    Rearranged hash d { d with ht0 := d.ht1, ht1 := dictReset, rehashidx := none } := by
  have gone := (used_zero_iff hash d.ht0 sound.old).mp done
  have kept : d.ht1.entries ++ (dictReset : DictHt K V).entries = d.entries := by
    rw [Dict.entries, gone]
    exact append_nil _
  refine ⟨⟨sound.new, reset_sound hash, ?_, fun _ => rfl, ?_⟩, kept ▸ .refl _⟩
  · rw [Dict.entries, kept]
    exact sound.distinct
  · rintro _ ⟨⟩

omit rehashing in
theorem occupied_inside (busy : d.ht0.used ≠ 0) (index : Nat) (below : EmptyBelow d.ht0.table index) : index < d.ht0.size := by
  apply Nat.lt_of_not_le
  intro beyond
  apply busy
  rw [used_zero_iff hash d.ht0 sound.old, DictHt.entries, flatten_eq_nil_iff]
  intro chain member
  obtain ⟨i, here⟩ := getElem?_of_mem member
  exact below i chain (Nat.lt_of_lt_of_le (List.getElem?_eq_some_iff.mp here).1 beyond) here

end Bucket

-- How far a call has come: it has finished, or it has not gone back and, if
-- it may take a step at all, has gone on.
def Advanced (n : Nat) (d next : Dict K V) (more : Bool) : Prop :=
  more = false ∧ next.rehashidx = none ∨
    more = true ∧ next.ht0.size = d.ht0.size ∧ ∃ i j, d.rehashidx = some i ∧ next.rehashidx = some j ∧ i ≤ j ∧ (0 < n → i < j) ∧
      j ≤ d.ht0.size

theorem rehash_loop_spec (n visits : Nat) (d : Dict K V) (sound : d.Sound hash) (index : Nat)
    (rehashing : d.rehashidx = some index) :
    ∃ next more, rehashLoop hash n visits d = some (next, more) ∧ Rearranged hash d next ∧ Advanced n d next more := by
  induction n generalizing visits d index with
  | zero =>
      unfold rehashLoop finishRehash
      split
      · next done => exact ⟨_, _, rfl, finish_spec hash d sound done, .inl ⟨rfl, rfl⟩⟩
      · exact ⟨_, _, rfl, rearranged_refl hash d sound,
          .inr ⟨rfl, rfl, index, index, rehashing, rehashing, Nat.le_refl _, by simp, (sound.moving index rehashing).within⟩⟩
  | succ n ih =>
      unfold rehashLoop
      by_cases done : d.ht0.used = 0
      · rw [if_pos done, finishRehash, if_pos done]
        exact ⟨_, _, rfl, finish_spec hash d sound done, .inl ⟨rfl, rfl⟩⟩
      · obtain ⟨some0, some1, _, below⟩ := sound.moving index rehashing
        have skipped := skip_spec d.ht0.table _ index visits rfl below
        rw [if_neg done, rehashing]
        simp only [if_pos (occupied_inside hash d sound done index below)]
        generalize skipEmpty (d.ht0.table.drop index) index visits = stopped at skipped
        cases stopped with
        | outside => exact absurd (occupied_inside hash d sound done d.ht0.size (skipped _)) (Nat.lt_irrefl _)
        | tired stop =>
            obtain ⟨further, bound, empty⟩ := skipped
            refine ⟨_, _, rfl, ⟨⟨sound.old, sound.new, sound.distinct, by simp, ?_⟩, .refl _⟩,
              .inr ⟨rfl, rfl, index, stop, rehashing, rfl, Nat.le_of_lt further, fun _ => further, bound⟩⟩
            rintro _ ⟨⟩
            exact ⟨some0, some1, bound, empty⟩
        | found there left chain =>
            obtain ⟨further, here, _, empty⟩ := skipped
            obtain ⟨moved, ran, kept, at_, size⟩ :=
              move_bucket_spec hash d sound (Option.isSome_iff_exists.mpr ⟨_, rehashing⟩) there chain here empty
            obtain ⟨next, more, finished, then_, advanced⟩ := ih left moved kept.sound (there + 1) at_
            refine ⟨next, more, by simp only [ran, Option.bind_some]; exact finished,
              rearranged_trans hash d moved next kept then_, ?_⟩
            rcases advanced with stop | ⟨on, sizes, i, j, from_, to_, le, _, within⟩
            · exact .inl stop
            · cases at_.symm.trans from_
              exact .inr ⟨on, sizes.trans size, index, j, rehashing, to_, by omega, fun _ => by omega, size ▸ within⟩

theorem rehash_spec (d : Dict K V) (sound : d.Sound hash) (n : Nat) :
    ∃ next more, dictRehash hash d n = some (next, more) ∧ Rearranged hash d next ∧
    (dictIsRehashing d = true → Advanced n d next more) := by
  unfold dictRehash
  by_cases rehashing : dictIsRehashing d = true
  · obtain ⟨index, here⟩ := Option.isSome_iff_exists.mp rehashing
    obtain ⟨next, more, ran, kept, advanced⟩ := rehash_loop_spec hash n (n * 10) d sound index here
    exact ⟨next, more, by rw [if_pos rehashing, ran], kept, fun _ => advanced⟩
  · exact ⟨d, false, by rw [if_neg rehashing], rearranged_refl hash d sound, fun moving => absurd moving rehashing⟩

theorem rehash_step_spec (d : Dict K V) (sound : d.Sound hash) :
    ∃ next, rehashStepIfRehashing hash d = some next ∧ Rearranged hash d next := by
  unfold rehashStepIfRehashing dictRehashStep
  obtain ⟨next, more, ran, kept, _⟩ := rehash_spec hash d sound 1
  by_cases rehashing : dictIsRehashing d = true ∧ d.iterators = 0
  · exact ⟨next, by rw [if_pos rehashing.1, if_pos rehashing.2, ran]; rfl, kept⟩
  · refine ⟨d, ?_, rearranged_refl hash d sound⟩
    split
    · next moving => rw [if_neg fun none_ => rehashing ⟨moving, none_⟩]
    · rfl

end Rehash

section Chains

variable (d : Dict K V)

theorem modify_ht_at (second : Bool) (change : DictHt K V → DictHt K V) :
    d.modifyHt second change = d.modifyHt second fun _ => change (d.ht second) := by
  cases second <;> rfl

variable (sound : d.Sound hash)

include sound

theorem ht_sound (second : Bool) : (d.ht second).Sound hash := by
  cases second
  · exact sound.old
  · exact sound.new

-- A change of one chain, in either table.
theorem modify_chain_spec (second : Bool) (index : Nat) (chain : List (K × V)) (here : (d.ht second).table[index]? = some chain)
    (change : List (K × V) → List (K × V)) (used : Nat)
    (belong : ∀ entry ∈ change chain, hash entry.1 &&& (d.ht second).sizemask = index)
    (count : used + chain.length = (d.ht second).used + (change chain).length)
    (settled : second = false → ∀ i, d.rehashidx = some i → i ≤ index) :
    ∃ others, d.entries ~ chain ++ others ∧
      (d.modifyHt second fun _ => ⟨(d.ht second).table.modify index change, used⟩).entries ~ change chain ++ others ∧
      (((change chain ++ others).map Prod.fst).Nodup →
        (d.modifyHt second fun _ => ⟨(d.ht second).table.modify index change, used⟩).Sound hash) := by
  have size : ∀ ht : DictHt K V, (⟨ht.table.modify index change, used⟩ : DictHt K V).size = ht.size := by simp [DictHt.size]
  cases second with
  | false =>
      have after : (d.modifyHt false fun _ => ⟨d.ht0.table.modify index change, used⟩).entries ~
          change chain ++ ((d.ht0.table.eraseIdx index).flatten ++ d.ht1.entries) := by
        rw [← append_assoc]
        exact (flatten_modify_perm d.ht0.table index chain here change).append_right _
      refine ⟨(d.ht0.table.eraseIdx index).flatten ++ d.ht1.entries, ?_, after, ?_⟩
      · rw [← append_assoc]
        exact (flatten_perm d.ht0.table index chain here).append_right _
      · intro distinct
        refine ⟨modify_sound hash d.ht0 sound.old index chain here change used belong count, sound.new,
          (after.map Prod.fst).nodup_iff.mpr distinct, sound.idle, ?_⟩
        intro i rehashing
        obtain ⟨first, second, within, below⟩ := sound.moving i rehashing
        refine ⟨(size d.ht0).symm ▸ first, second, (size d.ht0).symm ▸ within, ?_⟩
        intro j other low there
        have reached := settled rfl i rehashing
        exact below j other low (by rwa [← getElem?_modify_ne _ _ (show index ≠ j by omega)])
  | true =>
      have after : (d.modifyHt true fun _ => ⟨d.ht1.table.modify index change, used⟩).entries ~
          change chain ++ (d.ht0.entries ++ (d.ht1.table.eraseIdx index).flatten) :=
        ((flatten_modify_perm d.ht1.table index chain here change).append_left _).trans (perm_append_comm_assoc ..)
      refine ⟨d.ht0.entries ++ (d.ht1.table.eraseIdx index).flatten, ?_, after, ?_⟩
      · exact ((flatten_perm d.ht1.table index chain here).append_left _).trans (perm_append_comm_assoc ..)
      · intro distinct
        refine ⟨sound.old, modify_sound hash d.ht1 sound.new index chain here change used belong count,
          (after.map Prod.fst).nodup_iff.mpr distinct, fun idle => (size d.ht1).trans (sound.idle idle), ?_⟩
        intro i rehashing
        obtain ⟨first, second, within, below⟩ := sound.moving i rehashing
        exact ⟨first, (size d.ht1).symm ▸ second, within, below⟩

theorem size_entries : dictSize d = d.entries.length := by
  rw [dictSize, sound.old.counted, sound.new.counted, Dict.entries, length_append]

theorem occupied_size (busy : dictSize d ≠ 0) : 0 < d.ht0.size := by
  apply Nat.pos_of_ne_zero
  intro none_
  apply busy
  have empty : ∀ ht : DictHt K V, ht.Sound hash → ht.size = 0 → ht.used = 0 := by
    intro ht soundHt none_
    rw [soundHt.counted, DictHt.entries, length_eq_zero_iff.mp none_]
    rfl
  cases rehashing : d.rehashidx with
  | some index => exact absurd none_ (Nat.pos_iff_ne_zero.mp (sound.moving index rehashing).first)
  | none => rw [dictSize, empty d.ht0 sound.old none_, empty d.ht1 sound.new (sound.idle rehashing)]

theorem rearranged_size (next : Dict K V) (kept : Rearranged hash d next) : dictSize next = dictSize d := by
  rw [size_entries hash d sound, size_entries hash next kept.sound, kept.entries.length_eq]

section Refs

variable (ref : EntryRef) (entry : K × V) (at_ : d.entryAt ref = some entry)

include at_

theorem entry_chain : ∃ chain, (d.ht ref.second).table[ref.index]? = some chain ∧ chain[ref.position]? = some entry ∧
    (∀ other ∈ chain, hash other.1 &&& (d.ht ref.second).sizemask = ref.index) ∧
    (ref.second = false → ∀ i, d.rehashidx = some i → i ≤ ref.index) := by
  obtain ⟨chain, here, there⟩ := Option.bind_eq_some_iff.mp at_
  refine ⟨chain, here, there, ?_, ?_⟩
  · exact (ht_sound hash d sound ref.second).placed ref.index chain here
  · intro first i rehashing
    rw [first] at here
    apply Nat.le_of_not_lt
    intro low
    rw [(sound.moving i rehashing).below ref.index chain low here] at there
    cases there

theorem set_val_spec (val : V) : ∃ others, d.entries ~ entry :: others ∧
    (dictSetVal d ref val).entries ~ (entry.1, val) :: others ∧
    (dictSetVal d ref val).Sound hash := by
  obtain ⟨chain, here, there, placed, settled⟩ := entry_chain hash d sound ref entry at_
  have before := at_perm chain ref.position entry there
  have after := modify_at_perm chain ref.position entry there fun entry => (entry.1, val)
  have belong : ∀ other ∈ chain.modify ref.position fun entry =>
      (entry.1, val), hash other.1 &&& (d.ht ref.second).sizemask = ref.index := by
    intro other member
    rcases mem_cons.mp (after.subset member) with rfl | old
    · exact placed entry (before.symm.subset mem_cons_self)
    · exact placed other (before.symm.subset (mem_cons_of_mem _ old))
  obtain ⟨others, whole, changed, stays⟩ := modify_chain_spec hash d sound ref.second ref.index chain here
    (fun chain => chain.modify ref.position fun entry => (entry.1, val)) (d.ht ref.second).used belong (by simp) settled
  have holds : (dictSetVal d ref val).entries ~ (entry.1, val) :: (chain.eraseIdx ref.position ++ others) := by
    rw [dictSetVal, modify_ht_at]
    exact changed.trans (after.append_right others)
  refine ⟨chain.eraseIdx ref.position ++ others, whole.trans (before.append_right others), holds, ?_⟩
  rw [dictSetVal, modify_ht_at]
  apply stays
  have keys := ((whole.trans (before.append_right others)).map Prod.fst).nodup_iff.mp sound.distinct
  exact ((after.append_right others).map Prod.fst).nodup_iff.mpr keys

theorem unlink_spec : ∃ others, d.entries ~ entry :: others ∧ (unlinkAt d ref).entries ~ others ∧
    (unlinkAt d ref).Sound hash := by
  obtain ⟨chain, here, there, placed, settled⟩ := entry_chain hash d sound ref entry at_
  have before := at_perm chain ref.position entry there
  have fewer := before.length_eq
  have used := chain_le_used hash (d.ht ref.second) (ht_sound hash d sound ref.second) ref.index chain here
  obtain ⟨others, whole, changed, stays⟩ := modify_chain_spec hash d sound ref.second ref.index chain here
    (fun chain => chain.eraseIdx ref.position) ((d.ht ref.second).used - 1)
      (fun other member => placed other (mem_of_mem_eraseIdx member))
    (by rw [length_cons] at fewer; omega) settled
  refine ⟨chain.eraseIdx ref.position ++ others, whole.trans (before.append_right others), ?_, ?_⟩
  · rw [unlinkAt, modify_ht_at]
    exact changed
  · rw [unlinkAt, modify_ht_at]
    apply stays
    have keys := ((whole.trans (before.append_right others)).map Prod.fst).nodup_iff.mp sound.distinct
    exact (nodup_cons.mp keys).2

end Refs

end Chains

section Expand

theorem next_power_from_spec (size i : Nat) (pos : 0 < i) (j : Nat) (power : i = 2 ^ j) :
    ∃ k, nextPowerFrom size i pos = 2 ^ k ∧ size ≤ 2 ^ k := by
  fun_induction nextPowerFrom size i pos generalizing j with
  | case1 i pos enough => exact ⟨j, power, power ▸ enough⟩
  | case2 i pos short ih => exact ih (j + 1) (by rw [power, Nat.pow_succ])

theorem next_power_spec (size : Nat) : ∃ k, dictNextPower size = 2 ^ k ∧ (size ≤ 2 ^ 63 → size ≤ 2 ^ k) := by
  unfold dictNextPower
  split
  · exact ⟨63, rfl, id⟩
  · obtain ⟨k, power, enough⟩ := next_power_from_spec size dictHtInitialSize (by decide) 2 rfl
    exact ⟨k, power, fun _ => enough⟩

theorem fresh_sound (k : Nat) : (⟨replicate (2 ^ k) [], 0⟩ : DictHt K V).Sound hash := by
  refine ⟨.inr ⟨k, by simp [DictHt.size]⟩, by simp [DictHt.entries], ?_⟩
  intro i chain here entry member
  obtain ⟨_, rfl⟩ := mem_replicate.mp (mem_of_getElem? here)
  cases member

variable (d : Dict K V) (sound : d.Sound hash)

include sound

theorem idle_second (still : d.rehashidx = none) : d.ht1.entries = [] := by
  rw [DictHt.entries, length_eq_zero_iff.mp (sound.idle still)]
  rfl

theorem expand_spec (size : Nat) : Rearranged hash d (dictExpand d size).1 := by
  unfold dictExpand
  by_cases refused : (dictIsRehashing d || decide (d.ht0.used > size)) = true
  · rw [if_pos refused]
    exact rearranged_refl hash d sound
  · rw [if_neg refused]
    simp only [Bool.or_eq_true, not_or, Bool.not_eq_true] at refused
    have still : d.rehashidx = none := by simpa [dictIsRehashing] using refused.1
    have empty1 := idle_second hash d sound still
    have new : ∀ n, (⟨replicate n [], 0⟩ : DictHt K V).entries = [] := by simp [DictHt.entries]
    obtain ⟨k, power, _⟩ := next_power_spec size
    have fresh : (⟨replicate (2 ^ k) [], 0⟩ : DictHt K V).Sound hash := fresh_sound hash k
    simp only [power]
    split
    · exact rearranged_refl hash d sound
    · split
      · next null =>
          have empty0 : d.ht0.entries = [] := by
            rw [DictHt.entries, isEmpty_iff.mp null]
            rfl
          have same : ({ d with ht0 := ⟨replicate (2 ^ k) [], 0⟩ } : Dict K V).entries = d.entries := by
            rw [Dict.entries, Dict.entries, new, empty0]
          refine ⟨⟨fresh, sound.new, same ▸ sound.distinct, sound.idle, ?_⟩, same ▸ .refl _⟩
          simp [still]
      · next some_ =>
          have same : ({ d with ht1 := ⟨replicate (2 ^ k) [], 0⟩, rehashidx := some 0 } : Dict K V).entries = d.entries := by
            rw [Dict.entries, Dict.entries, new, empty1]
          refine ⟨⟨sound.old, fresh, same ▸ sound.distinct, by simp, ?_⟩, same ▸ .refl _⟩
          rintro _ ⟨⟩
          refine ⟨length_pos_iff.mpr fun null => some_ (isEmpty_iff.mpr null), ?_, Nat.zero_le _, fun i chain low =>
              absurd low (Nat.not_lt_zero i)⟩
          rw [DictHt.size, length_replicate]
          exact Nat.two_pow_pos k

theorem resize_spec (canResize : Bool) : Rearranged hash d (dictResize canResize d).1 := by
  unfold dictResize
  split
  · exact rearranged_refl hash d sound
  · exact expand_spec hash d sound _

omit sound in
theorem expand_ok (size : Nat) (still : dictIsRehashing d = false) (fits : d.ht0.used ≤ size)
    (other : dictNextPower size ≠ d.ht0.size) :
    (dictExpand d size).2 = true ∧ 0 < (dictExpand d size).1.ht0.size := by
  obtain ⟨k, power, _⟩ := next_power_spec size
  unfold dictExpand
  rw [if_neg (by simp [still, fits])]
  simp only [if_neg other]
  split
  · refine ⟨rfl, ?_⟩
    rw [DictHt.size, length_replicate, power]
    exact Nat.two_pow_pos k
  · next some_ => exact ⟨rfl, length_pos_iff.mpr fun null => some_ (isEmpty_iff.mpr null)⟩

-- The table is refused its expansion only at a size that no memory holds.
theorem expand_if_needed_spec (canResize : Bool) (bounded : dictSize d ≤ 2 ^ 62) :
    (dictExpandIfNeeded canResize d).2 = true ∧ Rearranged hash d (dictExpandIfNeeded canResize d).1 ∧
      0 < (dictExpandIfNeeded canResize d).1.ht0.size := by
  unfold dictExpandIfNeeded
  by_cases rehashing : dictIsRehashing d = true
  · rw [if_pos rehashing]
    exact ⟨rfl, rearranged_refl hash d sound, (rehashing_sizes hash d sound rehashing).1⟩
  · rw [if_neg rehashing]
    have still := Bool.eq_false_iff.mpr rehashing
    split
    · next none_ =>
        have unused : d.ht0.used = 0 := by
          rw [sound.old.counted, DictHt.entries, length_eq_zero_iff.mp none_]
          rfl
        obtain ⟨k, power, _⟩ := next_power_spec dictHtInitialSize
        obtain ⟨ok, some_⟩ :=
          expand_ok d dictHtInitialSize still (unused ▸ Nat.zero_le _)
              (by rw [power, none_]; exact Nat.pos_iff_ne_zero.mp (Nat.two_pow_pos k))
        exact ⟨ok, expand_spec hash d sound _, some_⟩
    · next some_ =>
        split
        · next full =>
            simp only [Bool.and_eq_true, decide_eq_true_eq] at full
            obtain ⟨k, power, enough⟩ := next_power_spec (d.ht0.used * 2)
            have bound := enough (by rw [dictSize] at bounded; omega)
            obtain ⟨ok, positive⟩ := expand_ok d (d.ht0.used * 2) still (by omega) (by omega)
            exact ⟨ok, expand_spec hash d sound _, positive⟩
        · exact ⟨rfl, rearranged_refl hash d sound, Nat.pos_of_ne_zero some_⟩

-- A new entry goes to the second table while there is one.
theorem insert_spec (key : K) (some_ : 0 < d.ht0.size) (val : V) (absent : ∀ old, (key, old) ∉ d.entries) :
    ∃ next, ((d.ht (dictIsRehashing d)).push (hash key &&& (d.ht (dictIsRehashing d)).sizemask) (key, val)).map
        (fun ht => (d.modifyHt (dictIsRehashing d) fun _ => ht, Added.added)) = some (next, .added) ∧ next.Sound hash ∧
      next.entries ~ (key, val) :: d.entries := by
  have room : 0 < (d.ht (dictIsRehashing d)).size := by
    cases rehashing : dictIsRehashing d
    · exact some_
    · exact (rehashing_sizes hash d sound rehashing).2
  have soundHt := ht_sound hash d sound (dictIsRehashing d)
  have inside := index_lt hash (d.ht (dictIsRehashing d)) soundHt (hash key) room
  obtain ⟨chain, here⟩ : ∃ chain,
      (d.ht (dictIsRehashing d)).table[hash key &&& (d.ht (dictIsRehashing d)).sizemask]? = some chain :=
    ⟨_, getElem?_eq_getElem inside⟩
  have belong : ∀ entry ∈ (key, val) :: chain, hash entry.1 &&& (d.ht (dictIsRehashing d)).sizemask =
      hash key &&& (d.ht (dictIsRehashing d)).sizemask := by
    intro entry member
    rcases mem_cons.mp member with rfl | old
    · rfl
    · exact soundHt.placed _ chain here entry old
  have settled : dictIsRehashing d = false → ∀ i, d.rehashidx = some i →
      i ≤ hash key &&& (d.ht (dictIsRehashing d)).sizemask := by
    intro still i rehashing
    simp [dictIsRehashing, rehashing] at still
  obtain ⟨others, whole, changed, stays⟩ := modify_chain_spec hash d sound (dictIsRehashing d) _ chain here ((key, val) :: ·)
    ((d.ht (dictIsRehashing d)).used + 1) belong (by simp; omega) settled
  refine ⟨_, by rw [DictHt.push, if_pos inside]; rfl, stays ?_, changed.trans (whole.symm.cons (key, val))⟩
  have keys := (whole.map Prod.fst).nodup_iff.mp sound.distinct
  refine nodup_cons.mpr ⟨?_, keys⟩
  intro member
  obtain ⟨⟨same, old⟩, present, isKey⟩ := mem_map.mp member
  obtain rfl : same = key := isKey
  exact absent old (whole.symm.subset present)

end Expand

section Search

variable [DecidableEq K] (key : K)

-- What a search for the key tells about the dictionary.
def Located (d : Dict K V) : Option EntryRef → Prop
  | none => ∀ val, (key, val) ∉ d.entries
  | some ref => ∃ val, d.entryAt ref = some (key, val)

theorem search_ht_spec (ht : DictHt K V) (sound : ht.Sound hash) (some_ : 0 < ht.size) :
    ∃ found, searchHt hash ht key = some found ∧ (found = none → ∀ val, (key, val) ∉ ht.entries) ∧
      ∀ index position, found = some (index, position) → ∃ chain val, ht.table[index]? = some chain ∧
      chain[position]? = some (key, val) := by
  have inside := index_lt hash ht sound (hash key) some_
  obtain ⟨chain, here⟩ : ∃ chain, ht.table[hash key &&& ht.sizemask]? = some chain := ⟨_, getElem?_eq_getElem inside⟩
  refine ⟨_, by rw [searchHt, here]; rfl, ?_, ?_⟩
  · intro missing val member
    obtain ⟨other, inTable, inChain⟩ := mem_flatten.mp member
    obtain ⟨i, there⟩ := getElem?_of_mem inTable
    obtain rfl := sound.placed i other there (key, val) inChain
    cases here.symm.trans there
    simpa using findIdx?_eq_none_iff.mp (Option.map_eq_none_iff.mp missing) (key, val) inChain
  · intro index position found
    obtain ⟨_, seen, same⟩ := Option.map_eq_some_iff.mp found
    cases same
    obtain ⟨short, isKey, _⟩ := findIdx?_eq_some_iff_getElem.mp seen
    refine ⟨chain, (chain.get ⟨position, short⟩).2, here, ?_⟩
    rw [getElem?_eq_getElem short, Option.some.injEq]
    exact Prod.ext (of_decide_eq_true isKey) rfl

variable (d : Dict K V) (sound : d.Sound hash)

include sound

theorem search_spec (some_ : 0 < d.ht0.size) : ∃ found, dictSearch hash d key = some found ∧ Located key d found := by
  obtain ⟨first, ran, absent, present⟩ := search_ht_spec hash key d.ht0 sound.old some_
  unfold dictSearch
  rw [ran, Option.bind_some]
  cases first with
  | some place =>
      obtain ⟨index, position⟩ := place
      obtain ⟨chain, val, here, there⟩ := present index position rfl
      exact ⟨_, rfl, val, Option.bind_eq_some_iff.mpr ⟨chain, here, there⟩⟩
  | none =>
      have missing := absent rfl
      by_cases rehashing : dictIsRehashing d = true
      · obtain ⟨second, ran, absent, present⟩ :=
          search_ht_spec hash key d.ht1 sound.new (rehashing_sizes hash d sound rehashing).2
        simp only [if_pos rehashing, ran]
        refine ⟨_, rfl, ?_⟩
        cases second with
        | none => exact fun val member => (mem_append.mp member).elim (missing val) (absent rfl val)
        | some place =>
            obtain ⟨index, position⟩ := place
            obtain ⟨chain, val, here, there⟩ := present index position rfl
            exact ⟨val, Option.bind_eq_some_iff.mpr ⟨chain, here, there⟩⟩
      · simp only [if_neg rehashing]
        refine ⟨_, rfl, fun val member => (mem_append.mp member).elim (missing val) ?_⟩
        have none_ := sound.idle (by simpa [dictIsRehashing] using rehashing)
        rw [DictHt.entries, length_eq_zero_iff.mp none_]
        exact not_mem_nil

theorem find_spec : ∃ next found, dictFind hash d key = some (next, found) ∧ Rearranged hash d next ∧ Located key next found := by
  unfold dictFind
  by_cases empty : d.ht0.used + d.ht1.used = 0
  · refine ⟨d, none, if_pos empty, rearranged_refl hash d sound, ?_⟩
    have none_ := length_eq_zero_iff.mp ((size_entries hash d sound).symm.trans empty)
    simp [Located, none_]
  · obtain ⟨next, stepped, kept⟩ := rehash_step_spec hash d sound
    have some_ := occupied_size hash next kept.sound (rearranged_size hash d sound next kept ▸ empty)
    obtain ⟨found, searched, located⟩ := search_spec hash key next kept.sound some_
    exact ⟨next, found, by rw [if_neg empty, stepped, Option.bind_some, searched]; rfl, kept, located⟩

theorem delete_spec : ∃ next removed, dictGenericDelete hash d key = some (next, removed) ∧ next.Sound hash ∧
    match removed with
    | none => next.entries ~ d.entries ∧ ∀ val, (key, val) ∉ d.entries
    | some entry => entry.1 = key ∧ d.entries ~ entry :: next.entries := by
  unfold dictGenericDelete
  by_cases empty : (d.ht0.used = 0 && d.ht1.used = 0) = true
  · have none_ : d.entries = [] := by
      have size := size_entries hash d sound
      simp only [Bool.and_eq_true, decide_eq_true_eq] at empty
      rw [dictSize, empty.1, empty.2] at size
      exact length_eq_zero_iff.mp size.symm
    exact ⟨d, none, if_pos empty, sound, .refl _, by simp [none_]⟩
  · obtain ⟨moved, stepped, kept⟩ := rehash_step_spec hash d sound
    have busy : dictSize d ≠ 0 := by
      simp only [Bool.and_eq_true, decide_eq_true_eq] at empty
      rw [dictSize]
      omega
    have some_ := occupied_size hash moved kept.sound (rearranged_size hash d sound moved kept ▸ busy)
    obtain ⟨found, searched, located⟩ := search_spec hash key moved kept.sound some_
    rw [if_neg empty, stepped, Option.bind_some, searched]
    cases found with
    | none => exact ⟨moved, none, rfl, kept.sound, kept.entries, fun val member => located val (kept.entries.symm.subset member)⟩
    | some ref =>
        obtain ⟨val, at_⟩ := located
        obtain ⟨others, whole, holds, soundNext⟩ := unlink_spec hash moved kept.sound ref (key, val) at_
        refine ⟨_, _, rfl, soundNext, ?_⟩
        rw [at_]
        exact ⟨rfl, (kept.entries.symm.trans whole).trans (holds.symm.cons (key, val))⟩

theorem add_raw_spec (canResize : Bool) (val : V) (bounded : dictSize d ≤ 2 ^ 62) :
    ∃ next outcome, dictAddRaw hash canResize d key val = some (next, outcome) ∧ next.Sound hash ∧
      match outcome with
      | .added => next.entries ~ (key, val) :: d.entries ∧ ∀ old, (key, old) ∉ d.entries
      | .existing ref => next.entries ~ d.entries ∧ ∃ old, next.entryAt ref = some (key, old)
      | .failed => False := by
  obtain ⟨moved, stepped, kept⟩ := rehash_step_spec hash d sound
  obtain ⟨ok, grown, some_⟩ :=
    expand_if_needed_spec hash moved kept.sound canResize (rearranged_size hash d sound moved kept ▸ bounded)
  have same := rearranged_trans hash d moved _ kept grown
  obtain ⟨found, searched, located⟩ := search_spec hash key _ grown.sound some_
  unfold dictAddRaw dictKeyIndex
  rw [stepped, Option.bind_some]
  simp only [if_pos ok, searched, Option.map_some, Option.bind_some]
  generalize (dictExpandIfNeeded canResize moved).1 = big at same some_ located
  cases found with
  | some ref => exact ⟨big, .existing ref, rfl, same.sound, same.entries, located⟩
  | none =>
      obtain ⟨next, pushed, soundNext, holds⟩ := insert_spec hash big same.sound key some_ val located
      refine ⟨next, .added, by simp only [pushed], soundNext, holds.trans (same.entries.cons (key, val)), ?_⟩
      exact fun old member => located old (same.entries.symm.subset member)

end Search

end Redis
