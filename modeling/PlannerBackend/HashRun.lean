import PlannerBackend.HashFields

set_option autoImplicit false

namespace Redis

open Memory Function

-- The pairs that a ziplist may hold for a hash of at most n fields.
structure Compact (limits : HashLimits) (n : Nat) (m : Sds → Option Sds) (pairs : List (Sds × Sds)) : Prop where
  listing : Listing pairs m
  short : Short limits pairs
  few : pairs.length ≤ limits.maxEntries
  size : pairs.length ≤ n

-- The map that a hash of at most n fields is for, in either encoding.
def HashObject.Means (limits : HashLimits) (hash : Sds → Nat) (n : Nat) (m : Sds → Option Sds) : HashObject → Prop
  | .ziplist zl => ∃ pairs, Pairs zl pairs ∧ Compact limits n m pairs
  | .ht d => d.Sound hash ∧ d.Means m ∧ dictSize d ≤ n

-- A ziplist takes short strings only.
def HashObject.Takes (limits : HashLimits) (pairs : List (Sds × Sds)) : HashObject → Prop
  | .ziplist _ => Short limits pairs
  | .ht _ => True

section Dicts

variable (hash : Sds → Nat) (d : Dict Sds Sds) (sound : d.Sound hash) (m : Sds → Option Sds) (means : d.Means m)

include sound means

theorem dict_listing : Listing d.entries m := ⟨sound.distinct, means⟩

theorem set_in_dict (limits : HashLimits) (stale : Nat → UInt8) (canResize : Bool) (field value : Sds)
    (bounded : dictSize d ≤ 2 ^ 62) :
    ∃ next, hashTypeSet limits hash stale canResize (.ht d) field value = some (.ht next, (m field).isSome) ∧ next.Sound hash ∧
      next.Means (update m field (some value)) ∧ dictSize next ≤ dictSize d + 1 := by
  obtain ⟨moved, found, ran, kept, located⟩ := find_spec hash field d sound
  have same := means_same d moved m means kept.entries
  have size := rearranged_size hash d sound moved kept
  cases found with
  | none =>
      have unset := (means_none moved m same field).mp located
      obtain ⟨next, added, soundNext, meansNext, sizeNext⟩ :=
        add_map hash moved kept.sound m same field canResize value (by omega)
      simp only [unset, Option.isNone_none, if_true] at added meansNext sizeNext
      refine ⟨next, ?_, soundNext, meansNext, by omega⟩
      simp [hashTypeSet, ran, added, unset]
  | some ref =>
      obtain ⟨old, at_⟩ := located
      have set := (same field old).mp (entry_member moved ref (field, old) at_)
      obtain ⟨others, whole, put, soundPut⟩ := set_val_spec hash moved kept.sound ref (field, old) at_ value
      have listing := listing_put (dict_listing hash moved kept.sound m same) field old value whole put
      refine ⟨dictSetVal moved ref value, by simp [hashTypeSet, ran, set], soundPut, listing.2, ?_⟩
      rw [size_entries hash _ soundPut, put.length_eq, ← size, size_entries hash moved kept.sound, whole.length_eq]
      simp

theorem delete_from_dict (stale : Nat → UInt8) (canResize : Bool) (field : Sds) :
    ∃ next, hashTypeDelete hash stale canResize (.ht d) field = some (.ht next, (m field).isSome) ∧ next.Sound hash ∧
      next.Means (update m field none) ∧ dictSize next ≤ dictSize d := by
  obtain ⟨next, ran, soundNext, meansNext, size⟩ := delete_map hash d sound m means field
  have kept := resize_spec hash next soundNext canResize
  have sizeKept := rearranged_size hash next soundNext _ kept
  have deleted : hashTypeDelete hash stale canResize (.ht d) field =
      some (.ht (if (m field).isSome && htNeedsResize next then (dictResize canResize next).1 else next), (m field).isSome) := by
    simp [hashTypeDelete, ran]
  rw [deleted]
  split
  · exact ⟨_, rfl, kept.sound, means_same next _ _ meansNext kept.entries, by omega⟩
  · exact ⟨next, rfl, soundNext, meansNext, by omega⟩

omit means in
theorem all_pairs_dict : allPairs (.ht d) = some (d.entries.map fun entry => (.str entry.1, .str entry.2)) := by
  have loop (fuel : Nat) (di : DictIterator Sds Sds) :
      eachPair (.ht d) fuel (.ht di) = (collect d fuel di).map fun entries => entries.map fun entry =>
          (ZipValue.str entry.1, ZipValue.str entry.2) := by
    induction fuel generalizing di with
    | zero => rfl
    | succ fuel ih =>
        simp only [eachPair, hashTypeNext, collect, Option.bind_eq_bind, Option.bind_some]
        cases dictNext d di with
        | none => rfl
        | some next =>
            cases entry : next.entry.head? with
            | none => simp [hashTypeCurrentObject, entry]
            | some pair =>
                simp only [Option.map_some, hashTypeCurrentObject, entry, ih, Option.bind_some]
                cases collect d fuel next with
                | none => rfl
                | some entries => rfl
  rw [allPairs, HashObject.fuel, hashTypeInitIterator, loop, iterator_spec hash d sound]
  rfl

end Dicts

theorem means_le (limits : HashLimits) (hash : Sds → Nat) (n k : Nat) (m : Sds → Option Sds) (o : HashObject)
    (means : o.Means limits hash n m) (le : n ≤ k) : o.Means limits hash k m := by
  cases o with
  | ziplist zl =>
      obtain ⟨pairs, holds, compact⟩ := means
      exact ⟨pairs, holds, compact.listing, compact.short, compact.few, Nat.le_trans compact.size le⟩
  | ht d => exact ⟨means.1, means.2.1, Nat.le_trans means.2.2 le⟩

section Objects

variable (limits : HashLimits) (hash : Sds → Nat) (stale : Nat → UInt8) (canResize : Bool) (n : Nat) (m : Sds → Option Sds)
  (o : HashObject) (means : o.Means limits hash n m)

include means

theorem length_means : ∃ next list, hashTypeLength o = some (next, list.length) ∧ next.Means limits hash n m ∧ Listing list m ∧
    list.length ≤ n := by
  cases o with
  | ziplist zl =>
      obtain ⟨pairs, holds, compact⟩ := means
      obtain ⟨next, counted, holdsNext⟩ := ziplist_pairs_length zl pairs holds
      exact ⟨.ziplist next, pairs, counted, ⟨pairs, holdsNext, compact⟩, compact.listing, compact.size⟩
  | ht d =>
      obtain ⟨sound, meansDict, size⟩ := means
      have length := size_entries hash d sound
      exact ⟨.ht d, d.entries,
        by rw [hashTypeLength, length], ⟨sound, meansDict, size⟩, dict_listing hash d sound m meansDict, by omega⟩

theorem get_means (field : Sds) : ∃ next value, hashTypeGetValue hash o field = some (next, value) ∧ next.Means limits hash n m ∧
    (value = (m field).map valueOf ∨ value = (m field).map .str) := by
  cases o with
  | ziplist zl =>
      obtain ⟨pairs, holds, compact⟩ := means
      refine ⟨.ziplist zl, _, ?_, ⟨pairs, holds, compact⟩, .inl rfl⟩
      rw [hashTypeGetValue, get_from_ziplist zl pairs holds m compact.listing]
      rfl
  | ht d =>
      obtain ⟨sound, meansDict, size⟩ := means
      obtain ⟨next, fetched, soundNext, meansNext, sizeNext⟩ := fetch_value_map hash d sound m meansDict field
      have got : hashTypeGetFromHashTable hash d field = some (next, m field) := by
        rw [← fetched, hashTypeGetFromHashTable, dictFetchValue]
        cases dictFind hash d field <;> rfl
      refine ⟨.ht next, _, ?_, ⟨soundNext, meansNext, by omega⟩, .inr rfl⟩
      rw [hashTypeGetValue, got]
      rfl

variable (fit : limits.Fit)

include fit

theorem delete_means (field : Sds) : ∃ next, hashTypeDelete hash stale canResize o field = some (next, (m field).isSome) ∧
    next.Means limits hash n (update m field none) := by
  cases o with
  | ziplist zl =>
      obtain ⟨pairs, holds, compact⟩ := means
      obtain ⟨next, after, deleted, holdsNext, listing, short, fewer⟩ :=
        delete_from_ziplist zl pairs holds m compact.listing limits fit compact.short compact.few stale hash canResize field
      have few := compact.few
      have size := compact.size
      exact ⟨.ziplist next, deleted, after, holdsNext, listing, short, by omega, by omega⟩
  | ht d =>
      obtain ⟨sound, meansDict, size⟩ := means
      obtain ⟨next, deleted, soundNext, meansNext, fewer⟩ := delete_from_dict hash d sound m meansDict stale canResize field
      exact ⟨.ht next, deleted, soundNext, meansNext, by omega⟩

variable (bounded : n < 2 ^ 62)

include bounded

-- The pair may be the one that is too many for a ziplist.
theorem set_means (field value : Sds) (takes : o.Takes limits [(field, value)]) :
    ∃ next, hashTypeSet limits hash stale canResize o field value = some (next, (m field).isSome) ∧
      next.Means limits hash (n + 1) (update m field (some value)) ∧ ∀ rest, o.Takes limits rest → next.Takes limits rest := by
  cases o with
  | ziplist zl =>
      obtain ⟨pairs, holds, compact⟩ := means
      obtain ⟨shortField, shortValue⟩ := takes (field, value) List.mem_cons_self
      obtain ⟨next, after, ran, holdsAfter, listing, short, longer⟩ :=
        set_in_ziplist zl pairs holds m compact.listing limits fit compact.short compact.few stale field value
          shortField shortValue
      obtain ⟨counted, length, holdsCounted⟩ := ziplist_pairs_length next after holdsAfter
      have size := compact.size
      by_cases many : after.length > limits.maxEntries
      · obtain ⟨d, converted, sound, meansDict, sizeDict⟩ :=
          convert_ziplist hash canResize counted after holdsCounted _ listing (by omega)
        refine ⟨.ht d, ?_, ⟨sound, meansDict, by omega⟩, fun _ _ => trivial⟩
        simp [hashTypeSet, ran, length, many, converted]
      · refine ⟨.ziplist counted, ?_, ⟨after, holdsCounted, listing, short, by omega, by omega⟩, fun _ shortRest => shortRest⟩
        simp [hashTypeSet, ran, length, many]
  | ht d =>
      obtain ⟨sound, meansDict, size⟩ := means
      obtain ⟨next, ran, soundNext, meansNext, sizeNext⟩ :=
        set_in_dict hash d sound m meansDict limits stale canResize field value (by omega)
      exact ⟨.ht next, ran, ⟨soundNext, meansNext, by omega⟩, fun _ _ => trivial⟩

omit fit in
theorem try_conversion_means (pairs : List (Sds × Sds)) :
    ∃ next, hashTypeTryConversion limits hash canResize o (flat pairs) = some next ∧ next.Means limits hash n m ∧
    next.Takes limits pairs := by
  cases o with
  | ziplist zl =>
      obtain ⟨held, holds, compact⟩ := means
      rw [hashTypeTryConversion]
      split
      case isTrue long =>
        have size := compact.size
        obtain ⟨d, converted, sound, meansDict, sizeDict⟩ :=
          convert_ziplist hash canResize zl held holds m compact.listing (by omega)
        exact ⟨.ht d, converted, ⟨sound, meansDict, by omega⟩, trivial⟩
      case isFalse short =>
        refine ⟨.ziplist zl, rfl, ⟨held, holds, compact⟩, ?_⟩
        intro pair member
        have all (arg : Sds) (mem : arg ∈ [pair.1, pair.2]) : arg.length ≤ limits.maxValue := by
          by_contra long
          exact short (List.any_eq_true.mpr ⟨arg, List.mem_flatMap.mpr ⟨pair, member, mem⟩, by simpa using long⟩)
        exact ⟨all pair.1 (by simp), all pair.2 (by simp)⟩
  | ht d => exact ⟨.ht d, rfl, means, trivial⟩

end Objects

-- The map after the pairs are put in one after the other, and how many of
-- their fields were new.
def putPairs : List (Sds × Sds) → (Sds → Option Sds) → (Sds → Option Sds) × Nat
  | [], m => (m, 0)
  | (field, value) :: rest, m =>
      ((putPairs rest (update m field (some value))).1, (putPairs rest (update m field (some value))).2 + (m field).isNone.toNat)

-- The map without the fields, and how many of them it had.
def dropFields : List Sds → (Sds → Option Sds) → (Sds → Option Sds) × Nat
  | [], m => (m, 0)
  | field :: rest, m =>
      ((dropFields rest (update m field none)).1, (dropFields rest (update m field none)).2 + (m field).isSome.toNat)

def mapAfter (m : Sds → Option Sds) : HashCommand → Sds → Option Sds
  | .hset pairs | .hmset pairs => (putPairs pairs m).1
  | .hdel fields => (dropFields fields m).1
  | _ => m

-- What a map answers. HGETALL gives its pairs in some order.
def Answers (m : Sds → Option Sds) : HashCommand → HashReply → Prop
  | .hset pairs, .integer n => n = (putPairs pairs m).2
  | .hmset _, .ok => True
  | .hdel fields, .integer n => n = (dropFields fields m).2
  | .hget field, .bulk value => value = m field
  | .hexists field, .integer n => n = (m field).isSome.toNat
  | .hlen, .integer n => ∃ list, Listing list m ∧ n = list.length
  | .hgetall, .pairs list => Listing list m
  | _, _ => False

def RunAnswers : (Sds → Option Sds) → List HashCommand → List HashReply → Prop
  | _, [], [] => True
  | m, command :: commands, reply :: replies => Answers m command reply ∧ RunAnswers (mapAfter m command) commands replies
  | _, _, _ => False

def HashCommand.puts : HashCommand → Nat
  | .hset pairs | .hmset pairs => pairs.length
  | _ => 0

def putBy : List HashEvent → Nat
  | [] => 0
  | event :: rest => event.command.puts + putBy rest

-- A key that is not there is an empty hash.
def KeyMeans (limits : HashLimits) (hash : Sds → Nat) (n : Nat) (m : Sds → Option Sds) (key : Option HashObject) : Prop :=
  key.elim (m = fun _ => none) (HashObject.Means limits hash n m)

theorem key_means_le (limits : HashLimits) (hash : Sds → Nat) (n k : Nat) (m : Sds → Option Sds) (key : Option HashObject)
    (means : KeyMeans limits hash n m key) (le : n ≤ k) : KeyMeans limits hash k m key := by
  cases key with
  | none => exact means
  | some o => exact means_le limits hash n k m o means le

theorem listing_nil (m : Sds → Option Sds) (listing : Listing [] m) : m = fun _ => none :=
  funext fun field => listing_unset listing field fun _ => List.not_mem_nil

theorem nothing_listed : Listing [] (fun _ => none : Sds → Option Sds) := ⟨List.nodup_nil, by simp⟩

theorem create_means (limits : HashLimits) (hash : Sds → Nat) (n : Nat) : createHashObject.Means limits hash n fun _ => none :=
  ⟨[], ⟨[], new_lists, rfl⟩, nothing_listed, by simp [Short], Nat.zero_le _, Nat.zero_le _⟩

theorem drop_fields_nothing (fields : List Sds) : dropFields fields (fun _ => none) = (fun _ => none, 0) := by
  induction fields with
  | nil => rfl
  | cons field fields ih =>
      have same : update (fun _ => none : Sds → Option Sds) field none = fun _ => none := update_eq_self field _
      rw [dropFields, same, ih]
      rfl

section Commands

variable (limits : HashLimits) (hash : Sds → Nat) (stale : Nat → UInt8) (canResize : Bool) (fit : limits.Fit)

include fit

theorem set_pairs_means (pairs : List (Sds × Sds)) (o : HashObject) (n : Nat) (m : Sds → Option Sds)
    (means : o.Means limits hash n m) (takes : o.Takes limits pairs) (bounded : n + pairs.length ≤ 2 ^ 62) (created : Nat) :
    ∃ next, setPairs limits hash stale canResize pairs o created = some (next, created + (putPairs pairs m).2) ∧
      next.Means limits hash (n + pairs.length) (putPairs pairs m).1 := by
  induction pairs generalizing o n m created with
  | nil => exact ⟨o, rfl, means⟩
  | cons pair pairs ih =>
      obtain ⟨field, value⟩ := pair
      rw [List.length_cons] at bounded
      have takesFirst : o.Takes limits [(field, value)] := by
        cases o with
        | ziplist zl => exact fun pair member => takes pair (List.mem_cons.mpr (.inl (List.mem_singleton.mp member)))
        | ht d => trivial
      have takesRest : o.Takes limits pairs := by
        cases o with
        | ziplist zl => exact fun pair member => takes pair (List.mem_cons_of_mem _ member)
        | ht d => trivial
      obtain ⟨once, ran, meansOnce, keeps⟩ :=
        set_means limits hash stale canResize n m o means fit (by omega) field value takesFirst
      obtain ⟨next, ranRest, meansNext⟩ :=
          ih once (n + 1) _ meansOnce (keeps pairs takesRest) (by omega) (created + (m field).isNone.toNat)
      refine ⟨next, ?_, by rw [List.length_cons]; exact means_le limits hash _ _ _ next meansNext (by omega)⟩
      have count : (created + if (m field).isSome then 0 else 1) = created + (m field).isNone.toNat := by cases m field <;> rfl
      simp only [setPairs, ran, Option.bind_eq_bind, Option.bind_some, count, ranRest, putPairs]
      congr 2
      omega

theorem delete_fields_means (fields : List Sds) (o : HashObject) (n : Nat) (m : Sds → Option Sds)
    (means : o.Means limits hash n m) (deleted : Nat) :
    ∃ key, deleteFields hash stale canResize fields o deleted = some (key, deleted + (dropFields fields m).2) ∧
      KeyMeans limits hash n (dropFields fields m).1 key := by
  induction fields generalizing o m deleted with
  | nil => exact ⟨some o, rfl, means⟩
  | cons field fields ih =>
      obtain ⟨once, ran, meansOnce⟩ := delete_means limits hash stale canResize n m o means fit field
      cases set : m field with
      | none =>
          rw [set] at ran
          obtain ⟨key, ranRest, meansKey⟩ := ih once _ meansOnce deleted
          refine ⟨key, ?_, meansKey⟩
          simp [deleteFields, ran, ranRest, dropFields, set]
      | some old =>
          rw [set] at ran
          obtain ⟨counted, list, length, meansCounted, listing, _⟩ := length_means limits hash n _ once meansOnce
          by_cases empty : list.length = 0
          · have nothing := listing_nil _ (List.length_eq_zero_iff.mp empty ▸ listing)
            refine ⟨none, ?_, ?_⟩
            · simp [deleteFields, ran, length, empty, dropFields, set, nothing, drop_fields_nothing]
            · rw [dropFields, nothing, drop_fields_nothing]
              rfl
          · obtain ⟨key, ranRest, meansKey⟩ := ih counted _ meansCounted (deleted + 1)
            refine ⟨key, ?_, meansKey⟩
            simp only [deleteFields, ran, Option.bind_eq_bind, Option.bind_some, Option.isSome_some, if_true, length,
              if_neg empty, ranRest, dropFields, set, Bool.toNat_true]
            congr 2
            omega

end Commands

-- Whichever way a string is stored, the reply is the string.
theorem reply_bulk (buf : Block) (room : 21 ≤ buf.length) (s : Sds) (value : ZipValue)
    (stored : value = valueOf s ∨ value = .str s) :
    replyBulk buf value = some s := by
  rcases stored with rfl | rfl
  · rw [valueOf]
    cases tried : zipTryEncoding s with
    | none => rfl
    | some found =>
        obtain ⟨read, _⟩ := try_encoding_codes s found.1 found.2 tried
        obtain ⟨rfl, low, high⟩ := (string2ll_iff s found.1).mp read
        have short := text_short found.1 low high
        rw [replyBulk, ll2string_spec buf found.1 (by omega)]
        exact congrArg some List.take_left
  · rfl

theorem reply_pairs (buf : Block) (room : 21 ≤ buf.length) (list : List (Sds × Sds)) (store : Sds → ZipValue)
    (stored : ∀ s, store s = valueOf s ∨ store s = .str s) :
    replyPairs buf (list.map fun pair => (store pair.1, store pair.2)) = some list := by
  induction list with
  | nil => rfl
  | cons pair list ih =>
      simp [replyPairs, reply_bulk buf room _ _ (stored pair.1), reply_bulk buf room _ _ (stored pair.2), ih]

theorem all_pairs_means (limits : HashLimits) (hash : Sds → Nat) (n : Nat) (m : Sds → Option Sds) (o : HashObject)
    (means : o.Means limits hash n m) :
    ∃ (list : List (Sds × Sds)) (store : Sds → ZipValue), allPairs o = some (list.map fun pair => (store pair.1, store pair.2)) ∧
      (∀ s, store s = valueOf s ∨ store s = .str s) ∧ Listing list m := by
  cases o with
  | ziplist zl =>
      obtain ⟨pairs, holds, compact⟩ := means
      exact ⟨pairs, valueOf, all_pairs_ziplist zl pairs holds, fun _ => .inl rfl, compact.listing⟩
  | ht d =>
      obtain ⟨sound, meansDict, _⟩ := means
      exact ⟨d.entries, .str, all_pairs_dict hash d sound, fun _ => .inr rfl, dict_listing hash d sound m meansDict⟩

theorem reply_buffer_length (stale : Nat → UInt8) : 21 ≤ (replyBuffer stale).length := by simp [replyBuffer]

theorem listings_perm (l r : List (Sds × Sds)) (m : Sds → Option Sds) (left : Listing l m) (right : Listing r m) : l.Perm r := by
  have once (pairs : List (Sds × Sds)) (listing : Listing pairs m) : pairs.Nodup :=
    List.Pairwise.of_map Prod.fst (fun _ _ different same => different (congrArg Prod.fst same)) listing.1
  refine (List.perm_ext_iff_of_nodup (once l left) (once r right)).mpr ?_
  rintro ⟨key, val⟩
  rw [left.2, right.2]

section Key

variable (limits : HashLimits) (hash : Sds → Nat) (stale : Nat → UInt8) (canResize : Bool) (n : Nat) (m : Sds → Option Sds)
  (key : Option HashObject) (means : KeyMeans limits hash n m key)

include means

theorem hset_means (fit : limits.Fit) (pairs : List (Sds × Sds)) (bounded : n + pairs.length < 2 ^ 30) :
    ∃ next, hsetCommand limits hash stale canResize key pairs = some (some next, (putPairs pairs m).2) ∧
      next.Means limits hash (n + pairs.length) (putPairs pairs m).1 := by
  have opened : (key.getD createHashObject).Means limits hash n m := by
    cases key with
    | none => exact means ▸ create_means limits hash n
    | some o => exact means
  obtain ⟨tried, converted, meansTried, takes⟩ := try_conversion_means limits hash canResize n m _ opened (by omega) pairs
  obtain ⟨next, ran, meansNext⟩ := set_pairs_means limits hash stale canResize fit pairs tried n m meansTried takes (by omega) 0
  refine ⟨next, ?_, meansNext⟩
  rw [Nat.zero_add] at ran
  rw [hsetCommand, show (pairs.flatMap fun pair => [pair.1, pair.2]) = flat pairs from rfl, converted]
  simp [ran]

theorem hdel_means (fit : limits.Fit) (fields : List Sds) :
    ∃ next, hdelCommand hash stale canResize key fields = some (next, (dropFields fields m).2) ∧
      KeyMeans limits hash n (dropFields fields m).1 next := by
  cases key with
  | none =>
      obtain rfl : m = fun _ => none := means
      rw [drop_fields_nothing]
      exact ⟨none, rfl, rfl⟩
  | some o =>
      obtain ⟨next, ran, meansNext⟩ := delete_fields_means limits hash stale canResize fit fields o n m means 0
      refine ⟨next, ?_, meansNext⟩
      rw [Nat.zero_add] at ran
      rw [hdelCommand, Option.elim_some, ran]

theorem hget_means (field : Sds) :
    ∃ next, hgetCommand hash stale key field = some (next, m field) ∧ KeyMeans limits hash n m next := by
  cases key with
  | none =>
      obtain rfl : m = fun _ => none := means
      exact ⟨none, rfl, rfl⟩
  | some o =>
      obtain ⟨next, value, got, meansNext, stored⟩ := get_means limits hash n m o means field
      refine ⟨some next, ?_, meansNext⟩
      cases present : m field with
      | none =>
          obtain rfl : value = none := by simpa [present] using stored
          simp [hgetCommand, got]
      | some s =>
          obtain ⟨zip, rfl, way⟩ : ∃ zip, value = some zip ∧ (zip = valueOf s ∨ zip = .str s) := by
            rcases stored with rfl | rfl
            · exact ⟨_, by rw [present]; rfl, .inl rfl⟩
            · exact ⟨_, by rw [present]; rfl, .inr rfl⟩
          simp [hgetCommand, got, reply_bulk _ (reply_buffer_length stale) s zip way]

theorem hexists_means (field : Sds) :
    ∃ next, hexistsCommand hash key field = some (next, (m field).isSome) ∧ KeyMeans limits hash n m next := by
  cases key with
  | none =>
      obtain rfl : m = fun _ => none := means
      exact ⟨none, rfl, rfl⟩
  | some o =>
      obtain ⟨next, value, got, meansNext, stored⟩ := get_means limits hash n m o means field
      have found : value.isSome = (m field).isSome := by
        rcases stored with rfl | rfl
        · exact Option.isSome_map
        · exact Option.isSome_map
      exact ⟨some next, by simp [hexistsCommand, hashTypeExists, got, found], meansNext⟩

theorem hlen_means :
    ∃ next list, hlenCommand key = some (next, list.length) ∧ KeyMeans limits hash n m next ∧ Listing list m := by
  cases key with
  | none =>
      obtain rfl : m = fun _ => none := means
      exact ⟨none, [], rfl, rfl, nothing_listed⟩
  | some o =>
      obtain ⟨next, list, length, meansNext, listing, _⟩ := length_means limits hash n m o means
      exact ⟨some next, list, by simp [hlenCommand, length], meansNext, listing⟩

-- As many strings as are announced follow while they can be counted.
theorem hgetall_means (bounded : n < 2 ^ 30) :
    ∃ next list, hgetallCommand stale key = some (next, list) ∧ KeyMeans limits hash n m next ∧ Listing list m := by
  cases key with
  | none =>
      obtain rfl : m = fun _ => none := means
      exact ⟨none, [], rfl, rfl, nothing_listed⟩
  | some o =>
      obtain ⟨next, counted, length, meansNext, listingCounted, fewer⟩ := length_means limits hash n m o means
      obtain ⟨list, store, all, stored, listing⟩ := all_pairs_means limits hash n m next meansNext
      have same := (listings_perm list counted m listing listingCounted).length_eq
      have asserted : 2 * list.length ≤ intMax ∧ Int.bmod (2 * counted.length : Nat) (2 ^ 32) = 2 * list.length := by
        rw [intMax, Int.bmod]
        omega
      refine ⟨some next, list, ?_, meansNext, listing⟩
      simp only [hgetallCommand, Option.elim_some, length, all, Option.bind_eq_bind, Option.bind_some,
        reply_pairs _ (reply_buffer_length stale) list store stored, if_pos asserted]
      rfl

end Key

section Runs

variable (limits : HashLimits) (hash : Sds → Nat) (fit : limits.Fit)

include fit

theorem hash_command_refines (stale : Nat → UInt8) (canResize : Bool) (key : Option HashObject) (n : Nat) (m : Sds → Option Sds)
    (means : KeyMeans limits hash n m key) (command : HashCommand) (bounded : n + command.puts < 2 ^ 30) :
    ∃ next reply, hashCommand limits hash stale canResize key command = some (next, reply) ∧ Answers m command reply ∧
      KeyMeans limits hash (n + command.puts) (mapAfter m command) next := by
  cases command with
  | hset pairs =>
      obtain ⟨next, ran, meansNext⟩ := hset_means limits hash stale canResize n m key means fit pairs bounded
      exact ⟨some next, .integer (putPairs pairs m).2, by rw [hashCommand, ran]; rfl, rfl, meansNext⟩
  | hmset pairs =>
      obtain ⟨next, ran, meansNext⟩ := hset_means limits hash stale canResize n m key means fit pairs bounded
      exact ⟨some next, .ok, by rw [hashCommand, ran]; rfl, trivial, meansNext⟩
  | hdel fields =>
      obtain ⟨next, ran, meansNext⟩ := hdel_means limits hash stale canResize n m key means fit fields
      exact ⟨next, .integer (dropFields fields m).2, by rw [hashCommand, ran]; rfl, rfl, meansNext⟩
  | hget field =>
      obtain ⟨next, ran, meansNext⟩ := hget_means limits hash stale n m key means field
      exact ⟨next, .bulk (m field), by rw [hashCommand, ran]; rfl, rfl, meansNext⟩
  | hexists field =>
      obtain ⟨next, ran, meansNext⟩ := hexists_means limits hash n m key means field
      exact ⟨next, .integer (m field).isSome.toNat, by rw [hashCommand, ran]; rfl, rfl, meansNext⟩
  | hlen =>
      obtain ⟨next, list, ran, meansNext, listing⟩ := hlen_means limits hash n m key means
      exact ⟨next, .integer list.length, by rw [hashCommand, ran]; rfl, ⟨list, listing, rfl⟩, meansNext⟩
  | hgetall =>
      obtain ⟨next, list, ran, meansNext, listing⟩ := hgetall_means limits hash stale n m key means bounded
      exact ⟨next, .pairs list, by rw [hashCommand, ran]; rfl, listing, meansNext⟩

theorem hash_run_refines (events : List HashEvent) (key : Option HashObject) (n : Nat) (m : Sds → Option Sds)
    (means : KeyMeans limits hash n m key) (bounded : n + putBy events < 2 ^ 30) :
    ∃ next replies, hashRun limits hash events key = some (next, replies) ∧
    RunAnswers m (events.map HashEvent.command) replies := by
  induction events generalizing key n m with
  | nil => exact ⟨key, [], rfl, trivial⟩
  | cons event rest ih =>
      rw [putBy] at bounded
      obtain ⟨once, reply, ran, answers, meansOnce⟩ :=
        hash_command_refines limits hash fit event.stale event.canResize key n m means event.command (by omega)
      obtain ⟨next, replies, ranRest, answersRest⟩ := ih once _ _ meansOnce (by omega)
      exact ⟨next, reply :: replies, by simp [hashRun, ran, ranRest], answers, answersRest⟩

end Runs

-- A hash answers every command as a map of its fields, whatever bytes its
-- allocations find, across the conversion from a ziplist to a hash table and
-- through every resizing of the table. On the way no assertion fails.
theorem hash_refines_map (limits : HashLimits) (fit : limits.Fit) (hash : Sds → Nat) (events : List HashEvent)
    (bounded : putBy events < 2 ^ 30) :
    ∃ key replies, hashRun limits hash events none = some (key, replies) ∧
      RunAnswers (fun _ => none) (events.map HashEvent.command) replies :=
  hash_run_refines limits hash fit events none 0 (fun _ => none) rfl (by omega)

-- The value of 65 bytes ends the ziplist.
def Reference.converted : List HashCommand :=
  [.hmset [(chars "a", chars "1024"), (chars "b", chars "x")], .hset [(chars "a", chars "-7")], .hget (chars "a"), .hgetall,
    .hmset [(chars "c", List.replicate 65 97)], .hgetall, .hdel [chars "b", chars "d"], .hlen]

theorem reference_hash_refines_map :
    ∃ key replies, hashRun .default (fun _ => 0) (Reference.converted.map fun command => ⟨fun _ => 7, true, command⟩) none =
    some (key, replies) ∧
      RunAnswers (fun _ => none) Reference.converted replies :=
  hash_refines_map .default (by unfold HashLimits.Fit; decide) (fun _ => 0)
    (Reference.converted.map fun command => ⟨fun _ => 7, true, command⟩) (by decide)

end Redis
