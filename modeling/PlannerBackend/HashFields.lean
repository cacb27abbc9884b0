import PlannerBackend.HashType

set_option autoImplicit false

namespace Redis

open Memory Function

section Listings

variable {K V : Type} [DecidableEq K]

-- The pairs of a map, each once.
def Listing (pairs : List (K × V)) (m : K → Option V) : Prop :=
  (pairs.map Prod.fst).Nodup ∧ ∀ key val, (key, val) ∈ pairs ↔ m key = some val

variable {pairs next others : List (K × V)} {m : K → Option V} (listing : Listing pairs m)

include listing

theorem listing_add (key : K) (val : V) (unset : m key = none) (put : next.Perm ((key, val) :: pairs)) :
    Listing next (update m key (some val)) := by
  have fresh (old : V) : (key, old) ∉ pairs := by simp [listing.2, unset]
  have keys : (((key, val) :: pairs).map Prod.fst).Nodup := by
    refine List.nodup_cons.mpr ⟨?_, listing.1⟩
    intro member
    obtain ⟨⟨_, old⟩, here, rfl⟩ := List.mem_map.mp member
    exact fresh old here
  refine ⟨(put.map Prod.fst).nodup_iff.mpr keys, ?_⟩
  intro other old
  rw [put.mem_iff, List.mem_cons, Prod.mk.injEq, listing.2]
  by_cases same : other = key
  · subst same
    simp [unset, eq_comm]
  · simp [same]

omit [DecidableEq K] in
theorem listing_unset (key : K) (absent : ∀ val, (key, val) ∉ pairs) : m key = none :=
  Option.eq_none_iff_forall_ne_some.mpr fun val => mt (listing.2 key val).mpr (absent val)

theorem listing_drop (key : K) (old : V) (whole : pairs.Perm ((key, old) :: next)) : Listing next (update m key none) := by
  have keys := (whole.map Prod.fst).nodup_iff.mp listing.1
  rw [List.map_cons, List.nodup_cons] at keys
  refine ⟨keys.2, ?_⟩
  intro other val
  by_cases same : other = key
  · subst same
    simp only [update_self, reduceCtorEq, iff_false]
    exact fun member => keys.1 (List.mem_map.mpr ⟨_, member, rfl⟩)
  · rw [update_of_ne same, ← listing.2, whole.mem_iff, List.mem_cons, Prod.mk.injEq]
    simp [same]

theorem listing_put (key : K) (old val : V) (whole : pairs.Perm ((key, old) :: others)) (put : next.Perm ((key, val) :: others)) :
    Listing next (update m key (some val)) := by
  have added := listing_add (listing_drop listing key old whole) key val (update_self key none m) put
  rwa [update_idem] at added

end Listings

def flat (pairs : List (Sds × Sds)) : List Sds := pairs.flatMap fun pair => [pair.1, pair.2]

theorem flat_cons (pair : Sds × Sds) (pairs : List (Sds × Sds)) : flat (pair :: pairs) = pair.1 :: pair.2 :: flat pairs := rfl

theorem flat_append (l r : List (Sds × Sds)) : flat (l ++ r) = flat l ++ flat r := List.flatMap_append

theorem flat_length (pairs : List (Sds × Sds)) : (flat pairs).length = 2 * pairs.length := by
  induction pairs with
  | nil => rfl
  | cons pair pairs ih =>
      rw [flat_cons, List.length_cons, List.length_cons, ih, List.length_cons]
      omega

-- A hash that stays a ziplist has few fields and short strings.
def Short (limits : HashLimits) (pairs : List (Sds × Sds)) : Prop :=
  ∀ pair ∈ pairs, pair.1.length ≤ limits.maxValue ∧ pair.2.length ≤ limits.maxValue

-- One field more than is allowed is there before the conversion.
def HashLimits.Fit (limits : HashLimits) : Prop := (limits.maxEntries + 1) * (2 * (limits.maxValue + 18)) + 11 < 256 ^ 4

theorem footprint_short (limits : HashLimits) (pairs : List (Sds × Sds)) (short : Short limits pairs) :
    footprint (flat pairs) ≤ pairs.length * (2 * (limits.maxValue + 18)) := by
  induction pairs with
  | nil => exact Nat.zero_le _
  | cons pair pairs ih =>
      obtain ⟨key, value⟩ := short pair List.mem_cons_self
      have rest := ih fun other member => short other (List.mem_cons_of_mem _ member)
      rw [flat_cons, footprint, footprint, List.length_cons, Nat.add_mul]
      omega

theorem short_room (limits : HashLimits) (fit : limits.Fit) (pairs : List (Sds × Sds)) (short : Short limits pairs)
    (few : pairs.length ≤ limits.maxEntries + 1) : Room (flat pairs) := by
  have bounded := footprint_short limits pairs short
  have most := Nat.mul_le_mul_right (2 * (limits.maxValue + 18)) few
  rw [HashLimits.Fit] at fit
  rw [Room]
  omega

section Searching

-- The fields are at the even places.
theorem find_pairs (field : Sds) (pairs : List (Sds × Sds)) (cells : List Cell) (same : cells.map Cell.content = flat pairs) :
    (findFrom field 1 0 cells = none ∧ ∀ value, (field, value) ∉ pairs) ∨
      ∃ before key value after front old back, findFrom field 1 0 cells = some before.length ∧
      cells = before ++ key :: value :: after ∧
        pairs = front ++ (field, old) :: back ∧ before.map Cell.content = flat front ∧ key.content = field ∧ value.content = old ∧
        after.map Cell.content = flat back := by
  induction pairs generalizing cells with
  | nil =>
      rw [List.map_eq_nil_iff.mp same]
      exact .inl ⟨rfl, fun _ => List.not_mem_nil⟩
  | cons pair pairs ih =>
      obtain ⟨name, text⟩ := pair
      rw [flat_cons] at same
      obtain ⟨key, _, rfl, rfl, others⟩ := List.map_eq_cons_iff.mp same
      obtain ⟨value, rest, rfl, rfl, sameRest⟩ := List.map_eq_cons_iff.mp others
      simp only [findFrom]
      by_cases here : key.content = field
      · rw [if_pos here]
        exact .inr ⟨[], key, value, rest, [], value.content, pairs, rfl, rfl, by rw [here]; rfl, rfl, here, rfl, sameRest⟩
      · rw [if_neg here]
        rcases ih rest sameRest
          with ⟨missing, absent⟩
              | ⟨before, k, v, after, front, old, back, found, split, pairsSplit, sameBefore, atKey, atValue, sameAfter⟩
        · refine .inl ⟨by rw [missing]; rfl, ?_⟩
          intro old member
          rcases List.mem_cons.mp member with first | member
          · exact here (Prod.mk.inj first).1.symm
          · exact absent old member
        · refine .inr ⟨key :: value :: before, k, v, after, (key.content, value.content) :: front, old, back,
            by rw [found]; rfl, by rw [split]; rfl, by rw [pairsSplit]; rfl, ?_, atKey, atValue, sameAfter⟩
          rw [List.map_cons, List.map_cons, sameBefore, flat_cons]

variable (zl : Block) (cells : List Cell) (lists : Lists zl cells) (pairs : List (Sds × Sds))
  (same : cells.map Cell.content = flat pairs)

include lists same

theorem field_pointer (field : Sds) :
    (fieldPointer zl field = some none ∧ ∀ value, (field, value) ∉ pairs) ∨
      ∃ before key value after front old back, fieldPointer zl field = some (some (offsetOf before)) ∧
      cells = before ++ key :: value :: after ∧
        pairs = front ++ (field, old) :: back ∧ before.map Cell.content = flat front ∧ key.content = field ∧ value.content = old ∧
        after.map Cell.content = flat back := by
  have pointer : fieldPointer zl field = some ((findFrom field 1 0 cells).map fun i => offsetOf (cells.take i)) := by
    rw [fieldPointer, index_place zl cells lists, Option.bind_some]
    cases cells with
    | nil => rfl
    | cons cell cells =>
        have first : place (cell :: cells).length 0 = some 0 := by simp [place]
        have searched := ziplist_find lists [] (cell :: cells) rfl field 1
        rw [first]
        simp only [List.nil_append] at searched
        exact searched
  rw [pointer]
  rcases find_pairs field pairs cells same
    with ⟨missing, absent⟩ | ⟨before, key, value, after, front, old, back, found, split, rest⟩
  · exact .inl ⟨by rw [missing]; rfl, absent⟩
  · refine .inr ⟨before, key, value, after, front, old, back, ?_, split, rest⟩
    rw [found, Option.map_some, split, List.take_left]

end Searching

-- The block holds these pairs, each field in front of its value.
def Pairs (zl : Block) (pairs : List (Sds × Sds)) : Prop := ∃ cells, Lists zl cells ∧ cells.map Cell.content = flat pairs

section Writing

variable (stale : Nat → UInt8) (zl : Block) (cells : List Cell) (lists : Lists zl cells)

include lists

theorem pair_pushed (pairs : List (Sds × Sds)) (same : cells.map Cell.content = flat pairs) (field value : Sds)
    (room : Room (flat (pairs ++ [(field, value)]))) :
    ∃ once twice, ziplistPush stale zl field .tail = some once ∧ ziplistPush stale once value .tail = some twice ∧
      Pairs twice (pairs ++ [(field, value)]) := by
  have whole : flat (pairs ++ [(field, value)]) = cells.map Cell.content ++ [field] ++ [value] := by
    rw [flat_append, ← same, List.append_assoc]
    rfl
  rw [whole] at room
  have roomField : Room (cells.map Cell.content ++ [field]) := by
    rw [Room, footprint_append] at room
    rw [Room]
    omega
  obtain ⟨once, fields, first, listedOnce, sameOnce⟩ := push_refines stale zl cells lists field .tail roomField
  simp only [listOp] at sameOnce
  obtain ⟨twice, all, second, listedTwice, sameTwice⟩ :=
    push_refines stale once fields listedOnce value .tail (by simp only [listOp]; rwa [sameOnce])
  simp only [listOp, sameOnce] at sameTwice
  exact ⟨once, twice, first, second, all, listedTwice, by rw [sameTwice, whole]⟩

-- The old value behind the field's key is deleted and the new one put there.
theorem value_replaced (field value : Sds) (before : List Cell) (key val : Cell) (after : List Cell)
    (front back : List (Sds × Sds)) (split : cells = before ++ key :: val :: after)
    (sameBefore : before.map Cell.content = flat front) (atKey : key.content = field)
    (sameAfter : after.map Cell.content = flat back) (room : Room (cells.map Cell.content))
    (roomAfter : Room (flat (front ++ (field, value) :: back))) :
    ∃ once twice, ziplistNext zl (offsetOf before) = some (some (offsetOf (before ++ [key]))) ∧
      ziplistDelete stale zl (offsetOf (before ++ [key])) = some once ∧
      ziplistInsert stale once (offsetOf (before ++ [key])) value = some twice ∧
      Pairs twice (front ++ (field, value) :: back) := by
  have split' : cells = (before ++ [key]) ++ val :: after := by rw [split, List.append_assoc]; rfl
  have next := ziplist_next lists before key (val :: after) split
  rw [if_neg (List.cons_ne_nil val after)] at next
  obtain ⟨once, behind, deleted, listedOnce, sameOnce⟩ :=
    delete_contents stale zl cells (before ++ [key]) (val :: after) lists split' (List.cons_ne_nil _ _) 1 room
  have whole : flat (front ++ (field, value) :: back) =
      (before ++ [key]).map Cell.content ++ value :: behind.map Cell.content := by
    have inFront : (before ++ [key]).map Cell.content = flat front ++ [field] := by
      rw [List.map_append, sameBefore, ← atKey]
      rfl
    have behind_ : behind.map Cell.content = flat back := by rw [sameOnce, ← sameAfter]; rfl
    rw [flat_append, flat_cons, inFront, behind_, List.append_assoc]
    rfl
  rw [whole] at roomAfter
  obtain ⟨twice, rest, inserted, listedTwice, sameTwice⟩ :=
    insert_contents stale once (before ++ [key] ++ behind) (before ++ [key]) behind listedOnce rfl value roomAfter
  exact ⟨once, twice, next, deleted, inserted, _, listedTwice, by rw [List.map_append, sameTwice, whole]⟩

end Writing

section Ziplist

variable (zl : Block) (pairs : List (Sds × Sds)) (holds : Pairs zl pairs) (m : Sds → Option Sds) (listing : Listing pairs m)

include holds

theorem ziplist_pairs_length : ∃ next, hashTypeLength (.ziplist zl) = some (.ziplist next, pairs.length) ∧ Pairs next pairs := by
  obtain ⟨cells, lists, same⟩ := holds
  obtain ⟨next, counted, listed⟩ := ziplist_len lists
  have size := congrArg List.length same
  rw [List.length_map, flat_length] at size
  refine ⟨next, ?_, cells, listed, same⟩
  rw [hashTypeLength, counted, size]
  simp

include listing

theorem get_from_ziplist (field : Sds) : hashTypeGetFromZiplist zl field = some ((m field).map valueOf) := by
  obtain ⟨cells, lists, same⟩ := holds
  rw [hashTypeGetFromZiplist]
  rcases field_pointer zl cells lists pairs same field with ⟨pointer, absent⟩ |
    ⟨before, key, value, after, front, old, back, pointer, split, pairsSplit, sameBefore, atKey, atValue, sameAfter⟩
  · have unset := listing_unset listing field absent
    simp [pointer, unset]
  · have set : m field = some old := (listing.2 field old).mp (by simp [pairsSplit])
    have next := ziplist_next lists before key (value :: after) split
    rw [if_neg (List.cons_ne_nil value after)] at next
    obtain ⟨fits, held⟩ := cell_at lists (before ++ [key]) value after (by rw [split, List.append_assoc]; rfl)
    simp only [pointer, Option.bind_eq_bind, Option.bind_some, next, Option.join_some,
      ziplist_get fits held, atValue, set, Option.map_some]
    rfl

variable (limits : HashLimits) (fit : limits.Fit) (short : Short limits pairs)
  (few : pairs.length ≤ limits.maxEntries) (stale : Nat → UInt8)

include fit short few

theorem delete_from_ziplist (hash : Sds → Nat) (canResize : Bool) (field : Sds) :
    ∃ next after, hashTypeDelete hash stale canResize (.ziplist zl) field =
    some (.ziplist next, (m field).isSome) ∧ Pairs next after ∧
      Listing after (update m field none) ∧ Short limits after ∧ after.length ≤ pairs.length := by
  have room := short_room limits fit pairs short (by omega)
  obtain ⟨cells, lists, same⟩ := holds
  rw [← same] at room
  rw [hashTypeDelete]
  rcases field_pointer zl cells lists pairs same field with ⟨pointer, absent⟩ |
    ⟨before, key, value, after, front, old, back, pointer, split, pairsSplit, sameBefore, atKey, atValue, sameAfter⟩
  · have unset := listing_unset listing field absent
    refine ⟨zl, pairs, by simp [pointer, unset], ⟨cells, lists, same⟩, ?_, short, Nat.le_refl _⟩
    rwa [← unset, update_eq_self]
  · have set : m field = some old := (listing.2 field old).mp (by simp [pairsSplit])
    obtain ⟨once, behind, first, listedOnce, sameOnce⟩ :=
      delete_contents stale zl cells before (key :: value :: after) lists split (List.cons_ne_nil _ _) 1 room
    have left : behind ≠ [] := by
      rintro rfl
      simp at sameOnce
    have fewer : Room ((before ++ behind).map Cell.content) := by
      have sub := footprint_sublist ((before ++ behind).map Cell.content) (cells.map Cell.content) (by
        rw [split, List.map_append, List.map_append, sameOnce]
        exact List.Sublist.append_left (List.drop_sublist _ _) _)
      rw [Room] at room ⊢
      omega
    obtain ⟨twice, rest, second, listedTwice, sameTwice⟩ :=
      delete_contents stale once (before ++ behind) before behind listedOnce rfl left 1 fewer
    have sameRest : rest.map Cell.content = flat back := by rw [sameTwice, sameOnce, ← sameAfter]; rfl
    refine ⟨twice, front ++ back, ?_,
      ⟨before ++ rest, listedTwice, by rw [List.map_append, sameBefore, sameRest, flat_append]⟩, ?_, ?_, ?_⟩
    · simp only [pointer, Option.bind_eq_bind, Option.bind_some, ziplistDelete, first, second, set, Option.isSome_some]
      rfl
    · exact listing_drop listing field old (by rw [pairsSplit]; exact List.perm_middle)
    · intro pair member
      refine short pair ?_
      rw [pairsSplit]
      exact List.mem_append.mpr ((List.mem_append.mp member).imp_right (List.mem_cons_of_mem _))
    · rw [pairsSplit, List.length_append, List.length_append, List.length_cons]
      omega

theorem set_in_ziplist (field value : Sds) (shortField : field.length ≤ limits.maxValue)
    (shortValue : value.length ≤ limits.maxValue) :
    ∃ next after, setInZiplist stale zl field value = some (next, (m field).isSome) ∧ Pairs next after ∧
      Listing after (update m field (some value)) ∧ Short limits after ∧ after.length ≤ pairs.length + 1 := by
  have room := short_room limits fit pairs short (by omega)
  obtain ⟨cells, lists, same⟩ := holds
  rw [← same] at room
  rw [setInZiplist]
  rcases field_pointer zl cells lists pairs same field with ⟨pointer, absent⟩ |
    ⟨before, key, val, after, front, old, back, pointer, split, pairsSplit, sameBefore, atKey, atValue, sameAfter⟩
  · have unset := listing_unset listing field absent
    have shortAll : Short limits (pairs ++ [(field, value)]) := by
      intro pair member
      rcases List.mem_append.mp member with old | new
      · exact short pair old
      · rw [List.mem_singleton.mp new]
        exact ⟨shortField, shortValue⟩
    have more : (pairs ++ [(field, value)]).length = pairs.length + 1 := by rw [List.length_append, List.length_singleton]
    obtain ⟨once, twice, first, second, held⟩ := pair_pushed stale zl cells lists pairs same field value
      (short_room limits fit _ shortAll (by omega))
    refine ⟨twice, pairs ++ [(field, value)], ?_, held, ?_, shortAll, Nat.le_of_eq more⟩
    · simp [pointer, first, second, unset]
    · exact listing_add listing field value unset (List.perm_append_singleton _ _)
  · have set : m field = some old := (listing.2 field old).mp (by simp [pairsSplit])
    have shortAll : Short limits (front ++ (field, value) :: back) := by
      intro pair member
      rw [pairsSplit] at short
      rcases List.mem_append.mp member with left | right
      · exact short pair (List.mem_append_left _ left)
      · rcases List.mem_cons.mp right with rfl | right
        · exact ⟨shortField, shortValue⟩
        · exact short pair (List.mem_append_right _ (List.mem_cons_of_mem _ right))
    have fewAll : (front ++ (field, value) :: back).length = pairs.length := by
      rw [pairsSplit, List.length_append, List.length_append, List.length_cons, List.length_cons]
    obtain ⟨once, twice, next, deleted, inserted, held⟩ := value_replaced stale zl cells lists field value before key val after
      front back split sameBefore atKey sameAfter room (short_room limits fit _ shortAll (by omega))
    refine ⟨twice, front ++ (field, value) :: back, ?_, held, ?_, shortAll, by omega⟩
    · simp [pointer, next, deleted, inserted, set]
    · exact listing_put listing field old value (by rw [pairsSplit]; exact List.perm_middle) List.perm_middle

end Ziplist

section Converting

variable (zl : Block) (cells : List Cell) (lists : Lists zl cells)

include lists

-- The iterator goes on behind the front.
def Ahead (cursor : Option (Nat × Nat)) (front back : List Cell) : Prop :=
  (cursor.elim (ziplistIndex zl 0) fun (_, vptr) => ziplistNext zl vptr) =
    some (if back = [] then none else some (offsetOf front))

theorem each_pair_from (pairs : List (Sds × Sds)) (front back : List Cell) (parts : cells = front ++ back)
    (same : back.map Cell.content = flat pairs) (cursor : Option (Nat × Nat)) (ahead : Ahead zl cursor front back) (fuel : Nat)
    (enough : pairs.length < fuel) :
    eachPair (.ziplist zl) fuel (.ziplist cursor) = some (pairs.map fun pair => (valueOf pair.1, valueOf pair.2)) := by
  induction pairs generalizing front back cursor fuel with
  | nil =>
      obtain ⟨fuel, rfl⟩ := Nat.exists_eq_add_of_lt enough
      rw [List.map_eq_nil_iff.mp same, Ahead, if_pos rfl] at ahead
      simp [eachPair, hashTypeNext, ahead]
  | cons pair pairs ih =>
      obtain ⟨name, text⟩ := pair
      rw [flat_cons] at same
      obtain ⟨key, _, rfl, rfl, others⟩ := List.map_eq_cons_iff.mp same
      obtain ⟨value, rest, rfl, rfl, sameRest⟩ := List.map_eq_cons_iff.mp others
      match fuel, enough with
      | fuel + 1, enough =>
        have behind : cells = (front ++ [key]) ++ value :: rest := by rw [parts, List.append_assoc]; rfl
        obtain ⟨fitsKey, heldKey⟩ := cell_at lists front key (value :: rest) parts
        obtain ⟨fitsValue, heldValue⟩ := cell_at lists (front ++ [key]) value rest behind
        have next := ziplist_next lists front key (value :: rest) parts
        rw [if_neg (List.cons_ne_nil value rest)] at next
        rw [Ahead, if_neg (List.cons_ne_nil key _)] at ahead
        have further : Ahead zl (some (offsetOf front, offsetOf (front ++ [key]))) (front ++ [key] ++ [value]) rest :=
          ziplist_next lists (front ++ [key]) value rest behind
        have ih := ih (front ++ [key] ++ [value]) rest (by rw [behind, List.append_assoc (front ++ [key])]; rfl) sameRest _
          further fuel (by rw [List.length_cons] at enough; omega)
        simp [eachPair, hashTypeNext, ahead, next, hashTypeCurrentObject, ziplist_get fitsKey heldKey,
            ziplist_get fitsValue heldValue, ih]

end Converting

theorem all_pairs_ziplist (zl : Block) (pairs : List (Sds × Sds)) (holds : Pairs zl pairs) :
    allPairs (.ziplist zl) = some (pairs.map fun pair => (valueOf pair.1, valueOf pair.2)) := by
  obtain ⟨cells, lists, same⟩ := holds
  have size := congrArg List.length same
  rw [List.length_map, flat_length] at size
  have enough := length_enough lists
  have ahead : Ahead zl none [] cells := by
    rw [Ahead, Option.elim_none, index_place zl cells lists]
    cases cells with
    | nil => rfl
    | cons cell cells =>
        have first : place (cell :: cells).length 0 = some 0 := by simp [place]
        rw [first]
        rfl
  exact each_pair_from zl cells lists pairs [] cells rfl same none ahead zl.length (by omega)

section Adding

variable (hash : Sds → Nat) (canResize : Bool)

theorem add_pairs (pairs : List (Sds × Sds)) (d : Dict Sds Sds) (sound : d.Sound hash) (before after : Sds → Option Sds)
    (means : d.Means before) (distinct : (pairs.map Prod.fst).Nodup) (fresh : ∀ pair ∈ pairs, before pair.1 = none)
    (whole : ∀ key val, after key = some val ↔ before key = some val ∨ (key, val) ∈ pairs)
    (bounded : dictSize d + pairs.length ≤ 2 ^ 62) :
    ∃ next, addPairs hash canResize (pairs.map fun pair => (valueOf pair.1, valueOf pair.2)) d = some next ∧ next.Sound hash ∧
      next.Means after ∧ dictSize next = dictSize d + pairs.length := by
  induction pairs generalizing d before with
  | nil =>
      refine ⟨d, rfl, sound, ?_, rfl⟩
      intro key val
      rw [means key val, whole key val]
      simp
  | cons pair pairs ih =>
      obtain ⟨key, val⟩ := pair
      rw [List.map_cons, List.nodup_cons] at distinct
      rw [List.length_cons] at bounded
      have unset := fresh (key, val) List.mem_cons_self
      obtain ⟨added, ran, soundAdded, meansAdded, size⟩ := add_map hash d sound before means key canResize val (by omega)
      simp only [unset, Option.isNone_none, if_true] at ran meansAdded size
      have apart (pair : Sds × Sds) (member : pair ∈ pairs) : pair.1 ≠ key := by
        rintro rfl
        exact distinct.1 (List.mem_map.mpr ⟨pair, member, rfl⟩)
      have wholeRest (other : Sds) (old : Sds) : after other = some old ↔ update before key (some val) other = some old ∨
          (other, old) ∈ pairs := by
        rw [whole other old, List.mem_cons, Prod.mk.injEq]
        by_cases same : other = key
        · subst same
          simp [unset, eq_comm]
        · simp [same]
      obtain ⟨next, ranRest, soundNext, meansNext, sizeNext⟩ :=
        ih added soundAdded (update before key (some val)) meansAdded distinct.2
        (fun pair member => by rw [update_of_ne (apart pair member)]; exact fresh pair (List.mem_cons_of_mem _ member))
            wholeRest (by omega)
      refine ⟨next, ?_, soundNext, meansNext, by rw [sizeNext, size, List.length_cons]; omega⟩
      simp only [List.map_cons, addPairs, sds_of_value, ran, Option.bind_eq_bind, Option.bind_some, if_true, ranRest]

theorem convert_ziplist (zl : Block) (pairs : List (Sds × Sds)) (holds : Pairs zl pairs) (m : Sds → Option Sds)
    (listing : Listing pairs m) (bounded : pairs.length ≤ 2 ^ 62) :
    ∃ d, hashTypeConvert hash canResize (.ziplist zl) = some (.ht d) ∧ d.Sound hash ∧ d.Means m ∧ dictSize d = pairs.length := by
  obtain ⟨d, ran, sound, means, size⟩ := add_pairs hash canResize pairs dictCreate (create_sound hash) (fun _ => none) m
    (by simp [Dict.Means, Dict.entries, DictHt.entries, dictCreate, dictReset]) listing.1 (fun _ _ => rfl)
    (fun key val => by rw [listing.2 key val]; simp) (by simpa [dictSize, dictCreate, dictReset] using bounded)
  refine ⟨d, ?_, sound, means, by simpa [dictSize, dictCreate, dictReset] using size⟩
  rw [hashTypeConvert, all_pairs_ziplist zl pairs holds]
  simp [ran]

end Adding

end Redis
