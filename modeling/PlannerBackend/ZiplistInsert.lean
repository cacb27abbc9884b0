import PlannerBackend.ZiplistUpdate

set_option autoImplicit false

namespace Redis

open Memory

section Fresh

-- The entry that is written for a string behind an entry of this length.
def freshCell (prev : Nat) (s : Sds) : Cell := ⟨decide (zipBigPrevlen ≤ prev), s⟩

variable (prev : Nat) (s : Sds)

theorem fresh_field : prevEntryLength prev = prevField (freshCell prev s).wide prev := by
  simp only [prevEntryLength, prevField, freshCell, decide_eq_true_eq]
  by_cases small : prev < zipBigPrevlen
  · rw [if_pos small, if_neg (by omega)]
  · rw [if_neg small, if_pos (by omega)]

theorem fresh_fits (below : prev < 256 ^ 4) (small : (freshCell prev s).size < 256 ^ 4) : (freshCell prev s).Fits prev where
  narrow := by simp [freshCell]
  prev := below
  size := small

theorem payload_length :
    (if (zipTryEncoding s).isSome then zipIntSize ((zipTryEncoding s).getD (123456789, 0)).2 else some s.length) =
    some (payloadOf s).length := by
  cases tried : zipTryEncoding s with
  | none => simp [payloadOf, tried]
  | some found =>
      obtain ⟨_, bytes, codes⟩ := try_encoding_codes s found.1 found.2 tried
      simp [payloadOf, tried, codes.size, codes.written]

theorem required_length : (payloadOf s).length + (prevEntryLength prev).length + (headOf s).length = (freshCell prev s).size := by
  rw [fresh_field prev s, prev_field_length, Cell.size, bodyOf, List.length_append]
  simp only [freshCell]
  omega

theorem payload_stored (m : Block) (p : Nat) :
    (if zipIsStr ((zipTryEncoding s).getD (123456789, 0)).2 then store m p s
      else zipSaveInteger m p ((zipTryEncoding s).getD (123456789, 0)).1 ((zipTryEncoding s).getD (123456789, 0)).2) =
        store m p (payloadOf s) := by
  cases tried : zipTryEncoding s with
  | none => simp [payloadOf, tried, zipIsStr]
  | some found =>
      obtain ⟨_, bytes, codes⟩ := try_encoding_codes s found.1 found.2 tried
      obtain ⟨high, _⟩ := codes.tag
      have numeric : zipIsStr found.2 = false := decide_eq_false (by omega)
      simp [payloadOf, tried, numeric, zipSaveInteger, codes.written]

-- The three parts of the entry fill the room that was made for it.
theorem insert_write (head room rest : Block) (fits : room.length = (freshCell prev s).size) :
    insertWrite (head ++ (room ++ rest)) head.length prev s ((zipTryEncoding s).getD (123456789, 0)).1
    ((zipTryEncoding s).getD (123456789, 0)).2 =
      some (head ++ ((freshCell prev s).bytes prev ++ rest)) := by
  have required := required_length prev s
  obtain ⟨first, others, parts, first_size⟩ := split_at_length room (prevEntryLength prev).length (by omega)
  have others_size : others.length = (headOf s).length + (payloadOf s).length := by
    have same := congrArg List.length parts
    simp only [List.length_append] at same
    omega
  obtain ⟨second, third, parts', second_size⟩ := split_at_length others (headOf s).length (by omega)
  have third_size : third.length = (payloadOf s).length := by
    have same := congrArg List.length parts'
    simp only [List.length_append] at same
    omega
  have bytes : (freshCell prev s).bytes prev = prevEntryLength prev ++ (headOf s ++ payloadOf s) := by
    rw [Cell.bytes, ← fresh_field prev s, bodyOf]
    rfl
  simp only [insertWrite, zipStorePrevEntryLength, payload_stored]
  change (store (head ++ (room ++ rest)) head.length (prevEntryLength prev)).bind (fun zl =>
    (store zl (head.length + (prevEntryLength prev).length) (headOf s)).bind fun zl =>
      store zl (head.length + (prevEntryLength prev).length + (headOf s).length) (payloadOf s)) = _
  rw [store_at (show _ = head ++ (first ++ (second ++ (third ++ rest))) by simp [parts, parts'])
    rfl first_size.symm, Option.bind_some,
    store_at (show _ = (head ++ prevEntryLength prev) ++ (second ++ (third ++ rest)) by simp) (by simp) second_size.symm,
    Option.bind_some, store_at (show _ = (head ++ (prevEntryLength prev ++ headOf s)) ++ (third ++ rest) by simp)
        (by simp [Nat.add_assoc]) third_size.symm]
  simp [bytes]

end Fresh

theorem fit_bound (prev : Nat) (cells : List Cell) (fit : AllFit prev cells) (below : prev < 256 ^ 4) :
    lastSize prev cells < 256 ^ 4 := by
  induction cells generalizing prev with
  | nil => exact below
  | cons cell cells ih => exact ih cell.size fit.2 fit.1.size

-- The length of the entry before the place, which is found in the entry there
-- or at the tail.
theorem prevlen_at (zl : Block) (cells front back : List Cell) (lists : Lists zl cells) (parts : cells = front ++ back) :
    prevlenAt zl (offsetOf front) = some (lastSize 0 front) := by
  cases back with
  | cons next more =>
      obtain ⟨fits, holds⟩ := cell_at lists front next more parts
      obtain ⟨byte, first, inside, _⟩ := first_byte fits holds
      simp only [prevlenAt, first, inside, decode_prevlen fits holds, Option.bind_eq_bind, Option.bind_some, ne_eq,
        not_false_eq_true, if_true]
      rfl
  | nil =>
      rw [List.append_nil] at parts
      subst parts
      simp only [prevlenAt, end_at lists, tail_at lists, Option.bind_eq_bind, Option.bind_some, ne_eq,
        not_true_eq_false, if_false]
      rcases List.eq_nil_or_concat' cells with rfl | ⟨front, last, rfl⟩
      · simp only [List.dropLast_nil, end_at lists, Option.bind_some, not_true_eq_false, if_false]
        rfl
      · obtain ⟨fits, holds⟩ := cell_at lists front last [] rfl
        obtain ⟨byte, first, inside, _⟩ := first_byte fits holds
        simp only [List.dropLast_concat, first, inside, raw_entry_length fits holds, Option.bind_some,
          not_false_eq_true, if_true, last_size_snoc]

-- Room behind these entries, in front of those.
def opened (front : List Cell) (room : Block) (back : List Cell) (length : Nat) : Block :=
  header (offsetOf front + room.length + weight back + 1)
    (offsetOf front + if back = [] then 0 else room.length + weight back.dropLast) length ++
    (spread 0 front ++ (room ++ (spread room.length back ++ [zipEnd])))

theorem opened_staged (front : List Cell) (room : Block) (next : Cell) (more : List Cell) (length : Nat) :
    staged (spread 0 front ++ room) room.length next next.size more length = opened front room (next :: more) length := by
  have start : 10 + (spread 0 front ++ room).length = offsetOf front + room.length := by
    rw [List.length_append, spread_length, offsetOf, Nat.add_assoc]
  rw [staged, opened, start, if_neg (List.cons_ne_nil next more), ← Nat.add_assoc]
  simp only [spread, List.append_assoc]

theorem opened_lists (front : List Cell) (cell : Cell) (back : List Cell) (length : Nat) :
    opened front (cell.bytes (lastSize 0 front)) back length =
      header (offsetOf (front ++ cell :: back) + 1) (offsetOf (front ++ cell :: back).dropLast) length ++
      (spread 0 (front ++ cell :: back) ++ [zipEnd]) := by
  have total : offsetOf front + cell.size + weight back = offsetOf (front ++ cell :: back) := by
    rw [offset_append, weight, Nat.add_assoc]
  have tail : (offsetOf front + if back = [] then 0 else cell.size + weight back.dropLast) =
      offsetOf (front ++ cell :: back).dropLast := by
    cases back with
    | nil => simp
    | cons next more =>
        rw [List.dropLast_append_of_ne_nil (by simp), List.dropLast_cons_cons, offset_append, weight]
        simp
  rw [opened, cell_length, total, tail, spread_append, spread]
  simp only [List.append_assoc]

section Shifting

variable (front : List Cell) (next : Cell) (more : List Cell) (length reqlen : Nat) (wide : Bool)

-- The offset of the tail after the two steps in which it is adjusted.
theorem insert_tail (fit : AllFit next.size more) (fits : Cell.Fits reqlen ⟨wide, next.content⟩) (total tail p : Nat)
    (body : Block) (place : p + reqlen = 10 + body.length)
    (isTail : tail + reqlen = 10 + body.length + weight (next :: more).dropLast) (small : tail < 256 ^ 4) :
    (do let offset ← ziplistTailOffset
          (header total tail length ++ (body ++ (Cell.bytes reqlen ⟨wide, next.content⟩ ++ (spread next.size more ++ [zipEnd]))))
        let zl ← setZiplistTailOffset
          (header total tail length ++ (body ++ (Cell.bytes reqlen ⟨wide, next.content⟩ ++ (spread next.size more ++ [zipEnd]))))
          (offset + reqlen)
        let tail ← zipEntry zl (p + reqlen)
        let after ← zl[p + (reqlen + tail.headersize + tail.len)]?
        if after ≠ zipEnd then
          setZiplistTailOffset zl (offset + reqlen + (fieldSize wide - fieldSize next.wide : Int) : Int).toNat
        else some zl) =
      some (header total (10 + body.length + weight (⟨wide, next.content⟩ :: more).dropLast) length ++
        (body ++ (Cell.bytes reqlen ⟨wide, next.content⟩ ++ (spread next.size more ++ [zipEnd])))) := by
  obtain ⟨entry, byte, first, isEnd⟩ := after_cell next more length wide reqlen fit fits total (tail + reqlen) body
  have ahead (entry : Zlentry) : p + (reqlen + entry.headersize + entry.len) =
      10 + body.length + (entry.headersize + entry.len) := by omega
  have adjusted := tail_adjusted next more length wide total (tail + reqlen) (10 + body.length) byte isEnd isTail
    (body ++ (Cell.bytes reqlen ⟨wide, next.content⟩ ++ (spread next.size more ++ [zipEnd])))
  simp only [ziplist_tail_offset _ _ _ _ small, set_ziplist_tail_offset, place, entry, ahead, entry_size, first,
    Option.bind_eq_bind, Option.bind_some]
  rw [set_ziplist_tail_offset] at adjusted
  exact adjusted

-- What stands behind the place moves back, where the field of the first entry
-- is written anew.
theorem insert_moved (prev total tail : Nat) (gap : Block) (sizes : fieldSize next.wide + gap.length = reqlen + fieldSize wide) :
    ∃ room : Block, room.length = reqlen ∧
      (memmove (header total tail length ++ (spread 0 front ++ (next.bytes prev ++ (spread next.size more ++ (gap ++ [zipEnd])))))
        (offsetOf front + reqlen) (offsetOf front + fieldSize next.wide - fieldSize wide)
        (fieldSize wide + (bodyOf next.content ++ spread next.size more).length)).bind
        (store · (offsetOf front + reqlen) (prevField wide reqlen)) =
      some (header total tail length ++
        ((spread 0 front ++ room) ++ (Cell.bytes reqlen ⟨wide, next.content⟩ ++ (spread next.size more ++ [zipEnd])))) := by
  have start : (header total tail length ++ spread 0 front).length = offsetOf front := by
    rw [List.length_append, header_length, spread_length, offsetOf]
  have five : ∀ wide, fieldSize wide ≤ 5 := by decide
  obtain ⟨room, room_size, moved⟩ := shift_right (header total tail length ++ spread 0 front)
    (prevField next.wide prev) (bodyOf next.content ++ spread next.size more) gap (prevField wide reqlen) reqlen
    (by rw [prev_field_length, prev_field_length]; exact sizes)
    (by rw [prev_field_length, start, offsetOf]; exact Nat.le_trans (five wide) (by omega))
  rw [start, prev_field_length, prev_field_length] at moved
  refine ⟨room, room_size, ?_⟩
  simp only [Cell.bytes, List.append_assoc] at moved ⊢
  exact moved

theorem insert_shift (prev : Nat) (forcelarge : Bool) (gap : Block)
    (written : (if forcelarge then prevEntryLengthLarge reqlen else prevEntryLength reqlen) = prevField wide reqlen)
    (sizes : fieldSize next.wide + gap.length = reqlen + fieldSize wide) (fit : AllFit next.size more)
    (fits : Cell.Fits reqlen ⟨wide, next.content⟩) (small : offsetOf front + weight (next :: more) < 256 ^ 4) :
    ∃ room : Block, room.length = reqlen ∧
      insertShift (header (offsetOf front + reqlen + weight (⟨wide, next.content⟩ :: more) + 1)
        (offsetOf front + weight (next :: more).dropLast) length ++
          (spread 0 front ++ (next.bytes prev ++ (spread next.size more ++ (gap ++ [zipEnd])))))
        (offsetOf front) (offsetOf front + weight (next :: more) + 1) reqlen
        (fieldSize wide - fieldSize next.wide : Int) forcelarge =
      some (staged (spread 0 front ++ room) reqlen ⟨wide, next.content⟩ next.size more length) := by
  obtain ⟨room, room_size, moved⟩ := insert_moved front next more length reqlen wide prev
    (offsetOf front + reqlen + weight (⟨wide, next.content⟩ :: more) + 1)
    (offsetOf front + weight (next :: more).dropLast) gap sizes
  refine ⟨room, room_size, ?_⟩
  have source : (offsetOf front - (fieldSize wide - fieldSize next.wide : Int)).toNat =
      offsetOf front + fieldSize next.wide - fieldSize wide := by omega
  have count : ((offsetOf front + weight (next :: more) + 1 : Nat) - offsetOf front - 1 +
      (fieldSize wide - fieldSize next.wide) : Int).toNat =
      fieldSize wide + (bodyOf next.content ++ spread next.size more).length := by
    simp only [weight, Cell.size, List.length_append, spread_length]
    omega
  have stored (zl : Block) : (if forcelarge then zipStorePrevEntryLengthLarge zl (offsetOf front + reqlen) reqlen
      else zipStorePrevEntryLength zl (offsetOf front + reqlen) reqlen) =
        store zl (offsetOf front + reqlen) (prevField wide reqlen) := by
    rw [← written]
    cases forcelarge with
    | true => rfl
    | false => rfl
  have place : offsetOf front + reqlen = 10 + (spread 0 front ++ room).length := by
    rw [List.length_append, spread_length, room_size, offsetOf, Nat.add_assoc]
  have tail := insert_tail next more length reqlen wide fit fits
    (offsetOf front + reqlen + weight (⟨wide, next.content⟩ :: more) + 1)
    (offsetOf front + weight (next :: more).dropLast) (offsetOf front) (spread 0 front ++ room) place (by omega)
    (by have shorter := weight_drop_last (next :: more); omega)
  rw [← place] at tail
  simp only [insertShift, source, count, stored, Option.bind_eq_bind]
  rw [← Option.bind_assoc, moved, Option.bind_some, staged, ← place]
  exact tail

end Shifting

-- The field of the entry behind the new one.
theorem chosen_field (reqlen : Nat) (held : Bool) :
    let diff : Int := (prevEntryLength reqlen).length - fieldSize held
    let forcelarge := decide (diff = -4 ∧ reqlen < 4)
    ∃ wide, (if forcelarge then prevEntryLengthLarge reqlen else prevEntryLength reqlen) = prevField wide reqlen ∧
      (if forcelarge then 0 else diff) = (fieldSize wide - fieldSize held : Int) ∧ (wide = false → reqlen < zipBigPrevlen) ∧
      fieldSize held ≤ reqlen + fieldSize wide := by
  intro diff forcelarge
  by_cases forced : diff = -4 ∧ reqlen < 4
  · have isHeld : held = true := by
      cases held with
      | true => rfl
      | false =>
          have one : fieldSize false = 1 := rfl
          omega
    have isForced : forcelarge = true := decide_eq_true forced
    exact ⟨true, by rw [if_pos isForced]; rfl, by rw [if_pos isForced, isHeld]; omega, by simp, by rw [isHeld]; omega⟩
  · have isFree : forcelarge = false := decide_eq_false forced
    have field := fresh_field reqlen []
    have size : (prevEntryLength reqlen).length = fieldSize (freshCell reqlen []).wide := by rw [field, prev_field_length]
    refine ⟨(freshCell reqlen []).wide,
      by rw [isFree]; exact field, by rw [isFree]; simp only [diff, size]; rfl, by simp [freshCell], ?_⟩
    have bounds : ∀ wide, 1 ≤ fieldSize wide ∧ fieldSize wide ≤ 5 := by decide
    have own := bounds held
    have other := bounds (freshCell reqlen []).wide
    cases held with
    | false =>
        have one : fieldSize false = 1 := rfl
        omega
    | true =>
        have five : fieldSize true = 5 := rfl
        by_cases small : reqlen < zipBigPrevlen
        · have one : (prevEntryLength reqlen).length = 1 := by rw [prevEntryLength, if_pos small]; rfl
          omega
        · simp only [zipBigPrevlen] at small
          omega

section Opening

variable (stale : Nat → UInt8) (zl : Block) (cells : List Cell) (lists : Lists zl cells) (reqlen : Nat)
include lists

-- At the end, the byte that marks it is the first of the new room.
theorem insert_open_end (some_ : 0 < reqlen) :
    ∃ room length, room.length = reqlen ∧ Counts length cells ∧
      insertOpen stale zl (offsetOf cells) (offsetOf cells + 1) reqlen 0 = some (opened cells room [] length) := by
  obtain ⟨length, split, counts⟩ := lists.split
  obtain ⟨room, room_size, starts, resized⟩ :=
    resize_grow stale (offsetOf cells + 1) (offsetOf cells.dropLast) length (spread 0 cells) zipEnd reqlen
  obtain ⟨more, starts⟩ := starts some_
  have start : 10 + (spread 0 cells).length = offsetOf cells := by rw [spread_length, offsetOf]
  rw [← split, start] at resized
  refine ⟨room, length, room_size, counts, ?_⟩
  have first : (header (offsetOf cells + 1 + reqlen) (offsetOf cells.dropLast) length ++
      (spread 0 cells ++ (room ++ [zipEnd])))[offsetOf cells]? = some zipEnd := by
    have held := held_behind (offsetOf cells + 1 + reqlen) (offsetOf cells.dropLast) length (spread 0 cells) room [zipEnd]
    rw [start] at held
    rw [starts] at held ⊢
    exact byte_holds held
  have size : ((offsetOf cells + 1 : Nat) + reqlen + 0 : Int).toNat = offsetOf cells + 1 + reqlen := by omega
  simp only [insertOpen,
    show ¬ ((0 : Int) = -4 ∧ reqlen < 4) by omega, decide_false, Bool.false_eq_true, if_false, size, resized, Option.bind_eq_bind,
    Option.bind_some, first, ne_eq, not_true_eq_false, set_ziplist_tail_offset]
  have total : offsetOf cells + room.length + weight [] + 1 = offsetOf cells + 1 + reqlen := by
    simp only [weight, room_size]
    omega
  rw [opened, if_pos rfl, total]
  rfl

theorem insert_open (front : List Cell) (next : Cell) (more : List Cell) (parts : cells = front ++ next :: more)
    (some_ : 0 < reqlen) (free : offsetOf cells + 1 + reqlen + 4 * (more.length + 1) < 256 ^ 4) :
    ∃ room back length, room.length = reqlen ∧ Counts length cells ∧
      insertOpen stale zl (offsetOf front) (offsetOf cells + 1) reqlen
      ((prevEntryLength reqlen).length - fieldSize next.wide : Int) =
        some (opened front room back length) ∧
      back.map Cell.content = (next :: more).map Cell.content ∧ AllFit reqlen back ∧
      weight back ≤ weight (next :: more) + 4 * (more.length + 1) := by
  obtain ⟨length, split, counts⟩ := lists.split
  obtain ⟨wide, written, differs, narrow, fewer⟩ := chosen_field reqlen next.wide
  have fit := lists.fit
  rw [parts, all_fit_append] at fit
  obtain ⟨_, follows, fit⟩ := fit
  have total : offsetOf cells = offsetOf front + weight (next :: more) := by rw [parts, offset_append]
  have start : 10 + (spread 0 front).length = offsetOf front := by rw [spread_length, offsetOf]
  have size := rewidened_size next wide
  have bounds : ∀ wide, 1 ≤ fieldSize wide ∧ fieldSize wide ≤ 5 := by decide
  have five := bounds wide
  have one := bounds next.wide
  have heavier : weight (⟨wide, next.content⟩ :: more) + fieldSize next.wide = weight (next :: more) + fieldSize wide := by
    simp only [weight]
    omega
  obtain ⟨gap, gap_size, _, resized⟩ :=
    resize_grow stale (offsetOf cells + 1) (offsetOf cells.dropLast) length (spread 0 cells) zipEnd
    (reqlen + fieldSize wide - fieldSize next.wide)
  have tail : offsetOf cells.dropLast = offsetOf front + weight (next :: more).dropLast := by
    rw [parts, List.dropLast_append_of_ne_nil (by simp), offset_append]
  have whole : 10 + (spread 0 cells).length + 1 + (reqlen + fieldSize wide - fieldSize next.wide) =
      offsetOf front + reqlen + weight (⟨wide, next.content⟩ :: more) + 1 := by
    rw [spread_length, ← offsetOf, total]
    omega
  have grown : ((offsetOf cells + 1 : Nat) + reqlen + (fieldSize wide - fieldSize next.wide : Int) : Int).toNat =
      offsetOf front + reqlen + weight (⟨wide, next.content⟩ :: more) + 1 := by
    rw [total]
    omega
  have entries : spread 0 cells = spread 0 front ++ (next.bytes (lastSize 0 front) ++ spread next.size more) := by
    rw [parts, spread_append, spread]
  rw [← split, whole, tail, entries] at resized
  simp only [List.append_assoc] at resized
  have widened : Cell.Fits reqlen ⟨wide, next.content⟩ := ⟨narrow, by omega, by simp only [weight] at total; omega⟩
  obtain ⟨room, room_size, shifted⟩ :=
    insert_shift front next more length reqlen wide (lastSize 0 front) _ gap written (by omega) fit widened (by omega)
  have held := held_behind (offsetOf front + reqlen + weight (⟨wide, next.content⟩ :: more) + 1)
    (offsetOf front + weight (next :: more).dropLast) length
    (spread 0 front) (next.bytes (lastSize 0 front)) (spread next.size more ++ (gap ++ [zipEnd]))
  rw [start] at held
  obtain ⟨byte, first, inside, _⟩ := first_byte follows held
  rw [← total] at shifted
  simp only [insertOpen, differs, grown, resized, Option.bind_eq_bind, Option.bind_some, first, inside, ne_eq,
    not_false_eq_true, if_true, shifted]
  have place : offsetOf front + reqlen = 10 + (spread 0 front ++ room).length := by
    rw [List.length_append, room_size, ← start, Nat.add_assoc]
  by_cases kept : (fieldSize wide - fieldSize next.wide : Int) = 0
  · have same : next.size = Cell.size ⟨wide, next.content⟩ := by omega
    refine ⟨room, ⟨wide, next.content⟩ :: more, length, room_size, counts, ?_, rfl, ⟨widened, same ▸ fit⟩, by omega⟩
    rw [if_neg (by simpa using kept), ← opened_staged, room_size, same]
  · obtain ⟨after, ran, contents, fit, bound⟩ :=
      cascade_update stale (spread 0 front ++ room) reqlen ⟨wide, next.content⟩ next.size more length widened fit
      (by rw [← place]; omega)
    refine ⟨room, ⟨wide, next.content⟩ :: after, length, room_size, counts, ?_, by simp [contents], ⟨widened, fit⟩, ?_⟩
    · rw [if_pos kept, place, ran, ← opened_staged, room_size]
    · simp only [weight] at heavier ⊢
      omega

end Opening

theorem listed_bytes (zl : Block) (cells : List Cell) (lists : Lists zl cells) : ziplistBytes zl = some (offsetOf cells + 1) := by
  obtain ⟨length, split, _⟩ := lists.split
  rw [split]
  exact ziplist_bytes _ _ _ _ lists.small

section Inserting

variable (stale : Nat → UInt8) (zl : Block) (cells front back : List Cell) (lists : Lists zl cells)
  (parts : cells = front ++ back) (s : Sds)
include lists parts

-- Whatever stands at the place, room is made for the new entry.
theorem insert_opened (free : offsetOf cells + 1 + (freshCell (lastSize 0 front) s).size + 4 * back.length < 256 ^ 4) :
    ∃ room after length, room.length = (freshCell (lastSize 0 front) s).size ∧ Counts length cells ∧
      (do let first ← zl[offsetOf front]?
          let diff ← (if first ≠
              zipEnd then zipPrevLenByteDiff zl (offsetOf front) (freshCell (lastSize 0 front) s).size else some 0)
          insertOpen stale zl (offsetOf front) (offsetOf cells + 1) (freshCell (lastSize 0 front) s).size diff) =
        some (opened front room after length) ∧
      after.map Cell.content = back.map Cell.content ∧ AllFit (freshCell (lastSize 0 front) s).size after ∧
      weight after ≤ weight back + 4 * back.length := by
  have some_ := size_pos (freshCell (lastSize 0 front) s)
  cases back with
  | nil =>
      rw [List.append_nil] at parts
      subst parts
      obtain ⟨room, length, room_size, counts, ran⟩ := insert_open_end stale zl cells lists _ some_
      refine ⟨room, [], length, room_size, counts, ?_, rfl, trivial, Nat.le_add_right ..⟩
      simp only [end_at lists, Option.bind_eq_bind, Option.bind_some, ne_eq, not_true_eq_false, if_false, ran]
  | cons next more =>
      obtain ⟨fits, holds⟩ := cell_at lists front next more parts
      obtain ⟨byte, first, inside, _⟩ := first_byte fits holds
      obtain ⟨room, after, length, room_size, counts, ran, rest⟩ :=
        insert_open stale zl cells lists _ front next more parts some_ free
      refine ⟨room, after, length, room_size, counts, ?_, rest⟩
      simp only [first, inside, Option.bind_eq_bind, Option.bind_some, ne_eq, not_false_eq_true, if_true, zipPrevLenByteDiff,
        decode_prevlensize fits holds]
      exact ran

-- The string becomes an entry at the place, and the others stay in their order.
theorem ziplist_insert (free : offsetOf cells + 1 + (freshCell (lastSize 0 front) s).size + 4 * back.length < 256 ^ 4) :
    ∃ next after, ziplistInsert stale zl (offsetOf front) s = some next ∧
    Lists next (front ++ freshCell (lastSize 0 front) s :: after) ∧
      after.map Cell.content = back.map Cell.content ∧ weight after ≤ weight back + 4 * back.length := by
  obtain ⟨room, after, length, room_size, counts, openedUp, contents, fit, bound⟩ :=
    insert_opened stale zl cells front back lists parts s free
  have required := required_length (lastSize 0 front) s
  have steps : ziplistInsert stale zl (offsetOf front) s =
      (do let first ← zl[offsetOf front]?
          let diff ← (if first ≠
            zipEnd then zipPrevLenByteDiff zl (offsetOf front) (freshCell (lastSize 0 front) s).size else some 0)
          insertOpen stale zl (offsetOf front) (offsetOf cells + 1) (freshCell (lastSize 0 front) s).size diff).bind fun zl =>
        (insertWrite zl (offsetOf front) (lastSize 0 front) s ((zipTryEncoding s).getD (123456789, 0)).1
          ((zipTryEncoding s).getD (123456789, 0)).2).bind fun zl => ziplistIncrLength zl 1 := by
    simp only [ziplistInsert, listed_bytes zl cells lists, prevlen_at zl cells front back lists parts, payload_length,
      Option.bind_eq_bind, Option.bind_some, Option.bind_assoc, ← required]
    rfl
  have head : (header (offsetOf front + room.length + weight after + 1)
      (offsetOf front + if after = [] then 0 else room.length + weight after.dropLast) length ++ spread 0 front).length =
          offsetOf front := by
    rw [List.length_append, header_length, spread_length, offsetOf]
  have written := insert_write (lastSize 0 front) s (header (offsetOf front + room.length + weight after + 1)
    (offsetOf front + if after = [] then 0 else room.length + weight after.dropLast) length ++ spread 0 front) room
    (spread room.length after ++ [zipEnd]) room_size
  rw [head] at written
  have before : opened front room after length = (header (offsetOf front + room.length + weight after + 1)
      (offsetOf front + if after = [] then 0 else room.length + weight after.dropLast) length ++ spread 0 front) ++
        (room ++ (spread room.length after ++ [zipEnd])) := by simp only [opened, List.append_assoc]
  have filled : (header (offsetOf front + room.length + weight after + 1)
      (offsetOf front + if after = [] then 0 else room.length + weight after.dropLast) length ++ spread 0 front) ++
        ((freshCell (lastSize 0 front) s).bytes (lastSize 0 front) ++ (spread room.length after ++ [zipEnd])) =
      opened front ((freshCell (lastSize 0 front) s).bytes (lastSize 0 front)) after length := by
    simp only [opened, cell_length, room_size, List.append_assoc]
  have total : offsetOf (front ++ freshCell (lastSize 0 front) s :: after) =
      offsetOf front + (freshCell (lastSize 0 front) s).size + weight after := by
    rw [offset_append, weight, Nat.add_assoc]
  have start : offsetOf cells = offsetOf front + weight back := by rw [parts, offset_append]
  have number : after.length = back.length := by simpa using congrArg List.length contents
  have first := lists.fit
  rw [parts, all_fit_append] at first
  obtain ⟨now, counted, counts⟩ := incr_length (offsetOf (front ++ freshCell (lastSize 0 front) s :: after) + 1)
    (offsetOf (front ++ freshCell (lastSize 0 front) s :: after).dropLast) length
      (spread 0 (front ++ freshCell (lastSize 0 front) s :: after) ++ [zipEnd])
    cells (front ++ freshCell (lastSize 0 front) s :: after) 1 counts (by simp [parts, number]; omega) (by omega)
  refine ⟨_, after, ?_, ⟨⟨now, rfl, counts⟩, ?_, by omega⟩, contents, bound⟩
  · rw [steps, openedUp, Option.bind_some, before, written, Option.bind_some, filled, opened_lists, counted]
  · rw [all_fit_append]
    exact ⟨first.1, fresh_fits _ s (fit_bound 0 front first.1 (by decide)) (by omega), fit⟩

end Inserting

end Redis
