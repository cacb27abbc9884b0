import PlannerBackend.ZiplistRead

set_option autoImplicit false

namespace Redis

open Memory

section Resizing

variable (stale : Nat → UInt8) (bytes tail length : Nat)

-- Room is made behind the last byte, which stays until it is written over.
theorem resize_grow (rest : Block) (last : UInt8) (extra : Nat) :
    ∃ gap : Block, gap.length = extra ∧ (0 < extra → ∃ more, gap = last :: more) ∧
      ziplistResize stale (header bytes tail length ++ (rest ++ [last])) (10 + rest.length + 1 + extra) =
        some (header (10 + rest.length + 1 + extra) tail length ++ (rest ++ (gap ++ [zipEnd]))) := by
  obtain ⟨fresh, size, grown⟩ := realloc_grow stale (header bytes tail length ++ (rest ++ [last])) extra
  have whole : (header bytes tail length ++ (rest ++ [last])).length = 10 + rest.length + 1 := by
    rw [List.length_append, header_length, List.length_append, List.length_singleton, Nat.add_assoc]
  rw [whole, List.append_assoc] at grown
  -- The bytes from the last one on are a gap and one byte for the end.
  obtain ⟨gap, byte, split, starts⟩ : ∃ gap byte, last :: fresh = gap ++ [byte] ∧ (0 < extra → ∃ more, gap = last :: more) := by
    rcases List.eq_nil_or_concat' fresh with rfl | ⟨more, byte, rfl⟩
    · exact ⟨[], last, rfl, fun some => by simp at size; omega⟩
    · exact ⟨last :: more, byte, rfl, fun _ => ⟨more, rfl⟩⟩
  have gap_size : gap.length = extra := by
    have same := congrArg List.length split
    simp only [List.length_cons, List.length_append, List.length_nil, size] at same
    omega
  refine ⟨gap, gap_size, starts, ?_⟩
  simp only [ziplistResize, grown, set_ziplist_bytes, Option.bind_eq_bind, Option.bind_some]
  rw [store_at (show _ = (header (10 + rest.length + 1 + extra) tail length ++ (rest ++ gap)) ++ ([byte] ++ []) by simp [split])
    (by simp only [List.length_append, header_length, gap_size]; omega) (show [zipEnd].length = [byte].length from rfl)]
  simp

theorem resize_shrink (kept cut : Block) (nonempty : 0 < cut.length) :
    ziplistResize stale (header bytes tail length ++ (kept ++ cut)) (10 + kept.length + 1) =
      some (header (10 + kept.length + 1) tail length ++ (kept ++ [zipEnd])) := by
  obtain ⟨byte, cut, rfl⟩ := List.exists_cons_of_length_pos nonempty
  have cut := realloc_shrink stale (header bytes tail length ++ (kept ++ [byte])) cut (10 + kept.length + 1)
    (by rw [List.length_append, header_length, List.length_append, List.length_singleton, Nat.add_assoc])
  simp only [List.append_assoc, List.singleton_append] at cut
  simp only [ziplistResize, cut, set_ziplist_bytes, Option.bind_eq_bind, Option.bind_some]
  rw [store_at (show _ = (header (10 + kept.length + 1) tail length ++ kept) ++ ([byte] ++ []) by simp)
    (by simp only [List.length_append, header_length]; omega) (show [zipEnd].length = [byte].length from rfl)]
  simp

end Resizing

section Behind

variable (bytes tail length : Nat) (front held rest : Block)

theorem held_behind : Holds (header bytes tail length ++ (front ++ (held ++ rest))) (10 + front.length) held :=
  ⟨header bytes tail length ++ front, rest, by simp, by simp [header_length]⟩

theorem held_rest : Holds (header bytes tail length ++ (front ++ (held ++ rest))) (10 + front.length + held.length) rest :=
  ⟨header bytes tail length ++ (front ++ held), [], by simp, by simp [header_length, Nat.add_assoc]⟩

end Behind

-- A list whose entries are in order up to the cell. The one behind it still
-- has the length old for it.
def staged (front : Block) (prev : Nat) (cell : Cell) (old : Nat) (back : List Cell) (length : Nat) : Block :=
  header (10 + front.length + weight (cell :: back) + 1) (10 + front.length + weight (cell :: back).dropLast) length ++
    (front ++ (cell.bytes prev ++ (spread old back ++ [zipEnd])))

theorem wide_size (cell : Cell) (narrow : cell.wide = false) : Cell.size ⟨true, cell.content⟩ = cell.size + 4 := by
  simp only [Cell.size, fieldSize, narrow, if_true, Bool.false_eq_true, if_false]
  omega

theorem weight_drop_last (cells : List Cell) : weight cells.dropLast ≤ weight cells := by
  rcases List.eq_nil_or_concat' cells with rfl | ⟨front, last, rfl⟩
  · exact Nat.le_refl _
  · rw [List.dropLast_concat, weight_append]
    omega

-- A field of one byte at the end of head becomes one of five.
theorem widen_field (head : Block) (byte : UInt8) (rest gap field : Block) (gap_size : gap.length = 4)
    (field_size : field.length = 5) :
    (memmove (head ++ ([byte] ++ (rest ++ (gap ++ [zipEnd])))) (head.length + 5) (head.length + 1) rest.length).bind
      (store · head.length field) = some (head ++ (field ++ (rest ++ [zipEnd]))) := by
  obtain ⟨five, held, parts, five_size⟩ := split_at_length ([byte] ++ (rest ++ gap)) 5 (by simp [gap_size])
  have held_size : rest.length = held.length := by
    have same := congrArg List.length parts
    simp only [List.length_append, List.length_singleton, gap_size, five_size] at same
    omega
  rw [memmove_at (show _ = (head ++ [byte]) ++ (rest ++ (gap ++ [zipEnd])) by simp) (by simp) rfl
    (show _ = (head ++ five) ++ (held ++ [zipEnd]) by
      rw [List.append_assoc head, ← List.append_assoc five, ← parts]
      simp) (by simp [five_size]) held_size, Option.bind_some,
    store_at (show _ = head ++ (five ++ (rest ++ [zipEnd])) by simp) rfl (by rw [field_size, five_size])]

-- The last entry moves with the others, unless it is the one that grows.
theorem grown_tail (front : Block) (prev : Nat) (cell next : Cell) (more : List Cell) (length : Nat)
    (narrow : next.wide = false) (total : Nat) (rest : Block) :
    (if 10 + front.length + weight (cell :: next :: more).dropLast ≠ 10 + front.length + cell.size then
      setZiplistTailOffset (header total (10 + front.length + weight (cell :: next :: more).dropLast) length ++ rest)
        (10 + front.length + weight (cell :: next :: more).dropLast + 4)
      else some (header total (10 + front.length + weight (cell :: next :: more).dropLast) length ++ rest)) =
    some (header total (10 + (front ++ cell.bytes prev).length + weight (⟨true, next.content⟩ :: more).dropLast) length ++
      rest) := by
  cases more with
  | nil => simp [weight, cell_length, Nat.add_assoc]
  | cons last more =>
      have positive := size_pos next
      have size := wide_size next narrow
      rw [if_pos (by simp only [List.dropLast_cons_cons, weight]; omega), set_ziplist_tail_offset]
      simp only [List.dropLast_cons_cons, weight, List.length_append, cell_length, size]
      congr 3
      omega

section Cascading

variable (stale : Nat → UInt8)

theorem cascade_grow (front : Block) (prev : Nat) (cell : Cell) (old : Nat) (next : Cell) (more : List Cell) (length : Nat)
    (narrow : next.wide = false) (large : zipBigPrevlen ≤ cell.size)
    (room : 10 + front.length + weight (cell :: next :: more) + 1 + 4 < 256 ^ 4) :
    cascadeGrow stale (staged front prev cell old (next :: more) length) (10 + front.length + cell.size)
      (10 + front.length + weight (cell :: next :: more) + 1) cell.size 5 1 =
    some (staged (front ++ cell.bytes prev) cell.size ⟨true, next.content⟩ next.size more length) := by
  have size := wide_size next narrow
  have field : prevEntryLength cell.size = prevEntryLengthLarge cell.size := if_neg (by omega)
  have narrow_bytes : next.bytes old = [UInt8.ofNat old] ++ bodyOf next.content := by simp [Cell.bytes, prevField, narrow]
  have body : next.size = 1 + (bodyOf next.content).length := by simp [Cell.size, fieldSize, narrow]
  have start : staged front prev cell old (next :: more) length =
      header (10 + front.length + weight (cell :: next :: more) + 1)
        (10 + front.length + weight (cell :: next :: more).dropLast) length ++
        ((front ++ (cell.bytes prev ++ (next.bytes old ++ spread next.size more))) ++ [zipEnd]) := by
    simp [staged, spread]
  have whole : (front ++ (cell.bytes prev ++ (next.bytes old ++ spread next.size more))).length =
      front.length + weight (cell :: next :: more) := by
    simp [cell_length, spread_length, weight]
  obtain ⟨gap, gap_size, _, resized⟩ := resize_grow stale (10 + front.length + weight (cell :: next :: more) + 1)
    (10 + front.length + weight (cell :: next :: more).dropLast) length
    (front ++ (cell.bytes prev ++ (next.bytes old ++ spread next.size more))) zipEnd 4
  rw [← start, whole, ← Nat.add_assoc] at resized
  have retail := grown_tail front prev cell next more length narrow (10 + front.length + weight (cell :: next :: more) + 1 + 4)
  have widened := widen_field (header (10 + front.length + weight (cell :: next :: more) + 1 + 4)
      (10 + (front ++ cell.bytes prev).length + weight (⟨true, next.content⟩ :: more).dropLast) length ++
        (front ++ cell.bytes prev))
    (UInt8.ofNat old) (bodyOf next.content ++ spread next.size more) gap (prevEntryLengthLarge cell.size) gap_size
    (by simp [prevEntryLengthLarge, le_length])
  have tail_small : 10 + front.length + weight (cell :: next :: more).dropLast < 256 ^ 4 := by
    have shorter := weight_drop_last (cell :: next :: more)
    omega
  have count : 10 + front.length + weight (cell :: next :: more) + 1 - (10 + front.length + cell.size) - 1 - 1 =
      (bodyOf next.content).length + weight more := by
    simp only [weight, body]
    omega
  simp only [List.length_append, header_length, cell_length, spread_length, List.append_assoc, ← Nat.add_assoc] at widened
  simp only [cascadeGrow, show 5 - 1 = 4 from rfl, resized, Option.bind_eq_bind, Option.bind_some,
    ziplist_tail_offset _ _ _ _ tail_small, retail, narrow_bytes, List.append_assoc, count, zipStorePrevEntryLength,
    field, List.length_append, cell_length, ← Nat.add_assoc, widened]
  have total : 10 + (front ++ cell.bytes prev).length + weight (⟨true, next.content⟩ :: more) + 1 =
      10 + front.length + weight (cell :: next :: more) + 1 + 4 := by
    simp only [List.length_append, cell_length, weight, size]
    omega
  rw [staged, total, show Cell.bytes cell.size ⟨true, next.content⟩ =
    prevEntryLengthLarge cell.size ++ bodyOf next.content from rfl]
  simp only [List.append_assoc, List.length_append, cell_length, ← Nat.add_assoc]

section Stages

variable {front : Block} {prev : Nat} {cell : Cell} {old : Nat} {back : List Cell} {length : Nat}

theorem staged_cell : Holds (staged front prev cell old back length) (10 + front.length) (cell.bytes prev) :=
  held_behind ..

theorem staged_rest :
    Holds (staged front prev cell old back length) (10 + front.length + cell.size) (spread old back ++ [zipEnd]) := by
  have rest := held_rest (10 + front.length + weight (cell :: back) + 1) (10 + front.length + weight (cell :: back).dropLast)
    length front (cell.bytes prev) (spread old back ++ [zipEnd])
  rwa [cell_length] at rest

theorem staged_next (next : Cell) (more : List Cell) (parts : back = next :: more) :
    Holds (staged front prev cell old back length) (10 + front.length + cell.size) (next.bytes old) := by
  have rest := @staged_rest front prev cell old back length
  rw [parts, spread, List.append_assoc] at rest
  rw [parts]
  exact holds_left rest

-- The length before the next entry is written where it stands.
theorem staged_store (next : Cell) (more : List Cell) (field : Block) (same : field = prevField next.wide cell.size) :
    store (staged front prev cell old (next :: more) length) (10 + front.length + cell.size) field =
      some (staged front prev cell cell.size (next :: more) length) := by
  have split : staged front prev cell old (next :: more) length =
      (header (10 + front.length + weight (cell :: next :: more) + 1)
        (10 + front.length + weight (cell :: next :: more).dropLast) length ++ (front ++ cell.bytes prev)) ++
            (prevField next.wide old ++ (bodyOf next.content ++ (spread next.size more ++ [zipEnd]))) := by
    simp [staged, spread, Cell.bytes]
  rw [store_at split (by simp [header_length, cell_length, Nat.add_assoc])
    (by rw [same, prev_field_length, prev_field_length]), same]
  simp [staged, spread, Cell.bytes]

-- The first of the entries behind may count as the one that is in order.
theorem staged_shift (next : Cell) (more : List Cell) :
    staged (front ++ cell.bytes prev) cell.size next next.size more length =
    staged front prev cell cell.size (next :: more) length := by
  have total : 10 + (front ++ cell.bytes prev).length + weight (next :: more) =
      10 + front.length + weight (cell :: next :: more) := by
    simp only [List.length_append, cell_length, weight]
    omega
  have tail : 10 + (front ++ cell.bytes prev).length + weight (next :: more).dropLast =
      10 + front.length + weight (cell :: next :: more).dropLast := by
    simp only [List.length_append, cell_length, List.dropLast_cons_cons, weight]
    omega
  simp only [staged, total, tail, spread, List.append_assoc]

end Stages

theorem cascade_last (fuel : Nat) (front : Block) (prev : Nat) (cell : Cell) (old length curlen : Nat) (fits : cell.Fits prev) :
    cascadeLoop stale (fuel + 1) (staged front prev cell old [] length) (10 + front.length) curlen =
    some (staged front prev cell old [] length) := by
  have here := @staged_cell front prev cell old [] length
  obtain ⟨byte, first, inside, _⟩ := first_byte fits here
  have ended := byte_holds (@staged_rest front prev cell old [] length)
  simp only [cascadeLoop, first, inside, zip_entry fits here, entry_size, ended, Option.bind_eq_bind,
    Option.bind_some, if_false, if_true]

theorem cascade_step (fuel : Nat) (front : Block) (prev : Nat) (cell : Cell) (old : Nat) (next : Cell) (more : List Cell)
    (length curlen : Nat) (fits : cell.Fits prev) (follows : next.Fits old) :
    cascadeLoop stale (fuel + 1) (staged front prev cell old (next :: more) length) (10 + front.length) curlen =
      let np := 10 + front.length + cell.size
      let field := prevEntryLength cell.size
      if old = cell.size then some (staged front prev cell old (next :: more) length)
      else if fieldSize next.wide < field.length then
        (cascadeGrow stale (staged front prev cell old (next :: more) length) np curlen cell.size field.length
          (fieldSize next.wide)).bind fun zl => cascadeLoop stale fuel zl np (curlen + (field.length - fieldSize next.wide))
      else if fieldSize next.wide > field.length then
        zipStorePrevEntryLengthLarge (staged front prev cell old (next :: more) length) np cell.size
      else zipStorePrevEntryLength (staged front prev cell old (next :: more) length) np cell.size := by
  have here := @staged_cell front prev cell old (next :: more) length
  have there := @staged_next front prev cell old (next :: more) length next more rfl
  obtain ⟨byte, first, inside, _⟩ := first_byte fits here
  obtain ⟨nextByte, ahead, nextInside, _⟩ := first_byte follows there
  have held : (next.entry old).prevrawlen = old := rfl
  have taken : (next.entry old).prevrawlensize = fieldSize next.wide := rfl
  simp only [cascadeLoop, first, inside, zip_entry fits here, entry_size, ahead, nextInside, zip_entry follows there, held, taken,
    Option.bind_eq_bind, Option.bind_some, if_false]

-- What the loop does at an entry whose field has to change: it makes room, or
-- it writes into the room there is.
theorem cascade_change (fuel : Nat) (front : Block) (prev : Nat) (cell : Cell) (old : Nat) (next : Cell) (more : List Cell)
    (length : Nat) (fits : cell.Fits prev) (follows : next.Fits old) (changed : old ≠ cell.size)
    (room : 10 + front.length + weight (cell :: next :: more) + 1 + 4 < 256 ^ 4) :
    cascadeLoop stale (fuel + 1) (staged front prev cell old (next :: more) length) (10 + front.length)
        (10 + front.length + weight (cell :: next :: more) + 1) =
      if next.wide = false ∧ zipBigPrevlen ≤ cell.size then
        cascadeLoop stale fuel (staged (front ++ cell.bytes prev) cell.size ⟨true, next.content⟩ next.size more length)
          (10 + (front ++ cell.bytes prev).length)
          (10 + (front ++ cell.bytes prev).length + weight (⟨true, next.content⟩ :: more) + 1)
      else some (staged front prev cell cell.size (next :: more) length) := by
  have step := cascade_step stale fuel front prev cell old next more length
    (10 + front.length + weight (cell :: next :: more) + 1) fits follows
  simp only [if_neg changed] at step
  rw [step]
  have five : (prevEntryLengthLarge cell.size).length = 5 := by simp [prevEntryLengthLarge, le_length]
  by_cases small : cell.size < zipBigPrevlen
  · have field : prevEntryLength cell.size = [UInt8.ofNat cell.size] := if_pos small
    have stays : ¬ (next.wide = false ∧ zipBigPrevlen ≤ cell.size) := fun grows => absurd small (Nat.not_lt.mpr grows.2)
    simp only [if_neg stays, field, List.length_singleton, zipStorePrevEntryLength, zipStorePrevEntryLengthLarge]
    cases wide : next.wide with
    | true => exact staged_store next more _ (by simp [prevField, wide])
    | false => exact staged_store next more _ (by simp [prevField, wide])
  · have field : prevEntryLength cell.size = prevEntryLengthLarge cell.size := if_neg small
    cases wide : next.wide with
    | true =>
        simp only [field, five, fieldSize, if_true, zipStorePrevEntryLength, Nat.lt_irrefl, gt_iff_lt, if_false,
          Bool.true_eq_false, false_and]
        exact staged_store next more _ (by simp [prevField, wide])
    | false =>
        have grown := cascade_grow stale front prev cell old next more length wide (by omega) room
        have large : zipBigPrevlen ≤ cell.size := by omega
        have place : 10 + (front ++ cell.bytes prev).length = 10 + front.length + cell.size :=
          by simp [cell_length, Nat.add_assoc]
        have total : 10 + (front ++ cell.bytes prev).length + weight (⟨true, next.content⟩ :: more) + 1 =
            10 + front.length + weight (cell :: next :: more) + 1 + (5 - 1) := by
          simp only [place, weight, wide_size next wide]
          omega
        have narrower : 1 < 5 := by decide
        simp only [field, five, fieldSize, Bool.false_eq_true, if_false, narrower, if_true,
          grown, Option.bind_some, large, and_self]
        rw [total, place]

-- From the first entry whose length has changed on, every entry gets the right
-- length before it, and more room for it where it needs that.
theorem cascade_loop (fuel : Nat) (front : Block) (prev : Nat) (cell : Cell) (old : Nat) (back : List Cell) (length : Nat)
    (fits : cell.Fits prev) (fit : AllFit old back) (enough : back.length < fuel)
    (room : 10 + front.length + weight (cell :: back) + 1 + 4 * back.length < 256 ^ 4) :
    ∃ after, cascadeLoop stale fuel (staged front prev cell old back length) (10 + front.length)
    (10 + front.length + weight (cell :: back) + 1) =
        some (staged front prev cell cell.size after length) ∧
      after.map Cell.content = back.map Cell.content ∧ AllFit cell.size after ∧ weight after ≤ weight back + 4 * back.length := by
  induction back generalizing fuel front prev cell old with
  | nil =>
      obtain ⟨fuel, rfl⟩ := Nat.exists_eq_add_of_lt enough
      exact ⟨[], cascade_last stale _ front prev cell old length _ fits, rfl, trivial, Nat.le_add_right ..⟩
  | cons next more ih =>
      match fuel, enough with
      | fuel + 1, enough =>
        have step := cascade_step stale fuel front prev cell old next more length
          (10 + front.length + weight (cell :: next :: more) + 1) fits fit.1
        have smaller := fits.size
        rw [List.length_cons] at room enough ⊢
        by_cases unchanged : old = cell.size
        · simp only [if_pos unchanged] at step
          exact ⟨next :: more, by rw [step, unchanged], rfl, unchanged ▸ fit, Nat.le_add_right ..⟩
        · rw [cascade_change stale fuel front prev cell old next more length fits fit.1 unchanged (by omega)]
          by_cases grows : next.wide = false ∧ zipBigPrevlen ≤ cell.size
          · have size := wide_size next grows.1
            have place : (front ++ cell.bytes prev).length = front.length + cell.size := by simp [cell_length]
            have widened : Cell.Fits cell.size ⟨true, next.content⟩ := ⟨by simp, smaller, by simp only [weight] at room; omega⟩
            obtain ⟨after, ran, contents, fit, bound⟩ :=
              ih fuel (front ++ cell.bytes prev) cell.size ⟨true, next.content⟩ next.size widened fit.2
              (by omega) (by simp only [place, weight, size] at room ⊢; omega)
            refine ⟨⟨true, next.content⟩ :: after, ?_, by simp [contents], ⟨widened, fit⟩, by simp only [weight, size]; omega⟩
            rw [if_pos grows, ran, staged_shift]
          · refine ⟨next :: more, by rw [if_neg grows], rfl, ⟨⟨?_, smaller, fit.1.size⟩, fit.2⟩, Nat.le_add_right ..⟩
            intro narrow
            exact Nat.lt_of_not_le fun large => grows ⟨narrow, large⟩

theorem cascade_update (front : Block) (prev : Nat) (cell : Cell) (old : Nat) (back : List Cell) (length : Nat)
    (fits : cell.Fits prev) (fit : AllFit old back)
    (room : 10 + front.length + weight (cell :: back) + 1 + 4 * back.length < 256 ^ 4) :
    ∃ after, ziplistCascadeUpdate stale (staged front prev cell old back length) (10 + front.length) =
        some (staged front prev cell cell.size after length) ∧
      after.map Cell.content = back.map Cell.content ∧ AllFit cell.size after ∧ weight after ≤ weight back + 4 * back.length := by
  have bytes : ziplistBytes (staged front prev cell old back length) = some (10 + front.length + weight (cell :: back) + 1) :=
    ziplist_bytes _ _ _ _ (by omega)
  have enough : back.length < (staged front prev cell old back length).length := by
    have counted := length_le_weight back
    simp only [staged, List.length_append, header_length, cell_length, spread_length, List.length_singleton]
    omega
  simp only [ziplistCascadeUpdate, bytes, Option.bind_eq_bind, Option.bind_some]
  exact cascade_loop stale _ front prev cell old back length fits fit enough room

end Cascading

-- The bytes behind head move by reqlen, where their first field is replaced by
-- one that may have another length.
theorem shift_right (head field rest gap field' : Block) (reqlen : Nat)
    (sizes : field.length + gap.length = reqlen + field'.length) (long : field'.length ≤ head.length + field.length) :
    ∃ room : Block, room.length = reqlen ∧
      (memmove (head ++ (field ++ (rest ++ (gap ++ [zipEnd])))) (head.length + reqlen)
        (head.length + field.length - field'.length) (field'.length + rest.length)).bind (store · (head.length + reqlen) field') =
        some (head ++ (room ++ (field' ++ (rest ++ [zipEnd])))) := by
  obtain ⟨kept, slot, cut, kept_size⟩ := split_at_length (head ++ field) (head.length + field.length - field'.length) (by simp)
  have slot_size : slot.length = field'.length := by
    have same := congrArg List.length cut
    simp only [List.length_append] at same
    omega
  obtain ⟨room, held, parts, room_size⟩ :=
    split_at_length (field ++ (rest ++ gap)) reqlen (by simp only [List.length_append]; omega)
  have held_size : held.length = field'.length + rest.length := by
    have same := congrArg List.length parts
    simp only [List.length_append] at same
    omega
  have source : head ++ (field ++ (rest ++ (gap ++ [zipEnd]))) = kept ++ ((slot ++ rest) ++ (gap ++ [zipEnd])) := by
    rw [← List.append_assoc, cut]
    simp
  have target : head ++ (field ++ (rest ++ (gap ++ [zipEnd]))) = (head ++ room) ++ (held ++ [zipEnd]) := by
    rw [List.append_assoc, ← List.append_assoc room, ← parts]
    simp
  refine ⟨room, room_size, ?_⟩
  rw [memmove_at source kept_size.symm (by simp [slot_size]) target (by simp [room_size])
    (by simp [slot_size, held_size]), Option.bind_some,
    store_at (show _ = (head ++ room) ++ (slot ++ (rest ++ [zipEnd])) by simp) (by simp [room_size]) slot_size.symm]
  simp

section Tail

variable (next : Cell) (more : List Cell) (length : Nat) (wide : Bool)

theorem rewidened_size : (Cell.size ⟨wide, next.content⟩ : Int) = next.size + (fieldSize wide - fieldSize next.wide : Int) := by
  simp only [Cell.size]
  omega

-- An entry with its new field, and whether another one follows it.
theorem after_cell (prev : Nat) (fit : AllFit next.size more) (fits : Cell.Fits prev ⟨wide, next.content⟩)
    (total base : Nat) (body : Block) :
    zipEntry (header total base length ++ (body ++ (Cell.bytes prev ⟨wide, next.content⟩ ++ (spread next.size more ++ [zipEnd]))))
    (10 + body.length) =
        some (Cell.entry prev ⟨wide, next.content⟩) ∧
      ∃ byte, (header total base length ++
        (body ++ (Cell.bytes prev ⟨wide, next.content⟩ ++ (spread next.size more ++ [zipEnd]))))[10 + body.length +
          Cell.size ⟨wide, next.content⟩]? = some byte ∧ (byte = zipEnd ↔ more = []) := by
  have rest := held_rest total base length body (Cell.bytes prev ⟨wide, next.content⟩) (spread next.size more ++ [zipEnd])
  rw [cell_length] at rest
  refine ⟨zip_entry fits (held_behind ..), ?_⟩
  cases more with
  | nil => exact ⟨zipEnd, byte_holds rest, by simp⟩
  | cons last others =>
      rw [spread, List.append_assoc] at rest
      obtain ⟨byte, first, inside, _⟩ := first_byte fit.1 (holds_left rest)
      rw [spread, List.append_assoc]
      exact ⟨byte, first, by simp [inside]⟩

-- The tail moves with the entries before it, except with its own field.
theorem tail_adjusted (total base origin : Nat) (byte : UInt8) (isEnd : byte = zipEnd ↔ more = [])
    (isBase : base = origin + weight (next :: more).dropLast) (rest : Block) :
    (if byte ≠ zipEnd then setZiplistTailOffset (header total base length ++ rest)
      (base + (fieldSize wide - fieldSize next.wide : Int) : Int).toNat
      else some (header total base length ++ rest)) =
      some (header total (origin + weight (⟨wide, next.content⟩ :: more).dropLast) length ++ rest) := by
  cases more with
  | nil =>
      rw [if_neg (by simpa using isEnd), isBase]
      rfl
  | cons last others =>
      have size := rewidened_size next wide
      rw [if_pos (by simpa using isEnd), set_ziplist_tail_offset]
      congr 3
      simp only [List.dropLast_cons_cons, weight] at isBase ⊢
      omega

end Tail

-- The count of entries, as long as it fits its field.
theorem incr_length (bytes tail length : Nat) (rest : Block) (cells after : List Cell) (incr : Int) (counts : Counts length cells)
    (counted : (after.length : Int) = cells.length + incr) (single : incr ≤ 1) :
    ∃ now, ziplistIncrLength (header bytes tail length ++ rest) incr =
    some (header bytes tail now ++ rest) ∧ Counts now after := by
  have small : length < 256 ^ 2 := by
    rcases counts with ⟨_, small⟩ | rfl
    · simp only [uint16Max] at small
      omega
    · decide
  simp only [ziplistIncrLength, ziplist_length _ _ _ _ small, Option.bind_eq_bind, Option.bind_some]
  rcases counts with ⟨rfl, exact⟩ | rfl
  · have word : wordOf 2 (cells.length + incr) = after.length := by
      simp only [wordOf, uint16Max] at exact ⊢
      omega
    refine ⟨after.length, by rw [if_pos exact, set_ziplist_length, word], ?_⟩
    rcases Nat.lt_or_ge after.length uint16Max with fewer | full
    · exact .inl ⟨rfl, fewer⟩
    · exact .inr (by omega)
  · exact ⟨uint16Max, by rw [if_neg (Nat.lt_irrefl _)], .inr rfl⟩

theorem staged_count (front : Block) (prev : Nat) (cell : Cell) (old : Nat) (back : List Cell) (length : Nat)
    (cells after : List Cell) (incr : Int) (counts : Counts length cells)
    (counted : (after.length : Int) = cells.length + incr) (single : incr ≤ 1) :
    ∃ now, ziplistIncrLength (staged front prev cell old back length) incr =
    some (staged front prev cell old back now) ∧ Counts now after :=
  incr_length _ _ length _ cells after incr counts counted single

end Redis
