import PlannerBackend.ZiplistInsert

set_option autoImplicit false

namespace Redis

open Memory

theorem skip_entries (zl : Block) (cells : List Cell) (lists : Lists zl cells) (num : Nat) (front back : List Cell)
    (parts : cells = front ++ back) (deleted : Nat) :
    skipEntries zl num (offsetOf front) deleted = some (offsetOf (front ++ back.take num), deleted + (back.take num).length) := by
  induction num generalizing front back deleted with
  | zero => simp [skipEntries]
  | succ num ih =>
      cases back with
      | nil =>
          rw [List.append_nil] at parts
          subst parts
          simp [skipEntries, end_at lists]
      | cons cell back =>
          obtain ⟨fits, holds⟩ := cell_at lists front cell back parts
          obtain ⟨byte, first, inside, _⟩ := first_byte fits holds
          have rest := ih (front ++ [cell]) back (by simp [parts]) (deleted + 1)
          rw [offset_snoc] at rest
          simp only [skipEntries, first, inside, raw_entry_length fits holds, Option.bind_eq_bind, Option.bind_some,
            if_false, rest, List.take_succ_cons, List.append_assoc, List.singleton_append, List.length_cons]
          congr 2
          omega

section Shifting

variable (front gone : List Cell) (next : Cell) (more : List Cell) (length prev : Nat) (wide : Bool)

-- The length before the next entry is written so that the field ends where the
-- old one did, over the end of what is deleted if need be.
theorem field_relinked (old : Nat) (deleted : Block) (isDeleted : deleted.length = weight gone)
    (written : prevEntryLength prev = prevField wide prev) (enough : fieldSize wide ≤ weight gone + fieldSize next.wide)
    (total tail : Nat) :
    ∃ kept : Block, kept.length + fieldSize wide = weight gone + fieldSize next.wide ∧
      zipStorePrevEntryLength (header total tail length ++
          (spread 0 front ++ (deleted ++ (next.bytes old ++ (spread next.size more ++ [zipEnd])))))
        (10 + (spread 0 front ++ kept).length) prev =
      some (header total tail length ++
        ((spread 0 front ++ kept) ++ (Cell.bytes prev ⟨wide, next.content⟩ ++ (spread next.size more ++ [zipEnd])))) := by
  obtain ⟨kept, slot, cut, kept_size⟩ :=
    split_at_length (deleted ++ prevField next.wide old) (weight gone + fieldSize next.wide - fieldSize wide)
      (by rw [List.length_append, isDeleted, prev_field_length]; omega)
  have slot_size : slot.length = fieldSize wide := by
    have same := congrArg List.length cut
    simp only [List.length_append, isDeleted, prev_field_length] at same
    omega
  refine ⟨kept, by omega, ?_⟩
  have split : header total tail length ++
      (spread 0 front ++ (deleted ++ (next.bytes old ++ (spread next.size more ++ [zipEnd])))) =
      (header total tail length ++ (spread 0 front ++ kept)) ++
        (slot ++ (bodyOf next.content ++ (spread next.size more ++ [zipEnd]))) := by
    simp only [Cell.bytes, List.append_assoc]
    rw [← List.append_assoc deleted, cut]
    simp only [List.append_assoc]
  rw [zipStorePrevEntryLength, written,
    store_at split (by simp only [List.length_append, header_length]) (by rw [prev_field_length, slot_size])]
  simp only [Cell.bytes, List.append_assoc]

theorem moved_up (kept moved : Block) (total tail : Nat) :
    ∃ junk : Block, junk.length = kept.length ∧
      memmove (header total tail length ++ ((spread 0 front ++ kept) ++ (moved ++ [zipEnd])))
        (offsetOf front) (10 + (spread 0 front ++ kept).length) moved.length =
      some (header total tail length ++ (spread 0 front ++ (moved ++ (junk ++ [zipEnd])))) := by
  have start : 10 + (spread 0 front).length = offsetOf front := by rw [spread_length, offsetOf]
  obtain ⟨held, junk, parts, held_size⟩ := split_at_length (kept ++ moved) moved.length (by simp)
  have junk_size : junk.length = kept.length := by
    have same := congrArg List.length parts
    simp only [List.length_append] at same
    omega
  refine ⟨junk, junk_size, ?_⟩
  rw [memmove_at (show _ = (header total tail length ++ (spread 0 front ++ kept)) ++ (moved ++ [zipEnd]) by
      simp only [List.append_assoc])
    (by simp only [List.length_append, header_length]) rfl
    (show _ = (header total tail length ++ spread 0 front) ++ (held ++ (junk ++ [zipEnd])) by
      rw [← List.append_assoc held, ← parts]
      simp only [List.append_assoc])
    (by rw [List.length_append, header_length, start]) held_size.symm]
  simp only [List.append_assoc]

-- The entries behind the deleted ones move up to the place of the first, with
-- the new length before them. What they leave behind is cut off later.
theorem delete_shift (old : Nat) (deleted : Block) (isDeleted : deleted.length = weight gone)
    (written : prevEntryLength prev = prevField wide prev) (enough : fieldSize wide ≤ weight gone + fieldSize next.wide)
    (fit : AllFit next.size more) (fits : Cell.Fits prev ⟨wide, next.content⟩) (total : Nat)
    (isTotal : total = offsetOf front + weight gone + weight (next :: more) + 1) (small : total < 256 ^ 4) :
    ∃ junk : Block, junk.length + fieldSize wide = weight gone + fieldSize next.wide ∧
      deleteShift (header total (offsetOf front + weight gone + weight (next :: more).dropLast) length ++
          (spread 0 front ++ (deleted ++ (next.bytes old ++ (spread next.size more ++ [zipEnd])))))
        (offsetOf front + weight gone) (offsetOf front) (weight gone) prev (fieldSize wide - fieldSize next.wide : Int) =
      some (header total (offsetOf front + weight (⟨wide, next.content⟩ :: more).dropLast) length ++
        (spread 0 front ++ (Cell.bytes prev ⟨wide, next.content⟩ ++ (spread next.size more ++ (junk ++ [zipEnd]))))) := by
  have start : 10 + (spread 0 front).length = offsetOf front := by rw [spread_length, offsetOf]
  obtain ⟨kept, kept_size, stored⟩ := field_relinked front gone next more length prev wide old deleted isDeleted written
    enough total (offsetOf front + weight gone + weight (next :: more).dropLast)
  have place : (((offsetOf front + weight gone : Nat) : Int) - (fieldSize wide - fieldSize next.wide : Int)).toNat =
      10 + (spread 0 front ++ kept).length := by
    rw [List.length_append, ← Nat.add_assoc, start]
    omega
  -- The offset of the tail is set twice: less what is deleted, then adjusted to
  -- the new field unless the next entry is the last.
  have shorter := weight_drop_last (next :: more)
  have tail : offsetOf front + weight gone + weight (next :: more).dropLast < 256 ^ 4 := by omega
  have base : offsetOf front + weight gone + weight (next :: more).dropLast - weight gone =
      offsetOf front + weight (next :: more).dropLast := by omega
  have differs : (((offsetOf front + weight gone + weight (next :: more).dropLast : Nat) : Int) - (weight gone : Nat) +
      (fieldSize wide - fieldSize next.wide : Int)) =
      ((offsetOf front + weight (next :: more).dropLast : Nat) : Int) + (fieldSize wide - fieldSize next.wide : Int) := by omega
  obtain ⟨entry, byte, first, isEnd⟩ := after_cell next more length wide prev fit fits total
    (offsetOf front + weight (next :: more).dropLast) (spread 0 front ++ kept)
  have adjusted := tail_adjusted next more length wide total (offsetOf front + weight (next :: more).dropLast)
    (offsetOf front) byte isEnd rfl
    ((spread 0 front ++ kept) ++ (Cell.bytes prev ⟨wide, next.content⟩ ++ (spread next.size more ++ [zipEnd])))
  have moved_size : (Cell.bytes prev ⟨wide, next.content⟩ ++ spread next.size more).length =
      weight (⟨wide, next.content⟩ :: more) := by
    rw [List.length_append, cell_length, spread_length, weight]
  have count : total - (10 + (spread 0 front ++ kept).length) - 1 = weight (⟨wide, next.content⟩ :: more) := by
    have size := rewidened_size next wide
    rw [List.length_append, ← Nat.add_assoc, start, isTotal]
    simp only [weight]
    omega
  obtain ⟨junk, junk_size, moved⟩ := moved_up front length kept
    (Cell.bytes prev ⟨wide, next.content⟩ ++ spread next.size more) total
    (offsetOf front + weight (⟨wide, next.content⟩ :: more).dropLast)
  refine ⟨junk, by omega, ?_⟩
  simp only [moved_size, List.append_assoc] at moved stored adjusted entry first
  simp only [deleteShift, place, stored, Option.bind_eq_bind, Option.bind_some,
    ziplist_tail_offset _ _ _ _ tail, set_ziplist_tail_offset _ _ _ _ (offsetOf front + weight (next :: more).dropLast),
    base, entry, entry_size, first, differs, adjusted, ziplist_bytes _ _ _ _ small, count, moved]

end Shifting

theorem offset_drop_last (front : List Cell) : offsetOf front - lastSize 0 front = offsetOf front.dropLast := by
  rcases List.eq_nil_or_concat' front with rfl | ⟨front, last, rfl⟩
  · rfl
  · rw [List.dropLast_concat, last_size_snoc, offset_snoc, Nat.add_sub_cancel]

theorem staged_lists (front : List Cell) (cell : Cell) (back : List Cell) (length : Nat) :
    staged (spread 0 front) (lastSize 0 front) cell cell.size back length =
      header (offsetOf (front ++ cell :: back) + 1) (offsetOf (front ++ cell :: back).dropLast) length ++
      (spread 0 (front ++ cell :: back) ++ [zipEnd]) := by
  have start : 10 + (spread 0 front).length = offsetOf front := by rw [spread_length, offsetOf]
  rw [staged, start, List.dropLast_append_of_ne_nil (by simp), offset_append, offset_append, spread_append, spread]
  simp only [List.append_assoc]

section Relinking

variable (front gone : List Cell) (next : Cell) (more : List Cell) (prev : Nat)

-- The first of the deleted entries had the same entry before it.
theorem room_for_field (fitGone : AllFit prev gone) (some_ : gone ≠ []) :
    fieldSize (freshCell prev next.content).wide ≤ weight gone + fieldSize next.wide := by
  have bounds : ∀ wide, 1 ≤ fieldSize wide ∧ fieldSize wide ≤ 5 := by decide
  have own := bounds (freshCell prev next.content).wide
  have other := bounds next.wide
  cases gone with
  | nil => exact absurd rfl some_
  | cons cell rest =>
      rw [weight, Cell.size]
      cases wide : cell.wide with
      | true =>
          have five : fieldSize true = 5 := rfl
          omega
      | false =>
          have small : ¬ zipBigPrevlen ≤ prev := Nat.not_le.mpr (fitGone.1.narrow wide)
          have one : fieldSize (freshCell prev next.content).wide = 1 := by
            rw [freshCell, decide_eq_false small]
            rfl
          omega

theorem relinked_weight : weight (freshCell prev next.content :: more) + fieldSize next.wide =
    weight (next :: more) + fieldSize (freshCell prev next.content).wide := by
  simp only [weight, Cell.size, freshCell]
  omega

-- The entries are moved, and what they leave is cut off.
theorem delete_cut (stale : Nat → UInt8) (junk : Block) (total tail length : Nat)
    (isTotal : total = offsetOf front + weight gone + weight (next :: more) + 1)
    (isTail : tail = offsetOf front + weight (freshCell prev next.content :: more).dropLast) :
    ziplistResize stale
        (header total tail length ++
          (spread 0 front ++ ((freshCell prev next.content).bytes prev ++ (spread next.size more ++ (junk ++ [zipEnd])))))
        ((total : Nat) - (weight gone : Nat) +
          (fieldSize (freshCell prev next.content).wide - fieldSize next.wide : Int) : Int).toNat =
      some (staged (spread 0 front) prev (freshCell prev next.content) next.size more length) := by
  have heavier := relinked_weight next more prev
  have kept_size : (spread 0 front ++ ((freshCell prev next.content).bytes prev ++ spread next.size more)).length =
      weight front + weight (freshCell prev next.content :: more) := by
    rw [List.length_append, List.length_append, spread_length, spread_length, cell_length, weight]
  have cut := resize_shrink stale total tail length
    (spread 0 front ++ ((freshCell prev next.content).bytes prev ++ spread next.size more)) (junk ++ [zipEnd]) (by simp)
  have size : ((total : Nat) - (weight gone : Nat) +
      (fieldSize (freshCell prev next.content).wide - fieldSize next.wide : Int) : Int).toNat =
      10 + (spread 0 front ++ ((freshCell prev next.content).bytes prev ++ spread next.size more)).length + 1 := by
    rw [kept_size, isTotal]
    simp only [offsetOf]
    omega
  rw [size]
  simp only [List.append_assoc] at cut
  rw [cut, staged, isTail, kept_size, spread_length, offsetOf, ← Nat.add_assoc 10 (weight front)]

end Relinking

section Deleting

theorem weight_pos (cells : List Cell) (some_ : cells ≠ []) : 0 < weight cells := by
  have counted := length_le_weight cells
  have present := List.length_pos_iff.mpr some_
  omega

variable (stale : Nat → UInt8) (zl : Block) (cells front gone : List Cell) (lists : Lists zl cells) (some_ : gone ≠ [])
include lists some_

-- All entries from the place on are deleted.
theorem delete_tail (parts : cells = front ++ gone) :
    ∃ next, deleteFound stale zl (offsetOf front) (offsetOf cells) gone.length (lastSize 0 front) =
    some next ∧ Lists next front := by
  obtain ⟨length, split, counts⟩ := lists.split
  have positive := weight_pos gone some_
  have total : offsetOf cells = offsetOf front + weight gone := by rw [parts, offset_append]
  have entries : spread 0 cells = spread 0 front ++ spread (lastSize 0 front) gone := by rw [parts, spread_append]
  have start : 10 + (spread 0 front).length = offsetOf front := by rw [spread_length, offsetOf]
  have small := lists.small
  have fit := lists.fit
  rw [parts, all_fit_append] at fit
  have shrunk := resize_shrink stale (offsetOf cells + 1) (offsetOf front.dropLast) length (spread 0 front)
    (spread (lastSize 0 front) gone ++ [zipEnd]) (by simp)
  have size : (((offsetOf cells + 1 : Nat) : Int) - (offsetOf cells - offsetOf front : Nat) + 0).toNat =
      10 + (spread 0 front).length + 1 := by omega
  obtain ⟨now, counted, counts⟩ :=
    incr_length (offsetOf front + 1) (offsetOf front.dropLast) length (spread 0 front ++ [zipEnd]) cells front
    (-(gone.length : Nat)) counts (by rw [parts, List.length_append]; omega) (by omega)
  refine ⟨_, ?_, ⟨now, rfl, counts⟩, fit.1, by omega⟩
  rw [start] at shrunk size
  simp only [deleteFound,
    show offsetOf cells - offsetOf front > 0 by omega, if_true, end_at lists, Option.bind_eq_bind, Option.bind_some, ne_eq,
    not_true_eq_false, if_false, offset_drop_last]
  simp only [split, entries, List.append_assoc, set_ziplist_tail_offset, Option.bind_some,
    ziplist_bytes _ _ _ _ small, size, shrunk, counted]

-- The entry behind the deleted ones takes the length of the entry before them,
-- and a change of its own length goes on to those behind it.
theorem delete_moves (next : Cell) (more : List Cell) (parts : cells = front ++ (gone ++ next :: more))
    (widened : (freshCell (lastSize 0 front) next.content).Fits (lastSize 0 front)) :
    ∃ now, Counts now (front ++ freshCell (lastSize 0 front) next.content :: more) ∧
      deleteFound stale zl (offsetOf front) (offsetOf (front ++ gone)) gone.length (lastSize 0 front) =
        if (fieldSize (freshCell (lastSize 0 front) next.content).wide - fieldSize next.wide : Int) ≠ 0 then
          ziplistCascadeUpdate stale
          (staged (spread 0 front) (lastSize 0 front) (freshCell (lastSize 0 front) next.content) next.size more now)
          (offsetOf front)
        else some (staged (spread 0 front) (lastSize 0 front)
          (freshCell (lastSize 0 front) next.content) next.size more now) := by
  obtain ⟨length, split, counts⟩ := lists.split
  have positive := weight_pos gone some_
  have small := lists.small
  have place : offsetOf (front ++ gone) = offsetOf front + weight gone := offset_append front gone
  have total : offsetOf cells = offsetOf front + weight gone + weight (next :: more) := by
    rw [parts, offset_append, weight_append, Nat.add_assoc]
  have span : offsetOf (front ++ gone) - offsetOf front = weight gone := by omega
  have tail : offsetOf cells.dropLast = offsetOf front + weight gone + weight (next :: more).dropLast := by
    rw [parts, ← List.append_assoc, List.dropLast_append_of_ne_nil (by simp), offset_append, place]
  have entries : spread 0 cells =
      spread 0 front ++ (spread (lastSize 0 front) gone ++
          (next.bytes (lastSize 0 (front ++ gone)) ++ spread next.size more)) := by
    rw [parts, spread_append, spread_append, spread, last_size_append]
  obtain ⟨fits, holds⟩ := cell_at lists (front ++ gone) next more (by simp [parts])
  obtain ⟨byte, first, inside, _⟩ := first_byte fits holds
  have fit := lists.fit
  rw [parts, all_fit_append, all_fit_append] at fit
  have field := fresh_field (lastSize 0 front) next.content
  obtain ⟨junk, _, shifted⟩ :=
    delete_shift front gone next more length (lastSize 0 front) (freshCell (lastSize 0 front) next.content).wide
    (lastSize 0 (front ++ gone)) (spread (lastSize 0 front) gone) (spread_length ..) field
    (room_for_field gone next _ fit.2.1 some_) fit.2.2.2 widened (offsetOf cells + 1) (by omega) small
  have cut := delete_cut front gone next more (lastSize 0 front) stale junk (offsetOf cells + 1) _ length (by omega) rfl
  obtain ⟨now, counted, counts⟩ :=
    staged_count (spread 0 front) (lastSize 0 front) (freshCell (lastSize 0 front) next.content) next.size more length cells
    (front ++ freshCell (lastSize 0 front) next.content :: more) (-(gone.length : Nat)) counts
    (by rw [parts]; simp only [List.length_append, List.length_cons]; omega) (by omega)
  refine ⟨now, counts, ?_⟩
  have diff : zipPrevLenByteDiff zl (offsetOf (front ++ gone)) (lastSize 0 front) =
      some (fieldSize (freshCell (lastSize 0 front) next.content).wide - fieldSize next.wide : Int) := by
    simp only [zipPrevLenByteDiff, decode_prevlensize fits holds, Option.bind_eq_bind, Option.bind_some, field, prev_field_length]
    rfl
  have block : header (offsetOf cells + 1) (offsetOf front + weight gone + weight (next :: more).dropLast) length ++
      (spread 0 front ++ (spread (lastSize 0 front) gone ++
          (next.bytes (lastSize 0 (front ++ gone)) ++ (spread next.size more ++ [zipEnd])))) = zl := by
    rw [split, tail, entries]
    simp only [List.append_assoc]
  have same : (⟨(freshCell (lastSize 0 front) next.content).wide, next.content⟩ : Cell) =
      freshCell (lastSize 0 front) next.content := rfl
  rw [block, ← place, same] at shifted
  simp only [deleteFound, span, show weight gone > 0 from positive, if_true, first, inside, Option.bind_eq_bind,
    Option.bind_some, ne_eq, not_false_eq_true, diff, shifted, ziplist_bytes _ _ _ _ small, cut, counted]

theorem delete_between (next : Cell) (more : List Cell) (parts : cells = front ++ (gone ++ next :: more))
    (free : offsetOf front + weight (next :: more) + 1 + 4 * (more.length + 1) < 256 ^ 4) :
    ∃ block after, deleteFound stale zl (offsetOf front) (offsetOf (front ++ gone)) gone.length (lastSize 0 front) = some block ∧
      Lists block (front ++ after) ∧ after.map Cell.content = (next :: more).map Cell.content ∧
      weight after ≤ weight (next :: more) + 4 * (more.length + 1) := by
  have fit := lists.fit
  rw [parts, all_fit_append, all_fit_append] at fit
  obtain ⟨fitFront, _, _, fitMore⟩ := fit
  have heavier := relinked_weight next more (lastSize 0 front)
  have bounds : ∀ wide, 1 ≤ fieldSize wide ∧ fieldSize wide ≤ 5 := by decide
  have five := bounds (freshCell (lastSize 0 front) next.content).wide
  have one := bounds next.wide
  have below := fit_bound 0 front fitFront (by decide)
  have start : 10 + (spread 0 front).length = offsetOf front := by rw [spread_length, offsetOf]
  have widened : (freshCell (lastSize 0 front) next.content).Fits (lastSize 0 front) :=
    fresh_fits _ _ below (by simp only [weight] at free heavier; omega)
  obtain ⟨now, counts, ran⟩ := delete_moves stale zl cells front gone lists some_ next more parts widened
  have size := rewidened_size next (freshCell (lastSize 0 front) next.content).wide
  rw [ran]
  by_cases kept : (fieldSize (freshCell (lastSize 0 front) next.content).wide - fieldSize next.wide : Int) = 0
  · have same : next.size = (freshCell (lastSize 0 front) next.content).size := by
      simp only [Cell.size, freshCell] at kept ⊢
      omega
    refine ⟨_, freshCell (lastSize 0 front) next.content :: more, if_neg (by simpa using kept),
      ⟨⟨now, ?_, counts⟩, ?_, ?_⟩, rfl, by omega⟩
    · rw [same, staged_lists]
    · rw [all_fit_append]
      exact ⟨fitFront, widened, same ▸ fitMore⟩
    · rw [offset_append]
      omega
  · obtain ⟨after, cascaded, contents, fitAfter, bound⟩ :=
      cascade_update stale (spread 0 front) (lastSize 0 front) (freshCell (lastSize 0 front) next.content)
      next.size more now widened fitMore (by rw [start]; omega)
    rw [start, staged_lists] at cascaded
    have number : after.length = more.length := by simpa using congrArg List.length contents
    refine ⟨_, freshCell (lastSize 0 front) next.content :: after,
      by rw [if_pos kept, cascaded], ⟨⟨now, rfl, ?_⟩, ?_, ?_⟩, ?_, ?_⟩
    · simpa [Counts, number] using counts
    · rw [all_fit_append]
      exact ⟨fitFront, widened, fitAfter⟩
    · rw [offset_append]
      simp only [weight] at heavier free ⊢
      omega
    · rw [List.map_cons, contents]
      rfl
    · simp only [weight] at heavier ⊢
      omega

end Deleting

-- The entries from the place on, as many as are asked for, are gone.
theorem ziplist_delete_entries (stale : Nat → UInt8) (zl : Block) (cells front rest : List Cell) (lists : Lists zl cells)
    (parts : cells = front ++ rest) (some_ : rest ≠ []) (num : Nat)
    (free : offsetOf front + weight (rest.drop num) + 1 + 4 * (rest.drop num).length < 256 ^ 4) :
    ∃ block after, ziplistDeleteEntries stale zl (offsetOf front) num = some block ∧ Lists block (front ++ after) ∧
      after.map Cell.content = (rest.drop num).map Cell.content ∧
      weight after ≤ weight (rest.drop num) + 4 * (rest.drop num).length := by
  have read : (zipEntry zl (offsetOf front)).map Zlentry.prevrawlen = some (lastSize 0 front) := by
    cases rest with
    | nil => exact absurd rfl some_
    | cons cell others =>
        obtain ⟨fits, holds⟩ := cell_at lists front cell others parts
        rw [zip_entry fits holds]
        rfl
  obtain ⟨entry, isEntry, isPrev⟩ := Option.map_eq_some_iff.mp read
  have skipped := skip_entries zl cells lists num front rest parts 0
  rw [Nat.zero_add] at skipped
  have steps : ziplistDeleteEntries stale zl (offsetOf front) num =
      deleteFound stale zl (offsetOf front) (offsetOf (front ++ rest.take num)) (rest.take num).length (lastSize 0 front) := by
    simp only [ziplistDeleteEntries, isEntry, isPrev, skipped, Option.bind_eq_bind, Option.bind_some]
  have whole : rest = rest.take num ++ rest.drop num := (List.take_append_drop num rest).symm
  rw [steps]
  by_cases none_ : rest.take num = []
  · rw [none_, List.nil_append] at whole
    refine ⟨zl, rest, ?_, parts ▸ lists, by rw [← whole], by rw [← whole]; omega⟩
    rw [none_, List.append_nil]
    simp [deleteFound]
  · cases left : rest.drop num with
    | nil =>
        rw [left, List.append_nil] at whole
        rw [← whole] at none_ ⊢
        obtain ⟨block, ran, listed⟩ := delete_tail stale zl cells front rest lists none_ parts
        exact ⟨block, [], by rw [← parts, ran], by rwa [List.append_nil], rfl, Nat.le_refl _⟩
    | cons next more =>
        rw [left] at whole free
        exact delete_between stale zl cells front (rest.take num) lists none_ next more (by rw [parts, ← whole]) free

end Redis
