import PlannerBackend.Ziplist

set_option autoImplicit false

namespace Redis

open Memory

section Integers

-- An integer that is written under the encoding is read back.
structure Codes (value : Int) (encoding : Nat) (bytes : Block) : Prop where
  tag : 192 ≤ encoding ∧ encoding < 255
  written : integerBytes value encoding = some bytes
  size : zipIntSize encoding = some bytes.length
  read : ∀ m p, Holds m p bytes → zipLoadInteger m p encoding = some value

-- Two's complement in n bytes.
theorem word_read (n : Nat) (value : Int) (low : -(256 ^ n : Nat) ≤ 2 * value) (high : 2 * value < (256 ^ n : Nat))
    (m : Block) (p : Nat) (holds : Holds m p (le n (wordOf n value))) :
    (load m p n).map (fun bytes => signedOf n (unle bytes)) = some value := by
  have loaded := load_holds holds
  rw [le_length] at loaded
  rw [loaded, Option.map_some, unle_le n _ (word_of_lt n value), signed_word n value low high]

theorem immediate_apart (n : Nat) (small : n ≤ 12) :
    let encoding := zipIntImmMin + n
    encoding ≠ zipInt8B ∧ encoding ≠ zipInt16B ∧ encoding ≠ zipInt24B ∧ encoding ≠ zipInt32B ∧ encoding ≠ zipInt64B ∧
      zipIntImmMin ≤ encoding ∧ encoding ≤ zipIntImmMax := by
  simp only [zipInt8B, zipInt16B, zipInt24B, zipInt32B, zipInt64B, zipIntImmMin, zipIntImmMax]
  omega

theorem codes_immediate (value : Int) (low : 0 ≤ value) (high : value ≤ 12) : Codes value (zipIntImmMin + value.toNat) [] := by
  obtain ⟨not8, not16, not24, not32, not64, above, below⟩ := immediate_apart value.toNat (by omega)
  constructor
  case tag =>
    simp only [zipIntImmMin]
    omega
  case written => simp only [integerBytes, not8, not16, not24, not32, not64, above, below, and_self, if_true, if_false]
  case size => simp only [zipIntSize, not8, not16, not24, not32, not64, above, below, and_self,
    if_true, if_false, List.length_nil]
  case read =>
    intro m p _
    simp only [zipLoadInteger, not8, not16, not24, not32, not64, above, below, and_self, if_true, if_false]
    congr
    simp only [zipIntImmMin]
    omega

theorem codes_8 (value : Int) (low : -128 ≤ value) (high : value ≤ 127) : Codes value zipInt8B (le 1 (wordOf 1 value)) where
  tag := by decide
  written := rfl
  size := by rw [le_length]; rfl
  read := word_read 1 value (by omega) (by omega)

theorem codes_16 (value : Int) (low : -32768 ≤ value) (high : value ≤ 32767) : Codes value zipInt16B (le 2 (wordOf 2 value)) where
  tag := by decide
  written := rfl
  size := by rw [le_length]; rfl
  read := word_read 2 value (by omega) (by omega)

theorem codes_24 (value : Int) (low : -8388608 ≤ value) (high : value ≤ 8388607) :
    Codes value zipInt24B ((le 4 (wordOf 4 (value * 256))).drop 1) where
  tag := by decide
  written := rfl
  size := by rw [List.length_drop, le_length]; rfl
  read := by
    intro m p holds
    have whole : (0 : UInt8) :: (le 4 (wordOf 4 (value * 256))).drop 1 = le 4 (wordOf 4 (value * 256)) := by
      have low : wordOf 4 (value * 256) % 256 = 0 := by
        simp only [wordOf]
        omega
      simp only [le, low]
      rfl
    have loaded := load_holds holds
    rw [List.length_drop, le_length] at loaded
    change (load m p 3).map (fun bytes => signedOf 4 (unle (0 :: bytes)) / 256) = some value
    rw [loaded, Option.map_some, whole, unle_le 4 _ (word_of_lt 4 _), signed_word 4 _ (by omega) (by omega),
      Int.mul_ediv_cancel _ (by omega)]

theorem codes_32 (value : Int) (low : -2147483648 ≤ value) (high : value ≤ 2147483647) :
    Codes value zipInt32B (le 4 (wordOf 4 value)) where
  tag := by decide
  written := rfl
  size := by rw [le_length]; rfl
  read := word_read 4 value (by omega) (by omega)

theorem codes_64 (value : Int) (low : -(llongMax + 1 : Int) ≤ value) (high : value ≤ llongMax) :
    Codes value zipInt64B (le 8 (wordOf 8 value)) where
  tag := by decide
  written := rfl
  size := by rw [le_length]; rfl
  read := word_read 8 value (by simp only [llongMax] at low; omega) (by simp only [llongMax] at high; omega)

theorem try_encoding_codes (s : Sds) (value : Int) (encoding : Nat) (tried : zipTryEncoding s = some (value, encoding)) :
    string2ll s = some value ∧ ∃ bytes, Codes value encoding bytes := by
  simp only [zipTryEncoding] at tried
  split at tried
  case isTrue => cases tried
  case isFalse =>
    obtain ⟨found, read, same⟩ := Option.map_eq_some_iff.mp tried
    obtain ⟨_, low, high⟩ := (string2ll_iff s found).mp read
    cases same
    refine ⟨read, ?_⟩
    repeat' split
    · exact ⟨_, codes_immediate value (by omega) (by omega)⟩
    · exact ⟨_, codes_8 value (by omega) (by omega)⟩
    · exact ⟨_, codes_16 value (by omega) (by omega)⟩
    · exact ⟨_, codes_24 value (by omega) (by omega)⟩
    · exact ⟨_, codes_32 value (by omega) (by omega)⟩
    · exact ⟨_, codes_64 value low high⟩

end Integers

-- The encoding of a string, the bytes that tell it and the bytes of the content.
def encodingOf (s : Sds) : Nat :=
  match zipTryEncoding s with
  | some (_, encoding) => encoding
  | none => if s.length ≤ 63 then zipStr06B else if s.length ≤ 16383 then zipStr14B else zipStr32B

def headOf (s : Sds) : Block := entryEncoding ((zipTryEncoding s).getD (123456789, 0)).2 s.length

def payloadOf (s : Sds) : Block :=
  match zipTryEncoding s with
  | some (value, encoding) => (integerBytes value encoding).getD []
  | none => s

theorem entry_encoding_of_nat (n : Nat) (byte : n < 256) :
    zipEntryEncoding (UInt8.ofNat n) = if n < 192 then n / 64 * 64 else n := by
  rw [zipEntryEncoding, UInt8.toNat_ofNat_of_lt' byte]

theorem decode_integer (s : Sds) (value : Int) (encoding : Nat) (tried : zipTryEncoding s = some (value, encoding))
    (m : Block) (p : Nat) (holds : Holds m p (headOf s)) :
    zipDecodeLength m p = some (encodingOf s, (headOf s).length, (payloadOf s).length) := by
  obtain ⟨_, bytes, codes⟩ := try_encoding_codes s value encoding tried
  obtain ⟨high, low⟩ := codes.tag
  have numeric : zipIsStr encoding = false := decide_eq_false (by omega)
  have head : headOf s = [UInt8.ofNat encoding] := by
    rw [headOf, tried, entryEncoding]
    simp [numeric]
  rw [head] at holds ⊢
  have read : zipEntryEncoding (UInt8.ofNat encoding) = encoding := by rw [entry_encoding_of_nat _ (by omega), if_neg (by omega)]
  simp only [zipDecodeLength, byte_holds holds, Option.bind_eq_bind, Option.bind_some, read, if_neg (Nat.not_lt.mpr high),
    codes.size, encodingOf, payloadOf, tried, codes.written, Option.getD_some]
  rfl

theorem decode_string (s : Sds) (plain : zipTryEncoding s = none) (short : s.length < 256 ^ 4) (m : Block) (p : Nat)
    (holds : Holds m p (headOf s)) : zipDecodeLength m p = some (encodingOf s, (headOf s).length, (payloadOf s).length) := by
  have isStr : zipIsStr 0 = true := rfl
  simp only [headOf, encodingOf, payloadOf, plain, Option.getD_none, entryEncoding, isStr, if_true] at holds ⊢
  by_cases tiny : s.length ≤ 63
  · simp only [tiny, if_true] at holds ⊢
    have value : (UInt8.ofNat (zipStr06B + s.length)).toNat = s.length := by
      simp only [zipStr06B]
      rw [UInt8.toNat_ofNat_of_lt' (by simp only [UInt8.size]; omega), Nat.zero_add]
    have read : zipEntryEncoding (UInt8.ofNat (zipStr06B + s.length)) = zipStr06B := by
      rw [zipEntryEncoding, value, if_pos (by omega), Nat.div_eq_of_lt (by omega)]
      rfl
    simp only [zipDecodeLength, byte_holds holds, Option.bind_eq_bind, Option.bind_some, read, value,
      Nat.mod_eq_of_lt (show s.length < 64 by omega)]
    rfl
  · by_cases small : s.length ≤ 16383
    · simp only [tiny, small, if_true, if_false] at holds ⊢
      have value : (UInt8.ofNat (zipStr14B + s.length / 256 % 64)).toNat = 64 + s.length / 256 := by
        simp only [zipStr14B]
        rw [UInt8.toNat_ofNat_of_lt' (by simp only [UInt8.size]; omega)]
        omega
      have read : zipEntryEncoding (UInt8.ofNat (zipStr14B + s.length / 256 % 64)) = zipStr14B := by
        rw [zipEntryEncoding, value, if_pos (by omega), zipStr14B]
        omega
      have second : (UInt8.ofNat (s.length % 256)).toNat = s.length % 256 :=
        UInt8.toNat_ofNat_of_lt' (by simp only [UInt8.size]; omega)
      simp only [zipDecodeLength, byte_holds holds, byte_holds (holds_tail holds), Option.bind_eq_bind,
          Option.bind_some, read, value, second]
      change some (zipStr14B, 2, (64 + s.length / 256) % 64 * 256 + s.length % 256) = some (zipStr14B, 2, s.length)
      congr
      omega
    · simp only [tiny, small, if_false] at holds ⊢
      have read : zipEntryEncoding (UInt8.ofNat zipStr32B) = zipStr32B := rfl
      have loaded := load_holds (holds_tail holds)
      rw [List.length_reverse, le_length] at loaded
      simp only [zipDecodeLength, byte_holds holds, Option.bind_eq_bind, Option.bind_some, read, loaded,
        List.reverse_reverse, unle_le 4 _ short]
      change some (zipStr32B, 5, s.length) = some (zipStr32B, (le 4 s.length).reverse.length + 1, s.length)
      rw [List.length_reverse, le_length]

theorem decode_length (s : Sds) (short : (payloadOf s).length < 256 ^ 4) (m : Block) (p : Nat) (holds : Holds m p (headOf s)) :
    zipDecodeLength m p = some (encodingOf s, (headOf s).length, (payloadOf s).length) := by
  cases tried : zipTryEncoding s with
  | none => exact decode_string s tried (by simpa only [payloadOf, tried] using short) m p holds
  | some found => exact decode_integer s found.1 found.2 tried m p holds

theorem encoding_is_str (s : Sds) : zipIsStr (encodingOf s) = (zipTryEncoding s).isNone := by
  cases tried : zipTryEncoding s with
  | none =>
      simp only [encodingOf, tried, Option.isNone_none]
      repeat' split
      · rfl
      · rfl
      · rfl
  | some found =>
      obtain ⟨_, bytes, codes⟩ := try_encoding_codes s found.1 found.2 tried
      obtain ⟨high, _⟩ := codes.tag
      simp only [encodingOf, tried, Option.isNone_some]
      exact decide_eq_false (by omega)

theorem integer_read (s : Sds) (value : Int) (encoding : Nat) (tried : zipTryEncoding s = some (value, encoding))
    (m : Block) (q : Nat) (holds : Holds m q (payloadOf s)) : zipLoadInteger m q (encodingOf s) = some value := by
  obtain ⟨_, bytes, codes⟩ := try_encoding_codes s value encoding tried
  simp only [payloadOf, encodingOf, tried, codes.written, Option.getD_some] at holds ⊢
  exact codes.read m q holds

-- An entry: whether the field for the length before it takes five bytes, and
-- the string it holds.
structure Cell where
  wide : Bool
  content : Sds
deriving DecidableEq, Repr

def prevField (wide : Bool) (prev : Nat) : Block := if wide then prevEntryLengthLarge prev else [UInt8.ofNat prev]

def fieldSize (wide : Bool) : Nat := if wide then 5 else 1

def bodyOf (s : Sds) : Block := headOf s ++ payloadOf s

def Cell.size (cell : Cell) : Nat := fieldSize cell.wide + (bodyOf cell.content).length

def Cell.bytes (prev : Nat) (cell : Cell) : Block := prevField cell.wide prev ++ bodyOf cell.content

-- The entries one after the other, each with the length of the one before it.
def spread : Nat → List Cell → Block
  | _, [] => []
  | prev, cell :: cells => cell.bytes prev ++ spread cell.size cells

-- One byte is enough for the length where only one is taken.
structure Cell.Fits (prev : Nat) (cell : Cell) : Prop where
  narrow : cell.wide = false → prev < zipBigPrevlen
  prev : prev < 256 ^ 4
  size : cell.size < 256 ^ 4

def AllFit : Nat → List Cell → Prop
  | _, [] => True
  | prev, cell :: cells => cell.Fits prev ∧ AllFit cell.size cells

theorem prev_field_length (wide : Bool) (prev : Nat) : (prevField wide prev).length = fieldSize wide := by
  cases wide with
  | true => simp [prevField, prevEntryLengthLarge, fieldSize, le_length]
  | false => rfl

theorem cell_length (prev : Nat) (cell : Cell) : (cell.bytes prev).length = cell.size := by
  rw [Cell.bytes, Cell.size, List.length_append, prev_field_length]

-- What zipEntry returns for it.
def Cell.entry (prev : Nat) (cell : Cell) : Zlentry :=
  ⟨fieldSize cell.wide, prev, (headOf cell.content).length, (payloadOf cell.content).length,
    fieldSize cell.wide + (headOf cell.content).length, encodingOf cell.content⟩

theorem entry_size (prev : Nat) (cell : Cell) : (cell.entry prev).headersize + (cell.entry prev).len = cell.size := by
  simp only [Cell.entry, Cell.size, bodyOf, List.length_append]
  omega

def valueOf (s : Sds) : ZipValue :=
  match zipTryEncoding s with
  | some (value, _) => .int value
  | none => .str s

section Reading

variable {m : Block} {p prev : Nat} {cell : Cell} (fits : cell.Fits prev) (holds : Holds m p (cell.bytes prev))

include fits holds

theorem first_byte : ∃ byte, m[p]? = some byte ∧ byte ≠ zipEnd ∧ (byte.toNat < zipBigPrevlen ↔ cell.wide = false) ∧
    (cell.wide = false → byte.toNat = prev) := by
  cases wide : cell.wide with
  | true =>
      simp only [Cell.bytes, prevField, wide, if_true, prevEntryLengthLarge, List.cons_append] at holds
      exact ⟨_, byte_holds holds, by decide, by decide, by simp⟩
  | false =>
      simp only [Cell.bytes, prevField, wide, Bool.false_eq_true, if_false, List.cons_append] at holds
      have small := fits.narrow wide
      have value : (UInt8.ofNat prev).toNat = prev :=
        UInt8.toNat_ofNat_of_lt' (by simp only [zipBigPrevlen] at small; simp only [UInt8.size]; omega)
      refine ⟨_, byte_holds holds, ?_, by simp [value, small], fun _ => value⟩
      intro ended
      rw [ended] at value
      simp only [zipBigPrevlen, ← value] at small
      exact absurd small (by decide)

theorem decode_prevlensize : zipDecodePrevlensize m p = some (fieldSize cell.wide) := by
  obtain ⟨byte, first, _, narrow, _⟩ := first_byte fits holds
  simp only [zipDecodePrevlensize, first, Option.bind_eq_bind, Option.bind_some, narrow]
  cases cell.wide with
  | true => rfl
  | false => rfl

theorem decode_prevlen : zipDecodePrevlen m p = some (fieldSize cell.wide, prev) := by
  obtain ⟨byte, first, _, narrow, value⟩ := first_byte fits holds
  simp only [zipDecodePrevlen, first, Option.bind_eq_bind, Option.bind_some, narrow]
  cases wide : cell.wide with
  | true =>
      simp only [Cell.bytes, prevField, wide, if_true, prevEntryLengthLarge, List.cons_append] at holds
      have loaded := load_holds (holds_left (holds_tail holds))
      rw [le_length] at loaded
      simp only [loaded, Bool.true_eq_false, if_false, Option.bind_some, unle_le 4 prev fits.prev]
      rfl
  | false =>
      simp only [if_true, value wide]
      rfl

theorem decode_cell : zipDecodeLength m (p + fieldSize cell.wide) =
    some (encodingOf cell.content, (headOf cell.content).length, (payloadOf cell.content).length) := by
  have body := holds_right holds
  rw [prev_field_length] at body
  have size := fits.size
  simp only [Cell.size, bodyOf, List.length_append] at size
  exact decode_length _ (by omega) m _ (holds_left body)

theorem raw_entry_length : zipRawEntryLength m p = some cell.size := by
  simp only [zipRawEntryLength, decode_prevlensize fits holds, decode_cell fits holds, Option.bind_eq_bind, Option.bind_some,
    Cell.size, bodyOf, List.length_append, Nat.add_assoc]
  rfl

theorem zip_entry : zipEntry m p = some (cell.entry prev) := by
  simp only [zipEntry, decode_prevlen fits holds, decode_cell fits holds, Option.bind_eq_bind, Option.bind_some]
  rfl

omit fits in
theorem payload_holds : Holds m (p + (fieldSize cell.wide + (headOf cell.content).length)) (payloadOf cell.content) := by
  have payload := holds_right (holds_right holds)
  rwa [prev_field_length, Nat.add_assoc] at payload

theorem ziplist_get : ziplistGet m p = some (some (valueOf cell.content)) := by
  obtain ⟨byte, first, inside, _⟩ := first_byte fits holds
  have payload := payload_holds holds
  simp only [ziplistGet, first, inside, zip_entry fits holds, Cell.entry, Option.bind_eq_bind, Option.bind_some, if_false,
    encoding_is_str, valueOf]
  cases tried : zipTryEncoding cell.content with
  | none =>
      simp only [Option.isNone_none, if_true, load_holds payload, Option.bind_some]
      simp only [payloadOf, tried]
  | some found =>
      simp only [Option.isNone_some, Bool.false_eq_true, if_false,
        integer_read _ found.1 found.2 tried m _ payload, Option.bind_some]

end Reading

-- The length of the entry before the one that follows.
def lastSize : Nat → List Cell → Nat
  | prev, [] => prev
  | _, cell :: cells => lastSize cell.size cells

theorem last_size_append (prev : Nat) (front back : List Cell) :
    lastSize prev (front ++ back) = lastSize (lastSize prev front) back := by
  induction front generalizing prev with
  | nil => rfl
  | cons cell front ih => exact ih cell.size

theorem spread_append (prev : Nat) (front back : List Cell) :
    spread prev (front ++ back) = spread prev front ++ spread (lastSize prev front) back := by
  induction front generalizing prev with
  | nil => rfl
  | cons cell front ih => rw [List.cons_append, spread, ih, spread, lastSize, List.append_assoc]

theorem all_fit_append (prev : Nat) (front back : List Cell) :
    AllFit prev (front ++ back) ↔ AllFit prev front ∧ AllFit (lastSize prev front) back := by
  induction front generalizing prev with
  | nil => simp [AllFit, lastSize]
  | cons cell front ih => simp [AllFit, lastSize, ih, and_assoc]

theorem field_size_pos (wide : Bool) : 0 < fieldSize wide := by
  cases wide with
  | true => decide
  | false => decide

theorem size_pos (cell : Cell) : 0 < cell.size := Nat.add_pos_left (field_size_pos cell.wide) _

def weight : List Cell → Nat
  | [] => 0
  | cell :: cells => cell.size + weight cells

theorem weight_append (front back : List Cell) : weight (front ++ back) = weight front + weight back := by
  induction front with
  | nil => simp [weight]
  | cons cell front ih => rw [List.cons_append, weight, ih, weight, Nat.add_assoc]

theorem spread_length (prev : Nat) (cells : List Cell) : (spread prev cells).length = weight cells := by
  induction cells generalizing prev with
  | nil => rfl
  | cons cell cells ih => rw [spread, List.length_append, cell_length, ih, weight]

theorem length_le_weight (cells : List Cell) : cells.length ≤ weight cells := by
  induction cells with
  | nil => exact Nat.le_refl 0
  | cons cell cells ih =>
      have positive := size_pos cell
      rw [List.length_cons, weight]
      omega

section Header

def header (bytes tail length : Nat) : Block := le 4 bytes ++ (le 4 tail ++ le 2 length)

theorem header_length (bytes tail length : Nat) : (header bytes tail length).length = 10 := by
  simp [header, le_length]

variable (bytes tail length : Nat) (rest : Block)

theorem ziplist_bytes (small : bytes < 256 ^ 4) : ziplistBytes (header bytes tail length ++ rest) = some bytes := by
  have loaded : load (header bytes tail length ++ rest) 0 4 = some (le 4 bytes) :=
    load_at (show _ = [] ++ (le 4 bytes ++ (le 4 tail ++ le 2 length ++ rest)) by simp [header]) rfl (le_length 4 bytes).symm
  rw [ziplistBytes, loaded, Option.map_some, unle_le 4 bytes small]

theorem ziplist_tail_offset (small : tail < 256 ^ 4) : ziplistTailOffset (header bytes tail length ++ rest) = some tail := by
  have loaded : load (header bytes tail length ++ rest) 4 4 = some (le 4 tail) :=
    load_at (show _ = le 4 bytes ++ (le 4 tail ++ (le 2 length ++ rest)) by simp [header])
      (le_length 4 bytes).symm (le_length 4 tail).symm
  rw [ziplistTailOffset, loaded, Option.map_some, unle_le 4 tail small]

theorem ziplist_length (small : length < 256 ^ 2) : ziplistLength (header bytes tail length ++ rest) = some length := by
  have loaded : load (header bytes tail length ++ rest) 8 2 = some (le 2 length) :=
    load_at (show _ = (le 4 bytes ++ le 4 tail) ++ (le 2 length ++ rest) by simp [header]) (by simp [le_length])
      (le_length 2 length).symm
  rw [ziplistLength, loaded, Option.map_some, unle_le 2 length small]

theorem set_ziplist_bytes (value : Nat) : setZiplistBytes (header bytes tail length ++ rest) value =
    some (header value tail length ++ rest) := by
  have stored : store (header bytes tail length ++ rest) 0 (le 4 value) =
      some ([] ++ (le 4 value ++ (le 4 tail ++ le 2 length ++ rest))) :=
    store_at (show _ = [] ++ (le 4 bytes ++ (le 4 tail ++ le 2 length ++ rest)) by simp [header]) rfl
        (by rw [le_length, le_length])
  rw [setZiplistBytes, stored]
  simp [header]

theorem set_ziplist_tail_offset (value : Nat) :
    setZiplistTailOffset (header bytes tail length ++ rest) value = some (header bytes value length ++ rest) := by
  rw [setZiplistTailOffset, store_at (show _ = le 4 bytes ++ (le 4 tail ++ (le 2 length ++ rest)) by simp [header])
    (le_length 4 bytes).symm (by rw [le_length, le_length])]
  simp [header]

theorem set_ziplist_length (value : Nat) : setZiplistLength (header bytes tail length ++ rest) value =
    some (header bytes tail value ++ rest) := by
  rw [setZiplistLength, store_at (show _ = (le 4 bytes ++ le 4 tail) ++ (le 2 length ++ rest) by simp [header])
    (by simp [le_length]) (by rw [le_length, le_length])]
  simp [header]

end Header

-- Where the entry after these starts.
def offsetOf (front : List Cell) : Nat := 10 + weight front

-- A count that does not fit its field stays at the largest value, also when
-- entries are deleted.
def Counts (length : Nat) (cells : List Cell) : Prop := length = cells.length ∧ length < uint16Max ∨ length = uint16Max

-- The block is the list of these entries.
structure Lists (zl : Block) (cells : List Cell) : Prop where
  split : ∃ length, zl = header (offsetOf cells + 1) (offsetOf cells.dropLast) length ++
    (spread 0 cells ++ [zipEnd]) ∧ Counts length cells
  fit : AllFit 0 cells
  small : offsetOf cells + 1 < 256 ^ 4

theorem offset_append (front back : List Cell) : offsetOf (front ++ back) = offsetOf front + weight back := by
  rw [offsetOf, weight_append, ← Nat.add_assoc, offsetOf]

theorem new_lists : Lists ziplistNew [] where
  split := ⟨0, by simp [ziplistNew, header, offsetOf, spread, weight, ziplistHeaderSize], .inl ⟨rfl, by decide⟩⟩
  fit := trivial
  small := by decide

end Redis
