set_option autoImplicit false

namespace Uri

def hexDigit (n : Nat) : Char := Char.ofNat (if n < 10 then 48 + n else 55 + n)

def hexValue (c : Char) : Option Nat :=
  if 48 ≤ c.toNat ∧ c.toNat ≤ 57 then some (c.toNat - 48)
  else if 65 ≤ c.toNat ∧ c.toNat ≤ 70 then some (c.toNat - 55)
  else if 97 ≤ c.toNat ∧ c.toNat ≤ 102 then some (c.toNat - 87)
  else none

def percent (octet : UInt8) : List Char := ['%', hexDigit (octet.toNat / 16), hexDigit (octet.toNat % 16)]

-- The characters that encodeURIComponent leaves alone.
def isUnreserved (c : Char) : Bool :=
  c.isAlphanum || "-_.!~*'()".toList.contains c

def encodeChar (c : Char) : List Char :=
  if isUnreserved c then [c] else (String.utf8EncodeChar c).flatMap percent

def encodeURIComponent (text : List Char) : List Char := text.flatMap encodeChar

def octet : List Char → Option (UInt8 × List Char)
  | '%' :: a :: b :: rest =>
      match hexValue a, hexValue b with
      | some high, some low => some (UInt8.ofNat (16 * high + low), rest)
      | _, _ => none
  | _ => none

def octets : Nat → List Char → Option (List UInt8 × List Char)
  | 0, rest => some ([], rest)
  | n + 1, text =>
      match octet text with
      | none => none
      | some (first, rest) => (octets n rest).map fun read => (first :: read.1, read.2)

-- How many octets follow this one in its character.
def announced (lead : UInt8) : Option Nat :=
  if lead.toNat < 128 then some 0
  else if lead.toNat < 192 then none
  else if lead.toNat < 224 then some 1
  else if lead.toNat < 240 then some 2
  else if lead.toNat < 248 then some 3
  else none

-- A character that stands as escapes of its octets.
def escaped (text : List Char) : Option (Char × List Char) :=
  match octet text with
  | none => none
  | some (lead, rest) =>
      match announced lead with
      | none => none
      | some n =>
          match octets n rest with
          | none => none
          | some (tail, rest) => ((lead :: tail).toByteArray.utf8DecodeChar? 0).map fun c => (c, rest)

def decodeUpTo : Nat → List Char → Option (List Char)
  | _, [] => some []
  | 0, _ :: _ => none
  | fuel + 1, c :: rest =>
      if c = '%' then
        match escaped (c :: rest) with
        | none => none
        | some (decoded, rest) => (decodeUpTo fuel rest).map (decoded :: ·)
      else (decodeUpTo fuel rest).map (c :: ·)

-- Every turn reads a character, so the length of the text is fuel enough.
def decodeURIComponent (text : List Char) : Option (List Char) := decodeUpTo text.length text

theorem hex_value_digit (n : Nat) (small : n < 16) : hexValue (hexDigit n) = some n := by
  have checked : ∀ n < 16, hexValue (hexDigit n) = some n := by decide
  exact checked n small

theorem octet_percent (first : UInt8) (rest : List Char) : octet (percent first ++ rest) = some (first, rest) := by
  have bound := first.toNat_lt
  have value : 16 * (first.toNat / 16) + first.toNat % 16 = first.toNat := Nat.div_add_mod ..
  simp only [percent, List.cons_append, List.nil_append, octet, hex_value_digit (first.toNat / 16) (by omega),
    hex_value_digit (first.toNat % 16) (by omega), value, UInt8.ofNat_toNat]

theorem octets_percent (all : List UInt8) (rest : List Char) :
    octets all.length (all.flatMap percent ++ rest) = some (all, rest) := by
  induction all with
  | nil => rfl
  | cons first more ih =>
      rw [List.flatMap_cons, List.append_assoc, List.length_cons, octets, octet_percent]
      simp only [ih, Option.map_some]

theorem announced_value (value n : Nat) (small : value < 256)
    (range : n = 0 ∧ value < 128 ∨ n = 1 ∧ 192 ≤ value ∧ value < 224 ∨ n = 2 ∧ 224 ≤ value ∧ value < 240 ∨
      n = 3 ∧ 240 ≤ value ∧ value < 248) : announced (UInt8.ofNat value) = some n := by
  rw [announced, UInt8.toNat_ofNat_of_lt' small]
  repeat' split
  all_goals first | omega | (congr 1; omega)

theorem announced_lead (c : Char) : ∃ lead tail, String.utf8EncodeChar c = lead :: tail ∧ announced lead = some tail.length := by
  unfold String.utf8EncodeChar
  dsimp only
  generalize c.val.toNat = v
  split
  · exact ⟨_, _, rfl, announced_value _ _ (by omega) (.inl ⟨rfl, by omega⟩)⟩
  · split
    · exact ⟨_, _, rfl, announced_value _ _ (by omega) (.inr (.inl ⟨rfl, by omega, by omega⟩))⟩
    · split
      · exact ⟨_, _, rfl, announced_value _ _ (by omega) (.inr (.inr (.inl ⟨rfl, by omega, by omega⟩)))⟩
      · exact ⟨_, _, rfl, announced_value _ _ (by omega) (.inr (.inr (.inr ⟨rfl, by omega, by omega⟩)))⟩

theorem escaped_encoded (c : Char) (rest : List Char) :
    escaped ((String.utf8EncodeChar c).flatMap percent ++ rest) = some (c, rest) := by
  obtain ⟨lead, tail, shape, more⟩ := announced_lead c
  have decoded : (lead :: tail).toByteArray.utf8DecodeChar? 0 = some c := by
    have whole := @ByteArray.utf8DecodeChar?_utf8EncodeChar_append .empty c
    rwa [ByteArray.append_empty, shape] at whole
  rw [shape, List.flatMap_cons, List.append_assoc, escaped, octet_percent]
  simp only [more, octets_percent, decoded, Option.map_some]

theorem unreserved_plain (c : Char) (free : isUnreserved c = true) : c ≠ '%' := by
  rintro rfl
  exact absurd free (by decide)

theorem escape_marked (c : Char) (reserved : isUnreserved c = false) : ∃ more, encodeChar c = '%' :: more := by
  obtain ⟨lead, tail, shape, _⟩ := announced_lead c
  simp [encodeChar, reserved, shape, percent]

theorem decode_encoded (text : List Char) (fuel : Nat) (enough : text.length ≤ fuel) :
    decodeUpTo fuel (encodeURIComponent text) = some text := by
  induction text generalizing fuel with
  | nil => cases fuel <;> rfl
  | cons c rest ih =>
      cases fuel with
      | zero => simp at enough
      | succ fuel =>
          have later := ih fuel (by simpa using enough)
          rw [encodeURIComponent, List.flatMap_cons]
          change decodeUpTo (fuel + 1) (encodeChar c ++ encodeURIComponent rest) = _
          cases free : isUnreserved c with
          | true =>
              rw [encodeChar, if_pos free, List.singleton_append, decodeUpTo, if_neg (unreserved_plain c free), later]
              rfl
          | false =>
              obtain ⟨more, shape⟩ := escape_marked c free
              have read := escaped_encoded c (encodeURIComponent rest)
              have same : encodeChar c = (String.utf8EncodeChar c).flatMap percent := by simp [encodeChar, free]
              rw [← same, shape, List.cons_append] at read
              rw [shape, List.cons_append, decodeUpTo, if_pos rfl, read]
              simp only [later, Option.map_some]

theorem length_encoded (text : List Char) : text.length ≤ (encodeURIComponent text).length := by
  induction text with
  | nil => exact Nat.le_refl _
  | cons c rest ih =>
      have some_ : 0 < (encodeChar c).length := by
        cases free : isUnreserved c with
        | true => simp [encodeChar, free]
        | false =>
            obtain ⟨more, shape⟩ := escape_marked c free
            simp [shape]
      simp only [encodeURIComponent, List.flatMap_cons, List.length_append, List.length_cons] at ih ⊢
      omega

-- What one side encodes, the other decodes.
theorem decode_encode (text : List Char) : decodeURIComponent (encodeURIComponent text) = some text :=
  decode_encoded text _ (length_encoded text)

theorem decode_nonempty (text decoded : List Char) (read : decodeURIComponent text = some decoded)
    (present : text ≠ []) : decoded ≠ [] := by
  cases text with
  | nil => exact absurd rfl present
  | cons c rest =>
      rintro rfl
      simp only [decodeURIComponent, List.length_cons, decodeUpTo] at read
      split at read
      · split at read
        · cases read
        · simp at read
      · simp at read

-- Encoded text has letters, digits, percent signs and marks that no part of a
-- URL is separated by.
theorem encoded_plain (text : List Char) (c : Char) (member : c ∈ encodeURIComponent text) : isUnreserved c = true ∨ c = '%' := by
  have digits : ∀ n < 16, isUnreserved (hexDigit n) = true := by decide
  obtain ⟨source, _, inside⟩ := List.mem_flatMap.mp member
  unfold encodeChar at inside
  split at inside
  · next free =>
      cases List.mem_singleton.mp inside
      exact .inl free
  · obtain ⟨part, _, inside⟩ := List.mem_flatMap.mp inside
    have bound := part.toNat_lt
    simp only [percent, List.mem_cons, List.not_mem_nil, or_false] at inside
    rcases inside with rfl | rfl | rfl
    · exact .inr rfl
    · exact .inl (digits _ (by omega))
    · exact .inl (digits _ (by omega))

end Uri
