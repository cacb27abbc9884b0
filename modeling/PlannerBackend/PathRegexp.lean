import PlannerBackend.Regex

set_option autoImplicit false

namespace PathRegexp

-- A path pattern as path-to-regexp compiles it: characters, compared without
-- case, and groups of one or more characters other than a slash.
inductive Token where
  | char (c : Char)
  | group (key : List Char)
deriving DecidableEq, Repr

def isWord (c : Char) : Bool := c.isAlphanum || c == '_'

-- Patterns of letters, digits, slashes and named groups; the second argument
-- is the name that is being read.
def compile : List Char → Option (List Char) → List Token
  | [], none => []
  | [], some key => [.group key]
  | c :: rest, none => if c = ':' then compile rest (some []) else .char c :: compile rest none
  | c :: rest, some key =>
      if isWord c then compile rest (some (key ++ [c]))
      else if c = ':' then .group key :: compile rest (some [])
      else .group key :: .char c :: compile rest none

def pathtoRegexp (path : List Char) : List Token := compile path none

-- A group takes as little as lets the rest of the pattern match.
def lazily {α : Type} (next : List Char → Option α) : List Char → List Char → Option (List Char × α)
  | _, [] => none
  | taken, c :: rest =>
      if c = '/' then none
      else
        match next rest with
        | some result => some (taken ++ [c], result)
        | none => lazily next (taken ++ [c]) rest

-- The pattern ends in an optional slash.
def exec : List Token → List Char → Option (List (List Char × List Char))
  | [], rest => if rest = [] ∨ rest = ['/'] then some [] else none
  | .char _ :: _, [] => none
  | .char c :: tokens, x :: rest => if x.toLower = c.toLower then exec tokens rest else none
  | .group key :: tokens, input => (lazily (exec tokens) [] input).map fun found => (key, found.1) :: found.2

-- A pattern by its parts between the slashes.
inductive Part where
  | literal (name : List Char)
  | param (key : List Char)
deriving DecidableEq, Repr

def Part.tokens : Part → List Token
  | .literal name => name.map .char
  | .param key => [.group key]

def tokensOf (parts : List Part) : List Token := parts.flatMap fun part => .char '/' :: part.tokens

def Part.take : Part → List Char → Option (List (List Char × List Char))
  | .literal name, piece => if piece.map Char.toLower = name.map Char.toLower then some [] else none
  | .param key, piece => if piece = [] then none else some [(key, piece)]

-- The pieces of a text between its slashes.
def pieces : List Char → List (List Char)
  | [] => [[]]
  | c :: rest =>
      if c = '/' then [] :: pieces rest
      else
        match pieces rest with
        | [] => []
        | piece :: more => (c :: piece) :: more

-- Part by part, each behind an empty piece: what stands before its slash.
def matchPieces : List Part → List (List Char) → Option (List (List Char × List Char))
  | [], left => if left = [[]] ∨ left = [[], []] then some [] else none
  | part :: parts, [] :: piece :: more =>
      (part.take piece).bind fun own => (matchPieces parts ([] :: more)).map (own ++ ·)
  | _ :: _, _ => none

def Part.Plain : Part → Prop
  | .literal name => name ≠ [] ∧ '/' ∉ name
  | .param _ => True

theorem pieces_last (piece : List Char) (clear : '/' ∉ piece) : pieces piece = [piece] := by
  induction piece with
  | nil => rfl
  | cons c rest ih =>
      obtain ⟨differs, clear⟩ := not_or.mp (mt List.mem_cons.mpr clear)
      rw [pieces, if_neg (Ne.symm differs), ih clear]

theorem pieces_slash (piece more : List Char) (clear : '/' ∉ piece) : pieces (piece ++ '/' :: more) = piece :: pieces more := by
  induction piece with
  | nil => rfl
  | cons c rest ih =>
      obtain ⟨differs, clear⟩ := not_or.mp (mt List.mem_cons.mpr clear)
      rw [List.cons_append, pieces, if_neg (Ne.symm differs), ih clear]

theorem pieces_ne_nil (text : List Char) : pieces text ≠ [] := by
  induction text with
  | nil => simp [pieces]
  | cons c rest ih =>
      rw [pieces]
      split
      · simp
      · split
        · next none_ => exact absurd none_ ih
        · simp

-- The piece at the front of a text ends with the text or at a slash.
theorem front_piece (text : List Char) : ∃ piece rest, text = piece ++ rest ∧ '/' ∉ piece ∧
    (rest = [] ∨ ∃ more, rest = '/' :: more) := by
  induction text with
  | nil => exact ⟨[], [], rfl, List.not_mem_nil, .inl rfl⟩
  | cons c tail ih =>
      by_cases slash : c = '/'
      · exact ⟨[], c :: tail, rfl, List.not_mem_nil, .inr ⟨tail, by rw [slash]⟩⟩
      · obtain ⟨piece, rest, rfl, clear, shape⟩ := ih
        exact ⟨c :: piece, rest, rfl, by simp [Ne.symm slash, clear], shape⟩

theorem pieces_front (piece rest : List Char) (clear : '/' ∉ piece) (shape : rest = [] ∨ ∃ more, rest = '/' :: more) :
    ∃ more, pieces rest = [] :: more ∧ pieces (piece ++ rest) = piece :: more := by
  rcases shape with rfl | ⟨more, rfl⟩
  · exact ⟨[], rfl, by rw [List.append_nil, pieces_last piece clear]⟩
  · exact ⟨pieces more, rfl, pieces_slash piece more clear⟩

theorem pieces_empty (text : List Char) : pieces text = [[]] ↔ text = [] := by
  obtain ⟨piece, rest, rfl, clear, rfl | ⟨more, rfl⟩⟩ := front_piece text
  · simp [pieces_last piece clear]
  · simpa [pieces_slash piece more clear] using fun _ => pieces_ne_nil more

theorem pieces_only_slash (text : List Char) : pieces text = [[], []] ↔ text = ['/'] := by
  obtain ⟨piece, rest, rfl, clear, rfl | ⟨more, rfl⟩⟩ := front_piece text
  · rw [List.append_nil, pieces_last piece clear]
    refine ⟨by simp, ?_⟩
    rintro rfl
    exact absurd List.mem_cons_self clear
  · cases piece with
    | nil => simp [pieces, pieces_empty]
    | cons c piece =>
        rw [pieces_slash (c :: piece) more clear]
        simp

theorem lower_slash (c : Char) (same : c.toLower = '/') : c = '/' := by
  have letters : ∀ n : Fin 26, (Char.ofNat (65 + n)).toLower ≠ '/' := by decide
  rcases Regex.lower_cases c with fixed | ⟨n, rfl⟩
  · exact fixed.symm.trans same
  · exact absurd same (letters n)

-- A pattern of parts goes on at a slash or not at all.
theorem exec_stops (parts : List Part) (c : Char) (rest : List Char) (other : c ≠ '/') :
    exec (tokensOf parts) (c :: rest) = none := by
  cases parts with
  | nil => simp [tokensOf, exec, other]
  | cons part more =>
      have differ : c.toLower ≠ Char.toLower '/' := fun same => other (lower_slash c same)
      simp only [tokensOf, List.flatMap_cons, List.cons_append, exec, if_neg differ]

section Matching

variable (parts : List Part) (rest : List Char) (shape : rest = [] ∨ ∃ more, rest = '/' :: more)
include shape

theorem exec_literal (name piece : List Char) (plain : '/' ∉ name) (clear : '/' ∉ piece) :
    exec (name.map .char ++ tokensOf parts) (piece ++ rest) =
      if piece.map Char.toLower = name.map Char.toLower then exec (tokensOf parts) rest else none := by
  induction name generalizing piece with
  | nil =>
      cases piece with
      | nil => rfl
      | cons c piece => simp [exec_stops parts c (piece ++ rest) (List.ne_of_not_mem_cons clear).symm]
  | cons letter name ih =>
      obtain ⟨letter_slash, plain⟩ := not_or.mp (mt List.mem_cons.mpr plain)
      cases piece with
      | nil =>
          rcases shape with rfl | ⟨more, rfl⟩
          · simp [exec]
          · have differ : Char.toLower '/' ≠ letter.toLower := fun same => letter_slash (lower_slash letter same.symm).symm
            simp only [List.map_cons, List.cons_append, List.nil_append, exec, if_neg differ]
            simp
      | cons c piece =>
          have deeper := ih piece plain (List.not_mem_of_not_mem_cons clear)
          by_cases same : c.toLower = letter.toLower
          · simpa [exec, same] using deeper
          · simp [exec, same]

theorem exec_lazily (taken piece : List Char) (clear : '/' ∉ piece) :
    lazily (exec (tokensOf parts)) taken (piece ++ rest) =
      if piece = [] then none else (exec (tokensOf parts) rest).map fun result => (taken ++ piece, result) := by
  induction piece generalizing taken with
  | nil => rcases shape with rfl | ⟨more, rfl⟩ <;> simp [lazily]
  | cons c piece ih =>
      obtain ⟨differs, clear⟩ := not_or.mp (mt List.mem_cons.mpr clear)
      rw [List.cons_append, lazily, if_neg (Ne.symm differs), if_neg (List.cons_ne_nil c piece)]
      cases piece with
      | nil =>
          have ended : lazily (exec (tokensOf parts)) (taken ++ [c]) rest = none := by simpa using ih (taken ++ [c]) clear
          cases matched : exec (tokensOf parts) rest with
          | none => simp [matched, ended]
          | some result => simp [matched]
      | cons d piece =>
          have stopped := exec_stops parts d (piece ++ rest) (List.ne_of_not_mem_cons clear).symm
          rw [List.cons_append, stopped]
          simpa using ih (taken ++ [c]) clear

end Matching

-- Matching by characters, with the group that grows until the rest matches, is
-- matching piece by piece.
theorem exec_pieces (parts : List Part) (plain : ∀ part ∈ parts, part.Plain) (text : List Char) :
    exec (tokensOf parts) text = matchPieces parts (pieces text) := by
  induction parts generalizing text with
  | nil =>
      simp only [tokensOf, List.flatMap_nil, exec, matchPieces, pieces_empty, pieces_only_slash]
  | cons part parts ih =>
      have later := ih fun other member => plain other (List.mem_cons_of_mem _ member)
      cases text with
      | nil => rfl
      | cons c rest =>
          by_cases slash : c = '/'
          · subst slash
            obtain ⟨piece, rest, rfl, clear, shape⟩ := front_piece rest
            obtain ⟨more, behind, split⟩ := pieces_front piece rest clear shape
            have whole : pieces ('/' :: (piece ++ rest)) = [] :: piece :: more := by rw [pieces, if_pos rfl, split]
            rw [whole, matchPieces, ← behind, ← later rest]
            change exec (.char '/' :: (part.tokens ++ tokensOf parts)) ('/' :: (piece ++ rest)) = _
            rw [exec, if_pos rfl]
            cases part with
            | literal name =>
                have plain : name ≠ [] ∧ '/' ∉ name := plain _ List.mem_cons_self
                rw [Part.tokens, exec_literal parts rest shape name piece plain.2 clear, Part.take]
                split <;> simp
            | param key =>
                change exec (.group key :: tokensOf parts) (piece ++ rest) = _
                rw [exec, exec_lazily parts rest shape [] piece clear, Part.take]
                split <;> simp [Function.comp_def]
          · have stopped := exec_stops (part :: parts) c rest slash
            rw [stopped, pieces, if_neg slash]
            split <;> rfl

-- Whether one text can match both patterns; a group takes any piece.
def overlaps : List Part → List Part → Bool
  | [], [] => true
  | .literal a :: as, .literal b :: bs => a.map Char.toLower == b.map Char.toLower && overlaps as bs
  | _ :: as, _ :: bs => overlaps as bs
  | _, _ => false

theorem match_pieces_cons (part : Part) (parts : List Part) (all : List (List Char)) (found : List (List Char × List Char))
    (matched : matchPieces (part :: parts) all = some found) :
    ∃ piece more own later, all = [] :: piece :: more ∧ part.take piece = some own ∧ matchPieces parts ([] :: more) = some later ∧
    found = own ++ later := by
  rcases all with _ | ⟨_ | ⟨c, front⟩, _ | ⟨piece, more⟩⟩
  case cons.nil.cons =>
    obtain ⟨own, here, matched⟩ := Option.bind_eq_some_iff.mp matched
    obtain ⟨later, there, rfl⟩ := Option.map_eq_some_iff.mp matched
    exact ⟨piece, more, own, later, rfl, here, there, rfl⟩
  all_goals cases matched

theorem match_pieces_nil (all : List (List Char)) (found : List (List Char × List Char))
    (matched : matchPieces [] all = some found) :
    all = [[]] ∨ all = [[], []] := by
  simp only [matchPieces, Option.ite_none_right_eq_some] at matched
  exact matched.1

theorem take_nonempty (part : Part) (plain : part.Plain) (own : List (List Char × List Char)) : part.take [] ≠ some own := by
  cases part with
  | literal name =>
      have present : [] ≠ name.map Char.toLower := by simpa using plain.1.symm
      simp [Part.take, present]
  | param key => simp [Part.take]

theorem takes_same (name other piece : List Char) (a b : List (List Char × List Char))
    (one : (Part.literal name).take piece = some a) (two : (Part.literal other).take piece = some b) :
    name.map Char.toLower = other.map Char.toLower := by
  simp only [Part.take, Option.ite_none_right_eq_some] at one two
  exact one.1.symm.trans two.1

def Part.key? : Part → Option (List Char)
  | .literal _ => none
  | .param key => some key

-- What is captured has the names of the groups and is never empty.
theorem matched_captures (parts : List Part) (all : List (List Char)) (found : List (List Char × List Char))
    (matched : matchPieces parts all = some found) :
    found.map Prod.fst = parts.filterMap Part.key? ∧ ∀ capture ∈ found, capture.2 ≠ [] := by
  induction parts generalizing all found with
  | nil =>
      simp only [matchPieces, Option.ite_none_right_eq_some, Option.some.injEq] at matched
      simp [← matched.2]
  | cons part parts ih =>
      obtain ⟨piece, more, own, later, rfl, here, there, rfl⟩ := match_pieces_cons part parts all found matched
      obtain ⟨keys, present⟩ := ih _ _ there
      cases part with
      | literal name =>
          simp only [Part.take, Option.ite_none_right_eq_some, Option.some.injEq] at here
          simpa [← here.2, List.filterMap_cons, Part.key?, keys] using present
      | param key =>
          simp only [Part.take, Option.ite_none_left_eq_some, Option.some.injEq] at here
          simpa [← here.2, List.filterMap_cons, Part.key?, keys, here.1] using present

-- A pattern with parts left does not match where another one ends.
theorem matched_longer (part : Part) (parts : List Part) (plain : part.Plain) (all : List (List Char))
    (a b : List (List Char × List Char)) (ended : matchPieces [] all = some a)
    (matched : matchPieces (part :: parts) all = some b) : False := by
  obtain ⟨piece, more, own, _, rfl, here, _⟩ := match_pieces_cons part parts all b matched
  rcases match_pieces_nil _ a ended with same | same
  · cases same
  · cases same
    exact take_nonempty part plain own here

theorem matched_overlap (first second : List Part) (plainFirst : ∀ part ∈ first, part.Plain)
    (plainSecond : ∀ part ∈ second, part.Plain) (all : List (List Char)) (a b : List (List Char × List Char))
    (one : matchPieces first all = some a) (other : matchPieces second all = some b) :
    overlaps first second = true := by
  induction first generalizing second all a b with
  | nil =>
      cases second with
      | nil => rfl
      | cons part parts => exact (matched_longer part parts (plainSecond part List.mem_cons_self) all a b one other).elim
  | cons part parts ih =>
      cases second with
      | nil => exact (matched_longer part parts (plainFirst part List.mem_cons_self) all b a other one).elim
      | cons part' parts' =>
          obtain ⟨piece, more, own, _, rfl, here, there, _⟩ := match_pieces_cons part parts all a one
          obtain ⟨_, _, own', _, same, here', there', _⟩ := match_pieces_cons part' parts' _ b other
          cases same
          have below := ih parts' (fun part member => plainFirst part (List.mem_cons_of_mem _ member))
            (fun part member => plainSecond part (List.mem_cons_of_mem _ member)) _ _ _ there there'
          cases part with
          | param => cases part' <;> exact below
          | literal name =>
              cases part' with
              | param => exact below
              | literal name' => simp [overlaps, below, takes_same name name' piece own own' here here']

-- The pieces of a text that is put together from pieces.
theorem pieces_joined (texts : List (List Char)) (clear : ∀ text ∈ texts, '/' ∉ text) (rest : List Char) (tail : List (List Char))
    (shape : rest = [] ∨ ∃ more, rest = '/' :: more) (behind : pieces rest = [] :: tail) :
    pieces (texts.flatMap ('/' :: ·) ++ rest) = [] :: (texts ++ tail) := by
  induction texts with
  | nil => exact behind
  | cons text texts ih =>
      have later := ih fun other member => clear other (List.mem_cons_of_mem _ member)
      have starts : texts.flatMap ('/' :: ·) ++ rest = [] ∨ ∃ more, texts.flatMap ('/' :: ·) ++ rest = '/' :: more := by
        cases texts with
        | nil => exact shape
        | cons next others => exact .inr ⟨_, rfl⟩
      obtain ⟨more, ahead, split⟩ := pieces_front text _ (clear text List.mem_cons_self) starts
      cases later.symm.trans ahead
      rw [List.flatMap_cons, List.append_assoc, List.cons_append, pieces, if_pos rfl, split]
      rfl

end PathRegexp
