set_option autoImplicit false

namespace Regex

-- What was passed, nearest character first, and what is still ahead.
structure Cursor where
  before : List Char
  after : List Char
deriving DecidableEq, Repr

inductive Pattern where
  | empty
  | cls (accepts : Char → Bool)
  | seq (first second : Pattern)
  | alt (first second : Pattern)
  | star (body : Pattern)
  | lineStart (multiline : Bool)
  | lineEnd (multiline : Bool)

def Pattern.opt (body : Pattern) : Pattern := .alt body .empty

def Pattern.plus (body : Pattern) : Pattern := .seq body (.star body)

def isLineTerminator (c : Char) : Bool :=
  c == '\n' || c == '\r' || c == '\u2028' || c == '\u2029'

def isSpace (c : Char) : Bool :=
  c == '\t' || c == '\u000b' || c == '\u000c' || c == ' ' || c == '\u00a0' || c == '\ufeff' ||
    c == '\u1680' || ('\u2000' ≤ c && c ≤ '\u200a') || c == '\u202f' || c == '\u205f' ||
    c == '\u3000' || isLineTerminator c

def isWord (c : Char) : Bool :=
  ('a' ≤ c && c ≤ 'z') || ('A' ≤ c && c ≤ 'Z') || ('0' ≤ c && c ≤ '9') || c == '_'

def atLineStart (multiline : Bool) (at_ : Cursor) : Bool :=
  match at_.before with
  | [] => true
  | c :: _ => multiline && isLineTerminator c

def atLineEnd (multiline : Bool) (at_ : Cursor) : Bool :=
  match at_.after with
  | [] => true
  | c :: _ => multiline && isLineTerminator c

-- An iteration that consumes nothing is abandoned, as in ECMAScript.
def repeatGreedy (once : Cursor → List Cursor) : Nat → Cursor → List Cursor
  | 0, at_ => [at_]
  | fuel + 1, at_ =>
      ((once at_).filter fun next => next.after.length < at_.after.length).flatMap (repeatGreedy once fuel) ++ [at_]

-- Every end position a backtracking engine tries, in the order it tries them.
def run : Pattern → Cursor → List Cursor
  | .empty, at_ => [at_]
  | .cls accepts, at_ =>
      match at_.after with
      | [] => []
      | c :: rest => if accepts c then [⟨c :: at_.before, rest⟩] else []
  | .seq first second, at_ => (run first at_).flatMap (run second)
  | .alt first second, at_ => run first at_ ++ run second at_
  | .star body, at_ => repeatGreedy (run body) at_.after.length at_
  | .lineStart multiline, at_ => if atLineStart multiline at_ then [at_] else []
  | .lineEnd multiline, at_ => if atLineEnd multiline at_ then [at_] else []

def searchFrom (pattern : Pattern) : List Char → List Char → Bool
  | before, [] => !(run pattern ⟨before, []⟩).isEmpty
  | before, c :: rest => !(run pattern ⟨before, c :: rest⟩).isEmpty || searchFrom pattern (c :: before) rest

def test (pattern : Pattern) (text : String) : Bool := searchFrom pattern [] text.toList

-- After a match the global scan goes on at its end; an empty match moves on
-- by one character, which is kept.
def eraseAll (pattern : Pattern) : Nat → Cursor → List Char
  | 0, at_ => at_.after
  | fuel + 1, at_ =>
      match (run pattern at_).head? with
      | some next =>
          if next.after.length < at_.after.length then eraseAll pattern fuel next
          else match at_.after with
            | [] => []
            | c :: rest => c :: eraseAll pattern fuel ⟨c :: at_.before, rest⟩
      | none =>
          match at_.after with
          | [] => []
          | c :: rest => c :: eraseAll pattern fuel ⟨c :: at_.before, rest⟩

def erase (pattern : Pattern) (text : String) : String :=
  String.ofList (eraseAll pattern (text.toList.length + 1) ⟨[], text.toList⟩)

def Within (inside : Char → Bool) : Pattern → Prop
  | .empty => True
  | .cls accepts => ∀ c, accepts c = true → inside c = true
  | .seq first second => Within inside first ∧ Within inside second
  | .alt first second => Within inside first ∧ Within inside second
  | .star body => Within inside body
  | .lineStart _ => True
  | .lineEnd _ => True

def Passes (inside : Char → Bool) (start stop : Cursor) : Prop :=
  ∃ passed : List Char, start.after = passed ++ stop.after ∧ ∀ c ∈ passed, inside c = true

theorem passes_refl (inside : Char → Bool) (at_ : Cursor) : Passes inside at_ at_ :=
  ⟨[], rfl, by simp⟩

theorem passes_trans (inside : Char → Bool) (a b c : Cursor)
    (ab : Passes inside a b) (bc : Passes inside b c) : Passes inside a c := by
  obtain ⟨first, firstEq, firstIn⟩ := ab
  obtain ⟨second, secondEq, secondIn⟩ := bc
  refine ⟨first ++ second, by rw [firstEq, secondEq, List.append_assoc], ?_⟩
  intro x member
  rcases List.mem_append.mp member with inFirst | inSecond
  · exact firstIn x inFirst
  · exact secondIn x inSecond

theorem repeat_greedy_passes (inside : Char → Bool) (once : Cursor → List Cursor)
    (step : ∀ a b, b ∈ once a → Passes inside a b) (fuel : Nat) (a b : Cursor)
    (reached : b ∈ repeatGreedy once fuel a) : Passes inside a b := by
  induction fuel generalizing a with
  | zero =>
      have same : b = a := by simpa [repeatGreedy] using reached
      exact same ▸ passes_refl inside a
  | succ fuel ih =>
      simp only [repeatGreedy, List.mem_append, List.mem_flatMap, List.mem_filter, List.mem_singleton] at reached
      rcases reached with ⟨next, ⟨member, _⟩, rest⟩ | same
      · exact passes_trans inside a next b (step a next member) (ih next rest)
      · exact same ▸ passes_refl inside a

theorem run_passes (inside : Char → Bool) (pattern : Pattern) (within : Within inside pattern)
    (a b : Cursor) (reached : b ∈ run pattern a) : Passes inside a b := by
  induction pattern generalizing a b with
  | empty =>
      have same : b = a := by simpa [run] using reached
      exact same ▸ passes_refl inside a
  | cls accepts =>
      cases ahead : a.after with
      | nil => simp [run, ahead] at reached
      | cons c rest =>
          by_cases ok : accepts c = true
          · have same : b = ⟨c :: a.before, rest⟩ := by simpa [run, ahead, ok] using reached
            exact ⟨[c], by simp [same, ahead], by simpa using within c ok⟩
          · simp [run, ahead, ok] at reached
  | seq first second ihFirst ihSecond =>
      obtain ⟨middle, left, right⟩ := List.mem_flatMap.mp reached
      exact passes_trans inside a middle b (ihFirst within.1 a middle left) (ihSecond within.2 middle b right)
  | alt first second ihFirst ihSecond =>
      rcases List.mem_append.mp reached with left | right
      · exact ihFirst within.1 a b left
      · exact ihSecond within.2 a b right
  | star body ih =>
      exact repeat_greedy_passes inside (run body) (fun x y member => ih within x y member) _ a b reached
  | lineStart multiline =>
      have same : b = a := by
        by_cases ok : atLineStart multiline a = true <;> simp [run, ok] at reached
        exact reached
      exact same ▸ passes_refl inside a
  | lineEnd multiline =>
      have same : b = a := by
        by_cases ok : atLineEnd multiline a = true <;> simp [run, ok] at reached
        exact reached
      exact same ▸ passes_refl inside a

theorem erase_all_keeps (inside : Char → Bool) (pattern : Pattern) (within : Within inside pattern)
    (fuel : Nat) (at_ : Cursor) (c : Char) (outside : inside c = false) (present : c ∈ at_.after) :
    c ∈ eraseAll pattern fuel at_ := by
  induction fuel generalizing at_ with
  | zero => exact present
  | succ fuel ih =>
      have keep : ∀ d rest, at_.after = d :: rest →
          c ∈ d :: eraseAll pattern fuel ⟨d :: at_.before, rest⟩ := by
        intro d rest ahead
        rw [ahead] at present
        rcases List.mem_cons.mp present with same | later
        · simp [same]
        · exact List.mem_cons_of_mem d (ih ⟨d :: at_.before, rest⟩ later)
      unfold eraseAll
      cases found : (run pattern at_).head? with
      | none =>
          cases ahead : at_.after with
          | nil => simp [ahead] at present
          | cons d rest => exact keep d rest ahead
      | some next =>
          have reached : next ∈ run pattern at_ := List.mem_of_mem_head? (by simp [found])
          by_cases shorter : next.after.length < at_.after.length
          · simp only [if_pos shorter]
            obtain ⟨passed, split, passedIn⟩ := run_passes inside pattern within at_ next reached
            rw [split] at present
            rcases List.mem_append.mp present with inPassed | later
            · simp [passedIn c inPassed] at outside
            · exact ih next later
          · simp only [if_neg shorter]
            cases ahead : at_.after with
            | nil => simp [ahead] at present
            | cons d rest => exact keep d rest ahead

theorem erase_keeps (inside : Char → Bool) (pattern : Pattern) (within : Within inside pattern)
    (text : String) (c : Char) (outside : inside c = false) (present : c ∈ text.toList) :
    erase pattern text ≠ "" := by
  intro blank
  have kept := erase_all_keeps inside pattern within (text.toList.length + 1) ⟨[], text.toList⟩ c outside present
  have chars : eraseAll pattern (text.toList.length + 1) ⟨[], text.toList⟩ = [] := by
    have texts := congrArg String.toList blank
    simpa [erase] using texts
  simp [chars] at kept

-- The cursor behind the longest run of accepted characters.
def Cursor.past (accepts : Char → Bool) (at_ : Cursor) : Cursor :=
  ⟨(at_.after.takeWhile accepts).reverse ++ at_.before, at_.after.dropWhile accepts⟩

theorem past_step (accepts : Char → Bool) (before rest : List Char) (c : Char) (ok : accepts c = true) :
    Cursor.past accepts ⟨before, c :: rest⟩ = Cursor.past accepts ⟨c :: before, rest⟩ := by
  simp [Cursor.past, ok]

theorem past_stuck (accepts : Char → Bool) (before rest : List Char) (c : Char) (stuck : ¬ accepts c = true) :
    Cursor.past accepts ⟨before, c :: rest⟩ = ⟨before, c :: rest⟩ := by
  simp [Cursor.past, stuck]

theorem run_class_step (accepts : Char → Bool) (before rest : List Char) (c : Char) (ok : accepts c = true) :
    run (.cls accepts) ⟨before, c :: rest⟩ = [⟨c :: before, rest⟩] := if_pos ok

theorem run_class_stuck (accepts : Char → Bool) (before rest : List Char) (c : Char) (stuck : ¬ accepts c = true) :
    run (.cls accepts) ⟨before, c :: rest⟩ = [] := if_neg stuck

-- A greedy repetition tries the longest run first.
theorem repeat_class_head (accepts : Char → Bool) (fuel : Nat) (at_ : Cursor) (enough : at_.after.length ≤ fuel) :
    (repeatGreedy (run (.cls accepts)) fuel at_).head? = some (at_.past accepts) := by
  induction fuel generalizing at_ with
  | zero =>
      obtain ⟨before, after⟩ := at_
      obtain rfl : after = [] := List.length_eq_zero_iff.mp (Nat.le_zero.mp enough)
      rfl
  | succ fuel ih =>
      obtain ⟨before, after⟩ := at_
      cases after with
      | nil => rfl
      | cons c rest =>
          by_cases ok : accepts c = true
          · have further := ih ⟨c :: before, rest⟩ (Nat.le_of_succ_le_succ enough)
            rw [past_step accepts before rest c ok, repeatGreedy, run_class_step accepts before rest c ok]
            simp [further]
          · rw [past_stuck accepts before rest c ok, repeatGreedy, run_class_stuck accepts before rest c ok]
            rfl

theorem run_plus_class_head (accepts : Char → Bool) (before rest : List Char) (c : Char) (ok : accepts c = true) :
    (run (.plus (.cls accepts)) ⟨before, c :: rest⟩).head? = some (Cursor.past accepts ⟨before, c :: rest⟩) := by
  rw [Pattern.plus, run, run_class_step accepts before rest c ok, List.flatMap_singleton, past_step accepts before rest c ok]
  exact repeat_class_head accepts _ _ (Nat.le_refl _)

theorem erase_all_nothing (pattern : Pattern) (fuel : Nat) (before : List Char) : eraseAll pattern fuel ⟨before, []⟩ = [] := by
  cases fuel with
  | zero => rfl
  | succ fuel =>
      unfold eraseAll
      cases (run pattern ⟨before, []⟩).head? with
      | none => rfl
      | some next => simp

-- A first match that reaches the end of the text leaves nothing of it.
theorem erase_all_covered (pattern : Pattern) (fuel : Nat) (at_ next : Cursor) (first : (run pattern at_).head? = some next)
    (behind : next.after = []) (ahead : at_.after ≠ []) : eraseAll pattern (fuel + 1) at_ = [] := by
  obtain ⟨before, after⟩ := next
  cases behind
  have shorter : ([] : List Char).length < at_.after.length := List.length_pos_iff.mpr ahead
  rw [eraseAll, first]
  simp only [if_pos shorter]
  exact erase_all_nothing pattern fuel before

-- A change of letters that no class of the pattern can tell.
def Respects (change : Char → Char) : Pattern → Prop
  | .empty => True
  | .cls accepts => ∀ c, accepts (change c) = accepts c
  | .seq first second => Respects change first ∧ Respects change second
  | .alt first second => Respects change first ∧ Respects change second
  | .star body => Respects change body
  | .lineStart multiline => multiline = true → ∀ c, isLineTerminator (change c) = isLineTerminator c
  | .lineEnd multiline => multiline = true → ∀ c, isLineTerminator (change c) = isLineTerminator c

def Cursor.change (change : Char → Char) (at_ : Cursor) : Cursor := ⟨at_.before.map change, at_.after.map change⟩

theorem repeat_greedy_change (change : Char → Char) (once : Cursor → List Cursor)
    (same : ∀ at_, once (at_.change change) = (once at_).map (Cursor.change change)) (fuel : Nat) (at_ : Cursor) :
    repeatGreedy once fuel (at_.change change) = (repeatGreedy once fuel at_).map (Cursor.change change) := by
  induction fuel generalizing at_ with
  | zero => rfl
  | succ fuel ih =>
      simp only [repeatGreedy, same, List.filter_map, List.map_append, List.map_flatMap, List.flatMap_map, ih]
      simp [Cursor.change, Function.comp_def]

theorem run_change (change : Char → Char) (pattern : Pattern) (respects : Respects change pattern) (at_ : Cursor) :
    run pattern (at_.change change) = (run pattern at_).map (Cursor.change change) := by
  induction pattern generalizing at_ with
  | empty => rfl
  | cls accepts =>
      obtain ⟨before, after⟩ := at_
      cases after with
      | nil => rfl
      | cons c rest =>
          have same := respects c
          by_cases ok : accepts c = true <;> simp [run, Cursor.change, same, ok]
  | seq first second ihFirst ihSecond =>
      simp only [run, ihFirst respects.1, List.map_flatMap, List.flatMap_map, ihSecond respects.2]
  | alt first second ihFirst ihSecond => simp only [run, ihFirst respects.1, ihSecond respects.2, List.map_append]
  | star body ih =>
      have lengths : (at_.change change).after.length = at_.after.length := by simp [Cursor.change]
      simp only [run, lengths]
      exact repeat_greedy_change change (run body) (ih respects) _ at_
  | lineStart multiline =>
      have same : atLineStart multiline (at_.change change) = atLineStart multiline at_ := by
        obtain ⟨before, after⟩ := at_
        cases before <;> cases multiline <;> simp_all [atLineStart, Cursor.change, Respects]
      by_cases ok : atLineStart multiline at_ = true <;> simp [run, same, ok]
  | lineEnd multiline =>
      have same : atLineEnd multiline (at_.change change) = atLineEnd multiline at_ := by
        obtain ⟨before, after⟩ := at_
        cases after <;> cases multiline <;> simp_all [atLineEnd, Cursor.change, Respects]
      by_cases ok : atLineEnd multiline at_ = true <;> simp [run, same, ok]

theorem search_change (change : Char → Char) (pattern : Pattern) (respects : Respects change pattern) (before after : List Char) :
    searchFrom pattern (before.map change) (after.map change) = searchFrom pattern before after := by
  have here : ∀ before after : List Char,
      (run pattern ⟨before.map change, after.map change⟩).isEmpty = (run pattern ⟨before, after⟩).isEmpty :=
    fun before after => (congrArg List.isEmpty (run_change change pattern respects ⟨before, after⟩)).trans List.isEmpty_map
  induction after generalizing before with
  | nil => exact congrArg not (here before [])
  | cons c rest ih =>
      have now := here before (c :: rest)
      have later := ih (c :: before)
      simp only [List.map_cons, searchFrom] at now later ⊢
      rw [now, later]

theorem lower_cases (c : Char) : c.toLower = c ∨ ∃ n : Fin 26, c = Char.ofNat (65 + n) := by
  unfold Char.toLower
  split
  · next upper =>
      have low : 65 ≤ c.toNat := UInt32.le_iff_toNat_le.mp upper.1
      have high : c.toNat ≤ 90 := UInt32.le_iff_toNat_le.mp upper.2
      refine .inr ⟨⟨c.toNat - 65, by omega⟩, ?_⟩
      rw [show 65 + (c.toNat - 65) = c.toNat by omega, Char.ofNat_toNat]
  · exact .inl rfl

theorem lower_respects {α : Type} (f : Char → α)
    (letters : ∀ n : Fin 26, f (Char.ofNat (65 + n)).toLower = f (Char.ofNat (65 + n))) (c : Char) :
    f c.toLower = f c := by
  rcases lower_cases c with same | ⟨n, rfl⟩
  · rw [same]
  · exact letters n

end Regex
