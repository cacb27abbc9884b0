import Mathlib.Data.List.TakeWhile
import PlannerBackend.Libs

set_option autoImplicit false

namespace Planner

open Regex

-- U+2000 to U+200A, the spaces of fixed width.
def wideSpaces : List Char :=
  ['\u2000', '\u2001', '\u2002', '\u2003', '\u2004', '\u2005', '\u2006', '\u2007', '\u2008', '\u2009', '\u200a']

-- WhiteSpace of ECMAScript: tab, vertical tab, form feed, the byte order mark,
-- and the space separators (category Zs) of Unicode.
def whiteSpace : List Char :=
  ['\t', '\u000b', '\u000c', ' ', '\u00a0', '\ufeff', '\u1680'] ++ wideSpaces ++ ['\u202f', '\u205f', '\u3000']

def lineTerminators : List Char := ['\n', '\r', '\u2028', '\u2029']

theorem wide_spaces_iff (c : Char) : ('\u2000' ≤ c ∧ c ≤ '\u200a') ↔ c ∈ wideSpaces := by
  constructor
  · rintro ⟨low, high⟩
    have least : 0x2000 ≤ c.toNat := UInt32.le_iff_toNat_le.mp low
    have most : c.toNat ≤ 0x200a := UInt32.le_iff_toNat_le.mp high
    have listed : ∀ n : Fin 11, Char.ofNat (0x2000 + n) ∈ wideSpaces := by decide
    have same : Char.ofNat (0x2000 + (c.toNat - 0x2000)) = c := by
      rw [show 0x2000 + (c.toNat - 0x2000) = c.toNat by omega, Char.ofNat_toNat]
    rw [← same]
    exact listed ⟨c.toNat - 0x2000, by omega⟩
  · intro member
    have between : (wideSpaces.all fun d => decide ('\u2000' ≤ d ∧ d ≤ '\u200a')) = true := by decide
    exact of_decide_eq_true (List.all_eq_true.mp between c member)

-- The class of the pattern is these two kinds of characters and no other.
theorem is_space_iff (c : Char) : isSpace c = true ↔ c ∈ whiteSpace ∨ c ∈ lineTerminators := by
  simp only [isSpace, isLineTerminator, Bool.or_eq_true, Bool.and_eq_true, decide_eq_true_eq, beq_iff_eq,
    wide_spaces_iff, whiteSpace, lineTerminators, List.mem_append, List.mem_cons, List.not_mem_nil, or_false, or_assoc]

-- At the start of a line the first alternative matches, and takes every white
-- space character in sight, line terminators included.
theorem trim_line_start (before rest : List Char) (c : Char) (start : atLineStart true ⟨before, c :: rest⟩ = true)
    (space : isSpace c = true) :
    (run trimPattern ⟨before, c :: rest⟩).head? = some (Cursor.past isSpace ⟨before, c :: rest⟩) := by
  have anchored : run (.seq (.lineStart true) (.plus (.cls isSpace))) ⟨before, c :: rest⟩ =
      run (.plus (.cls isSpace)) ⟨before, c :: rest⟩ := by
    rw [run, run, if_pos start, List.flatMap_singleton]
  rw [trimPattern, run, anchored, List.head?_append, run_plus_class_head isSpace before rest c space]
  rfl

theorem erase_spaces (s : String) (spaces : ∀ c ∈ s.toList, isSpace c = true) : erase trimPattern s = "" := by
  unfold erase
  cases text : s.toList with
  | nil => rfl
  | cons c rest =>
      rw [text] at spaces
      have first := trim_line_start [] rest c rfl (spaces c List.mem_cons_self)
      have covered : (Cursor.past isSpace ⟨[], c :: rest⟩).after = [] := List.dropWhile_eq_nil_iff.mpr spaces
      rw [erase_all_covered trimPattern _ _ _ first covered (List.cons_ne_nil c rest)]

theorem string_empty_iff_blank (s : String) :
    ∃ verdict, isEmpty (.str s) = .ok verdict ∧ (verdict = true ↔ ∀ c ∈ s.toList, c ∈ whiteSpace ∨ c ∈ lineTerminators) := by
  simp only [← is_space_iff]
  by_cases spaces : ∀ c ∈ s.toList, isSpace c = true
  · refine ⟨true, ?_, iff_of_true rfl spaces⟩
    simp [isEmpty, Js.isNullish, trim, Js.toText, Except.map, erase_spaces s spaces]
  · refine ⟨false, ?_, iff_of_false Bool.false_ne_true spaces⟩
    obtain ⟨c, present, visible⟩ : ∃ c ∈ s.toList, isSpace c = false := by simpa using spaces
    apply is_empty_nonblank (.str s) s c rfl rfl present visible
    have filled : s ≠ "" := by
      rintro rfl
      cases present
    simpa [Js.lengthIsZero] using filled

end Planner
