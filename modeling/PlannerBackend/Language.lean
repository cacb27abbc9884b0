import Mathlib.Computability.Language
import PlannerBackend.Regex

set_option autoImplicit false

open scoped Computability

namespace Regex

def Anchorless : Pattern → Prop
  | .empty => True
  | .cls _ => True
  | .seq first second => Anchorless first ∧ Anchorless second
  | .alt first second => Anchorless first ∧ Anchorless second
  | .star body => Anchorless body
  | .lineStart _ => False
  | .lineEnd _ => False

-- The words that a pattern without anchors consumes, wherever it starts.
def Pattern.language : Pattern → Language Char
  | .empty => 1
  | .cls accepts => {word | ∃ c, accepts c = true ∧ word = [c]}
  | .seq first second => first.language * second.language
  | .alt first second => first.language + second.language
  | .star body => body.language∗
  | .lineStart _ => 0
  | .lineEnd _ => 0

def Spans (word : List Char) (start stop : Cursor) : Prop :=
  start.after = word ++ stop.after ∧ stop.before = word.reverse ++ start.before

theorem spans_nil (at_ stop : Cursor) : Spans [] at_ stop ↔ stop = at_ := by
  obtain ⟨before, after⟩ := at_
  obtain ⟨before', after'⟩ := stop
  simp only [Spans, List.nil_append, List.reverse_nil, Cursor.mk.injEq]
  exact ⟨fun same => ⟨same.2, same.1.symm⟩, fun same => ⟨same.2.symm, same.1⟩⟩

theorem spans_append (first second : List Char) (start stop : Cursor) :
    Spans (first ++ second) start stop ↔ ∃ middle, Spans first start middle ∧ Spans second middle stop := by
  constructor
  · intro spans
    refine ⟨⟨first.reverse ++ start.before, second ++ stop.after⟩, ⟨?_, rfl⟩, rfl, ?_⟩
    · rw [spans.1, List.append_assoc]
    · rw [spans.2, List.reverse_append, List.append_assoc]
  · rintro ⟨middle, left, right⟩
    refine ⟨?_, ?_⟩
    · rw [left.1, right.1, List.append_assoc]
    · rw [right.2, left.2, List.reverse_append, List.append_assoc]

theorem spans_shorter (word : List Char) (start stop : Cursor) (spans : Spans word start stop) :
    stop.after.length < start.after.length ↔ word ≠ [] := by
  rw [spans.1, List.length_append, ← List.length_pos_iff]
  omega

-- An iteration is kept only if it consumes, and every word of the closure has
-- a decomposition into words that do.
theorem repeat_language (language : Language Char) (once : Cursor → List Cursor)
    (step : ∀ start stop, stop ∈ once start ↔ ∃ word ∈ language, Spans word start stop) (fuel : Nat) (start stop : Cursor)
    (enough : start.after.length ≤ fuel) :
    stop ∈ repeatGreedy once fuel start ↔ ∃ word ∈ language∗, Spans word start stop := by
  induction fuel generalizing start with
  | zero =>
      have nothing : start.after = [] := List.length_eq_zero_iff.mp (Nat.le_zero.mp enough)
      rw [repeatGreedy, List.mem_singleton, ← spans_nil]
      constructor
      · exact fun spans => ⟨[], Language.nil_mem_kstar language, spans⟩
      · rintro ⟨word, _, spans⟩
        have empty : word = [] := (List.append_eq_nil_iff.mp (spans.1.symm.trans nothing)).1
        exact empty ▸ spans
  | succ fuel ih =>
      simp only [repeatGreedy, List.mem_append, List.mem_flatMap, List.mem_filter, List.mem_singleton, decide_eq_true_eq]
      constructor
      · rintro (⟨middle, ⟨taken, shorter⟩, reached⟩ | same)
        · obtain ⟨first, inLanguage, left⟩ := (step start middle).mp taken
          obtain ⟨rest, inClosure, right⟩ := (ih middle (by omega)).mp reached
          refine ⟨first ++ rest, ?_, (spans_append first rest start stop).mpr ⟨middle, left, right⟩⟩
          rw [← Language.one_add_self_mul_kstar_eq_kstar]
          exact .inr (Language.append_mem_mul inLanguage inClosure)
        · exact ⟨[], Language.nil_mem_kstar language, (spans_nil start stop).mpr same⟩
      · rintro ⟨word, inClosure, spans⟩
        obtain ⟨chunks, rfl, each⟩ := (Set.ext_iff.mp (Language.kstar_def_nonempty language) word).mp inClosure
        cases chunks with
        | nil => exact .inr ((spans_nil start stop).mp spans)
        | cons chunk rest =>
            obtain ⟨middle, left, right⟩ := (spans_append chunk rest.flatten start stop).mp spans
            obtain ⟨inLanguage, consumes⟩ := each chunk List.mem_cons_self
            have shorter := (spans_shorter chunk start middle left).mpr consumes
            refine .inl ⟨middle, ⟨(step start middle).mpr ⟨chunk, inLanguage, left⟩, shorter⟩, (ih middle (by omega)).mpr ?_⟩
            exact ⟨rest.flatten, Language.join_mem_kstar fun other member =>
                (each other (List.mem_cons_of_mem _ member)).1, right⟩

theorem run_language (pattern : Pattern) (anchorless : Anchorless pattern) (start stop : Cursor) :
    stop ∈ run pattern start ↔ ∃ word ∈ pattern.language, Spans word start stop := by
  induction pattern generalizing start stop with
  | empty =>
      rw [run, List.mem_singleton, ← spans_nil]
      constructor
      · intro spans
        exact ⟨[], rfl, spans⟩
      · rintro ⟨word, empty, spans⟩
        obtain rfl : word = [] := empty
        exact spans
  | cls accepts =>
      obtain ⟨before, after⟩ := start
      constructor
      · intro reached
        cases after with
        | nil => cases reached
        | cons c rest =>
            by_cases ok : accepts c = true
            · have same : stop = ⟨c :: before, rest⟩ := by simpa [run, ok] using reached
              exact ⟨[c], ⟨c, ok, rfl⟩, by simp [Spans, same]⟩
            · simp [run, ok] at reached
      · rintro ⟨_, ⟨c, ok, rfl⟩, ahead, behind⟩
        obtain ⟨before', after'⟩ := stop
        change after = c :: after' at ahead
        change before' = c :: before at behind
        simp [run, ahead, behind, ok]
  | seq first second ihFirst ihSecond =>
      rw [run, List.mem_flatMap]
      constructor
      · rintro ⟨middle, taken, reached⟩
        obtain ⟨left, inFirst, spansLeft⟩ := (ihFirst anchorless.1 start middle).mp taken
        obtain ⟨right, inSecond, spansRight⟩ := (ihSecond anchorless.2 middle stop).mp reached
        refine ⟨left ++ right, Language.append_mem_mul inFirst inSecond, ?_⟩
        exact (spans_append left right start stop).mpr ⟨middle, spansLeft, spansRight⟩
      · rintro ⟨word, inBoth, spans⟩
        obtain ⟨left, inFirst, right, inSecond, rfl⟩ := Language.mem_mul.mp inBoth
        obtain ⟨middle, spansLeft, spansRight⟩ := (spans_append left right start stop).mp spans
        exact ⟨middle, (ihFirst anchorless.1 start middle).mpr ⟨left, inFirst, spansLeft⟩,
          (ihSecond anchorless.2 middle stop).mpr ⟨right, inSecond, spansRight⟩⟩
  | alt first second ihFirst ihSecond =>
      rw [run, List.mem_append, ihFirst anchorless.1, ihSecond anchorless.2]
      constructor
      · rintro (⟨word, member, spans⟩ | ⟨word, member, spans⟩)
        · exact ⟨word, .inl member, spans⟩
        · exact ⟨word, .inr member, spans⟩
      · rintro ⟨word, member | member, spans⟩
        · exact .inl ⟨word, member, spans⟩
        · exact .inr ⟨word, member, spans⟩
  | star body ih => exact repeat_language body.language (run body) (ih anchorless) _ start stop (Nat.le_refl _)
  | lineStart | lineEnd => cases anchorless

theorem opt_language (body : Pattern) (word : List Char) : word ∈ body.opt.language ↔ word ∈ body.language ∨ word = [] := Iff.rfl

theorem plus_class_language (accepts : Char → Bool) (word : List Char) :
    word ∈ (Pattern.plus (.cls accepts)).language ↔ word ≠ [] ∧ ∀ c ∈ word, accepts c = true := by
  constructor
  · intro member
    obtain ⟨_, ⟨c, ok, rfl⟩, rest, closure, rfl⟩ := Language.mem_mul.mp member
    obtain ⟨chunks, rfl, each⟩ := Language.mem_kstar.mp closure
    refine ⟨by simp, ?_⟩
    intro d present
    rcases List.mem_cons.mp present with rfl | later
    · exact ok
    · obtain ⟨chunk, inChunks, inChunk⟩ := List.mem_flatten.mp later
      obtain ⟨e, accepted, rfl⟩ := each chunk inChunks
      rw [List.mem_singleton.mp inChunk]
      exact accepted
  · rintro ⟨nonempty, all⟩
    cases word with
    | nil => exact absurd rfl nonempty
    | cons c rest =>
        have closure : rest ∈ (Pattern.cls accepts).language∗ := by
          refine Language.mem_kstar.mpr ⟨rest.map fun d => [d], ?_, ?_⟩
          · rw [← List.flatMap_def, List.flatMap_singleton']
          · intro chunk present
            obtain ⟨d, inRest, rfl⟩ := List.mem_map.mp present
            exact ⟨d, all d (List.mem_cons_of_mem _ inRest), rfl⟩
        have head : [c] ∈ (Pattern.cls accepts).language := ⟨c, all c List.mem_cons_self, rfl⟩
        exact Language.append_mem_mul head closure

theorem test_congr (p q : Pattern) (same : ∀ at_, run p at_ = run q at_) (text : String) : test p text = test q text := by
  have searches : ∀ before after, searchFrom p before after = searchFrom q before after := by
    intro before after
    induction after generalizing before with
    | nil => rw [searchFrom, searchFrom, same]
    | cons c rest ih => rw [searchFrom, searchFrom, same, ih]
  exact searches [] text.toList

theorem anchored_away (body : Pattern) (c : Char) (before after : List Char) :
    searchFrom (.seq (.lineStart false) body) (c :: before) after = false := by
  induction after generalizing c before with
  | nil => rfl
  | cons d rest ih => exact ih d (c :: before)

-- Between the two anchors of a pattern without the m flag stands the whole text.
theorem test_anchored (body : Pattern) (anchorless : Anchorless body) (text : String) :
    test (.seq (.lineStart false) (.seq body (.lineEnd false))) text = true ↔ text.toList ∈ body.language := by
  have first : test (.seq (.lineStart false) (.seq body (.lineEnd false))) text =
      !(run (.seq body (.lineEnd false)) ⟨[], text.toList⟩).isEmpty := by
    unfold test
    cases text.toList with
    | nil => simp [searchFrom, run, atLineStart]
    | cons c rest =>
        rw [searchFrom, anchored_away, Bool.or_false]
        simp [run, atLineStart]
  have ends : (∃ stop, stop ∈ run (.seq body (.lineEnd false)) ⟨[], text.toList⟩) ↔ text.toList ∈ body.language := by
    simp only [run, List.mem_flatMap]
    constructor
    · rintro ⟨stop, middle, taken, reached⟩
      obtain ⟨word, member, spans⟩ := (run_language body anchorless _ middle).mp taken
      have nothing : middle.after = [] := by
        cases left : middle.after with
        | nil => rfl
        | cons c rest => simp [atLineEnd, left] at reached
      have whole : text.toList = word := by
        rw [← List.append_nil word, ← nothing]
        exact spans.1
      rw [whole]
      exact member
    · intro member
      have taken := (run_language body anchorless ⟨[], text.toList⟩ ⟨text.toList.reverse, []⟩).mpr
        ⟨text.toList, member, by simp [Spans]⟩
      exact ⟨_, _, taken, List.mem_singleton.mpr rfl⟩
  rw [first, ← ends, Bool.not_eq_true', List.isEmpty_eq_false_iff_exists_mem]

end Regex
