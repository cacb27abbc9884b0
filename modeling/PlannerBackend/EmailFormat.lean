import Mathlib.Data.List.Chain
import PlannerBackend.Language
import PlannerBackend.Libs

set_option autoImplicit false

open scoped Computability

namespace Planner

open Regex

-- Not both '.' or '-'.
def Apart (a b : Char) : Prop := ¬ (isSeparator a = true ∧ isSeparator b = true)

-- What may stand on either side of the '@'.
structure Labels (part : List Char) : Prop where
  letters : ∀ c ∈ part, isWord c = true ∨ isSeparator c = true
  first : ∃ c, part.head? = some c ∧ isWord c = true
  last : ∃ c, part.getLast? = some c ∧ isWord c = true
  apart : part.IsChain Apart

-- The last separator is a dot, with two or three characters behind it.
def EndsInLabel (part : List Char) : Prop :=
  ∃ front label, part = front ++ '.' :: label ∧ (∀ c ∈ label, isSeparator c = false) ∧ (label.length = 2 ∨ label.length = 3)

structure EmailShape (email name domain : List Char) : Prop where
  split : email = name ++ '@' :: domain
  single : '@' ∉ name ∧ '@' ∉ domain
  nameLabels : Labels name
  domainLabels : Labels domain
  suffix : EndsInLabel domain

def wordPattern : Pattern := .plus (.cls isWord)

def joinPattern : Pattern := .seq (.opt (.cls isSeparator)) wordPattern

def labelsPattern : Pattern := .seq wordPattern (.star joinPattern)

def suffixPattern : Pattern := .seq (.cls (· == '.')) (.seq (.cls isWord) (.seq (.cls isWord) (.opt (.cls isWord))))

theorem email_regex_parts :
    emailRegex = .seq (.lineStart false)
      (.seq labelsPattern (.seq (.cls (· == '@')) (.seq labelsPattern (.seq (.plus suffixPattern) (.lineEnd false))))) := rfl

theorem word_not_separator (c : Char) (word : isWord c = true) : isSeparator c = false := by
  cases separator : isSeparator c with
  | false => rfl
  | true =>
      simp only [isSeparator, Bool.or_eq_true, beq_iff_eq] at separator
      rcases separator with rfl | rfl <;> cases word

theorem apart_left (a b : Char) (word : isWord a = true) : Apart a b := by
  intro both
  rw [word_not_separator a word] at both
  cases both.1

theorem apart_right (a b : Char) (word : isWord b = true) : Apart a b := by
  intro both
  rw [word_not_separator b word] at both
  cases both.2

theorem join_language (word : List Char) :
    word ∈ joinPattern.language ↔ ∃ letters, (letters ≠ [] ∧ ∀ c ∈ letters, isWord c = true) ∧
      (word = letters ∨ ∃ separator, isSeparator separator = true ∧ word = separator :: letters) := by
  constructor
  · intro member
    obtain ⟨front, optional, letters, inWord, rfl⟩ := Language.mem_mul.mp member
    refine ⟨letters, (plus_class_language isWord letters).mp inWord, ?_⟩
    rcases (opt_language _ front).mp optional with ⟨separator, ok, rfl⟩ | rfl
    · exact .inr ⟨separator, ok, rfl⟩
    · exact .inl rfl
  · rintro ⟨letters, words, shape⟩
    have inWord := (plus_class_language isWord letters).mpr words
    rcases shape with rfl | ⟨separator, ok, rfl⟩
    · exact Language.append_mem_mul ((opt_language (.cls isSeparator) []).mpr (.inr rfl)) inWord
    · exact Language.append_mem_mul ((opt_language (.cls isSeparator) [separator]).mpr (.inl ⟨separator, ok, rfl⟩)) inWord

theorem words_labels (letters : List Char) (nonempty : letters ≠ [])
    (words : ∀ c ∈ letters, isWord c = true) : Labels letters where
  letters := fun c member => .inl (words c member)
  first := ⟨letters.head nonempty, List.head?_eq_some_head nonempty, words _ (List.head_mem nonempty)⟩
  last := ⟨letters.getLast nonempty, List.getLast?_eq_some_getLast nonempty, words _ (List.getLast_mem nonempty)⟩
  apart := by
    apply List.Pairwise.isChain
    apply List.Pairwise.imp_of_mem (fun member _ _ => apart_left _ _ (words _ member))
      (List.pairwise_of_forall fun _ _ => trivial)

-- Labels go on with a word, or with a separator and a word.
theorem labels_append (part next : List Char) (labels : Labels part) (joins : next ∈ joinPattern.language) :
    Labels (part ++ next) := by
  obtain ⟨letters, ⟨nonempty, words⟩, shape⟩ := (join_language next).mp joins
  have tail := words_labels letters nonempty words
  obtain ⟨c, head, firstWord⟩ := labels.first
  obtain ⟨d, last, lastWord⟩ := tail.last
  obtain ⟨e, end_, endWord⟩ := labels.last
  have before : ∀ x ∈ part.getLast?, ∀ y, Apart x y := by
    intro x same y
    cases end_.symm.trans same
    exact apart_left e y endWord
  rcases shape with rfl | ⟨separator, ok, rfl⟩
  · refine ⟨?_, ⟨c, by simp [head], firstWord⟩, ⟨d, by simp [last], lastWord⟩, ?_⟩
    · intro x member
      rcases List.mem_append.mp member with left | right
      · exact labels.letters x left
      · exact tail.letters x right
    · exact labels.apart.append tail.apart fun x inPart y _ => before x inPart y
  · refine ⟨?_, ⟨c, by simp [head], firstWord⟩, ⟨d, by simp [List.getLast?_cons, last], lastWord⟩, ?_⟩
    · intro x member
      rcases List.mem_append.mp member with left | right
      · exact labels.letters x left
      · rcases List.mem_cons.mp right with rfl | later
        · exact .inr ok
        · exact tail.letters x later
    · refine labels.apart.append (tail.apart.cons ?_) fun x inPart y _ => before x inPart y
      intro y inLetters
      exact apart_right separator y (words y (List.mem_of_mem_head? inLetters))

theorem labels_flatten (chunks : List (List Char)) (part : List Char) (labels : Labels part)
    (joins : ∀ chunk ∈ chunks, chunk ∈ joinPattern.language) : Labels (part ++ chunks.flatten) := by
  induction chunks generalizing part with
  | nil => simpa using labels
  | cons chunk rest ih =>
      rw [List.flatten_cons, ← List.append_assoc]
      exact ih (part ++ chunk) (labels_append part chunk labels (joins chunk List.mem_cons_self))
        fun other member => joins other (List.mem_cons_of_mem _ member)

-- Behind a word character: every word character is a chunk of its own, and a
-- separator takes the next one with it.
theorem joined (before : Char) (rest : List Char) (letters : ∀ c ∈ rest, isWord c = true ∨ isSeparator c = true)
    (apart : (before :: rest).IsChain Apart) (last : ∃ c, (before :: rest).getLast? = some c ∧ isWord c = true) :
    rest ∈ joinPattern.language∗ := by
  cases rest with
  | nil => exact Language.nil_mem_kstar _
  | cons c tail =>
      rw [← Language.one_add_self_mul_kstar_eq_kstar]
      rcases letters c List.mem_cons_self with word | separator
      · have chunk : [c] ∈ joinPattern.language := (join_language [c]).mpr ⟨[c], ⟨by simp, by simpa using word⟩, .inl rfl⟩
        exact .inr (Language.append_mem_mul chunk
          (joined c tail (fun d member => letters d (List.mem_cons_of_mem _ member)) apart.tail (by simpa using last)))
      · cases tail with
        | nil =>
            obtain ⟨d, same, word⟩ := last
            cases same
            rw [word_not_separator c word] at separator
            cases separator
        | cons d tail =>
            have word : isWord d = true := by
              rcases letters d (by simp) with word | other
              · exact word
              · exact absurd ⟨separator, other⟩ (List.isChain_cons_cons.mp apart.tail).1
            have chunk : [c, d] ∈ joinPattern.language :=
              (join_language [c, d]).mpr ⟨[d], ⟨by simp, by simpa using word⟩, .inr ⟨c, separator, rfl⟩⟩
            exact .inr (Language.append_mem_mul chunk
              (joined d tail (fun e member => letters e (by simp [member])) apart.tail.tail (by simpa using last)))
termination_by rest.length

theorem labels_language (part : List Char) : part ∈ labelsPattern.language ↔ Labels part := by
  constructor
  · intro member
    obtain ⟨word, inWord, rest, closure, rfl⟩ := Language.mem_mul.mp member
    obtain ⟨nonempty, words⟩ := (plus_class_language isWord word).mp inWord
    obtain ⟨chunks, rfl, joins⟩ := Language.mem_kstar.mp closure
    exact labels_flatten chunks word (words_labels word nonempty words) joins
  · intro labels
    obtain ⟨c, head, word⟩ := labels.first
    cases part with
    | nil => cases head
    | cons d rest =>
        cases head
        have first : [c] ∈ wordPattern.language := (plus_class_language isWord [c]).mpr ⟨by simp, by simpa using word⟩
        have closure := joined c rest (fun e member => labels.letters e (List.mem_cons_of_mem _ member)) labels.apart labels.last
        exact Language.append_mem_mul first closure

theorem suffix_language (word : List Char) : word ∈ suffixPattern.language ↔
    ∃ label, word = '.' :: label ∧ (∀ c ∈ label, isWord c = true) ∧ (label.length = 2 ∨ label.length = 3) := by
  constructor
  · intro member
    obtain ⟨_, ⟨dot, isDot, rfl⟩, _, label, rfl⟩ := Language.mem_mul.mp member
    obtain ⟨_, ⟨a, wordA, rfl⟩, _, others, rfl⟩ := Language.mem_mul.mp label
    obtain ⟨_, ⟨b, wordB, rfl⟩, _, optional, rfl⟩ := Language.mem_mul.mp others
    cases beq_iff_eq.mp isDot
    rcases (opt_language _ _).mp optional with ⟨c, wordC, rfl⟩ | rfl
    · exact ⟨[a, b, c], rfl, by simp [wordA, wordB, wordC], .inr rfl⟩
    · exact ⟨[a, b], rfl, by simp [wordA, wordB], .inl rfl⟩
  · rintro ⟨label, rfl, words, long⟩
    have dot : ['.'] ∈ (Pattern.cls (· == '.')).language := ⟨'.', rfl, rfl⟩
    have letter : ∀ c ∈ label, [c] ∈ (Pattern.cls isWord).language := fun c member => ⟨c, words c member, rfl⟩
    have behind : ∀ a b rest, label = a :: b :: rest → rest ∈ (Pattern.cls isWord).opt.language →
        '.' :: label ∈ suffixPattern.language := by
      rintro a b rest rfl optional
      exact Language.append_mem_mul dot
        (Language.append_mem_mul (letter a (by simp)) (Language.append_mem_mul (letter b (by simp)) optional))
    rcases long with two | three
    · obtain ⟨a, b, rfl⟩ := List.length_eq_two.mp two
      exact behind a b [] rfl ((opt_language (.cls isWord) []).mpr (.inr rfl))
    · obtain ⟨a, b, c, rfl⟩ := List.length_eq_three.mp three
      exact behind a b [c] rfl ((opt_language (.cls isWord) [c]).mpr (.inl (letter c (by simp))))

theorem suffix_joins (word : List Char) (member : word ∈ suffixPattern.language) : word ∈ joinPattern.language := by
  obtain ⟨label, rfl, words, long⟩ := (suffix_language word).mp member
  refine (join_language _).mpr ⟨label, ⟨?_, words⟩, .inr ⟨'.', by decide, rfl⟩⟩
  rintro rfl
  simp at long

-- What stands before a dot of labels is labels itself.
theorem labels_front (front rest : List Char) (labels : Labels (front ++ '.' :: rest)) : Labels front := by
  obtain ⟨c, head, word⟩ := labels.first
  have nonempty : front ≠ [] := by
    rintro rfl
    cases head
    cases word
  have before := (List.isChain_append.mp labels.apart).2.2
  refine ⟨fun d member => labels.letters d (by simp [member]), ⟨c, ?_, word⟩, ?_, labels.apart.left_of_append⟩
  · cases front with
    | nil => exact absurd rfl nonempty
    | cons d tail => exact head
  · refine ⟨front.getLast nonempty, List.getLast?_eq_some_getLast nonempty, ?_⟩
    rcases labels.letters (front.getLast nonempty) (List.mem_append_left _ (List.getLast_mem nonempty)) with last | separator
    · exact last
    · exact absurd ⟨separator, by decide⟩ (before _ (List.getLast?_eq_some_getLast nonempty) '.' rfl)

theorem domain_language (domain : List Char) :
    domain ∈ labelsPattern.language * (Pattern.plus suffixPattern).language ↔ Labels domain ∧ EndsInLabel domain := by
  have closure : (Pattern.plus suffixPattern).language = suffixPattern.language∗ * suffixPattern.language :=
    (Language.mul_self_kstar_comm _).symm
  rw [closure]
  constructor
  · intro member
    obtain ⟨part, inLabels, _, suffixes, rfl⟩ := Language.mem_mul.mp member
    obtain ⟨_, repeated, last, inSuffix, rfl⟩ := Language.mem_mul.mp suffixes
    obtain ⟨chunks, rfl, each⟩ := Language.mem_kstar.mp repeated
    have front := labels_flatten chunks part ((labels_language part).mp inLabels) fun chunk present =>
        suffix_joins chunk (each chunk present)
    rw [← List.append_assoc]
    refine ⟨labels_append _ last front (suffix_joins last inSuffix), ?_⟩
    obtain ⟨label, rfl, words, long⟩ := (suffix_language last).mp inSuffix
    exact ⟨_, label, rfl, fun c inLabel => word_not_separator c (words c inLabel), long⟩
  · rintro ⟨labels, front, label, rfl, closed, long⟩
    have words : ∀ c ∈ label, isWord c = true := by
      intro c member
      rcases labels.letters c (by simp [member]) with word | separator
      · exact word
      · rw [closed c member] at separator
        cases separator
    have suffix := (suffix_language ('.' :: label)).mpr ⟨label, rfl, words, long⟩
    exact Language.append_mem_mul ((labels_language front).mpr (labels_front front label labels))
      (Language.append_mem_mul (Language.nil_mem_kstar suffixPattern.language) suffix)

theorem labels_no_at (part : List Char) (labels : Labels part) : '@' ∉ part := by
  intro member
  rcases labels.letters '@' member with word | separator
  · cases word
  · cases separator

def emailBody : Pattern := .seq labelsPattern (.seq (.cls (· == '@')) (.seq labelsPattern (.plus suffixPattern)))

theorem email_body_anchorless : Anchorless emailBody := by
  simp [emailBody, labelsPattern, joinPattern, wordPattern, suffixPattern, Pattern.plus, Pattern.opt, Anchorless]

theorem email_regex_language (s : String) : test emailRegex s = true ↔ s.toList ∈ emailBody.language := by
  rw [← test_anchored emailBody email_body_anchorless]
  have same : ∀ at_, run emailRegex at_ = run (.seq (.lineStart false) (.seq emailBody (.lineEnd false))) at_ := by
    intro at_
    rw [email_regex_parts]
    simp only [run, emailBody, List.flatMap_assoc]
  rw [test_congr _ _ same]

theorem email_accepts_iff_shaped (s : String) :
    Email (.str s) = .ok true ↔ ∃ name domain, EmailShape s.toList name domain := by
  have accepted : Email (.str s) = .ok true ↔ test emailRegex s = true := by simp [Email]
  rw [accepted, email_regex_language]
  constructor
  · intro member
    obtain ⟨name, inName, _, rest, same⟩ := Language.mem_mul.mp member
    obtain ⟨_, ⟨c, isAt, rfl⟩, domain, inDomain, rfl⟩ := Language.mem_mul.mp rest
    cases beq_iff_eq.mp isAt
    obtain ⟨labels, suffix⟩ := (domain_language domain).mp inDomain
    have nameLabels := (labels_language name).mp inName
    exact ⟨name, domain, same.symm, ⟨labels_no_at name nameLabels, labels_no_at domain labels⟩, nameLabels, labels, suffix⟩
  · rintro ⟨name, domain, shape⟩
    rw [shape.split]
    have at_ : ['@'] ∈ (Pattern.cls (· == '@')).language := ⟨'@', rfl, rfl⟩
    have inDomain := (domain_language domain).mpr ⟨shape.domainLabels, shape.suffix⟩
    exact Language.append_mem_mul ((labels_language name).mpr shape.nameLabels) (Language.append_mem_mul at_ inDomain)

end Planner
