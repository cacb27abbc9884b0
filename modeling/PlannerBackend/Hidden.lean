import Mathlib.Data.List.Forall2
import PlannerBackend.Effects

set_option autoImplicit false

namespace Docs

variable {F : Type} {key : Option F}

-- Equal on every path but one.
def AgreeOff (hidden : F) (a b : Row F) : Prop := ∀ path, path ≠ hidden → a path = b path

structure SameDoc (hidden : F) (a b : Doc F) : Prop where
  id : a.id = b.id
  row : AgreeOff hidden a.row b.row

structure Resembles (hidden : F) (a b : Collection F key) : Prop where
  next : a.next = b.next
  docs : List.Forall₂ (SameDoc hidden) a.docs b.docs

inductive Outcomes {α : Type} (related : α → α → Prop) : Except String α → Except String α → Prop where
  | error (message : String) : Outcomes related (.error message) (.error message)
  | ok (a b : α) (alike : related a b) : Outcomes related (.ok a) (.ok b)

def AnsAlike (hidden : F) : (cmd : Cmd F) → Ans cmd → Ans cmd → Prop
  | .findOne _ _, a, b => Outcomes (Option.Rel (SameDoc hidden)) a b
  | .find _, a, b => Outcomes (List.Forall₂ (SameDoc hidden)) a b
  | .insert _, a, b => Outcomes (SameDoc hidden) a b
  | .resave _ _, a, b => Outcomes (SameDoc hidden) a b
  | .findOneAndRemove _ _, a, b => Outcomes (Option.Rel (SameDoc hidden)) a b
  | .update _ _ _, a, b => a = b

-- An effect that reads nothing of the hidden path, and keeps it or writes it.
structure Uniform (hidden : F) (effect : Row F → Row F) : Prop where
  agree : ∀ a b, AgreeOff hidden a b → AgreeOff hidden (effect a) (effect b)
  writes : (∀ row, effect row hidden = row hidden) ∨ ∃ stored, ∀ row, effect row hidden = some stored

-- The commands that do not look at the hidden path.
def Blind (hidden : F) : Cmd F → Prop
  | .findOne path _ => path ≠ hidden
  | .find none => True
  | .find (some (path, _)) => path ≠ hidden
  | .insert _ => True
  | .resave _ _ => False
  | .findOneAndRemove path _ => path ≠ hidden
  | .update path _ (.apply effect) => path ≠ hidden ∧ Uniform hidden effect
  | .update _ _ _ => True

-- What an update writes to the hidden path was not there before.
def Fresh (hidden : F) (cast : Js.Value → Except String Condition) (held : Collection F key) : Cmd F → Prop
  | .update path value (.apply effect) => ∀ condition, cast value = .ok condition →
    ∀ doc ∈ held.docs, condition (doc.row path) = true →
      ∀ stored, (∀ row, effect row hidden = some stored) → doc.row hidden ≠ some stored
  | _ => True

section Lists

variable {α : Type} {related : α → α → Prop}

theorem all_alike (p q : α → Bool) (xs ys : List α) (alike : List.Forall₂ related xs ys) (same : ∀ x y, related x y → p x = q y) :
    xs.all p = ys.all q := by
  induction alike with
  | nil => rfl
  | cons head tail ih => rw [List.all_cons, List.all_cons, same _ _ head, ih]

theorem lookup_alike (xs ys : List α) (alike : List.Forall₂ related xs ys) (i : Nat) : Option.Rel related xs[i]? ys[i]? := by
  induction alike generalizing i with
  | nil => exact .none
  | cons head tail ih =>
      cases i with
      | zero => exact .some head
      | succ i => exact ih i

theorem choose_alike (n : Nat) (xs ys : List α) (alike : List.Forall₂ related xs ys) :
    Option.Rel related (choose n xs) (choose n ys) := by
  unfold choose
  rw [alike.length_eq]
  exact lookup_alike xs ys alike _

theorem rel_cases (x y : Option α) (alike : Option.Rel related x y) :
    x = none ∧ y = none ∨ ∃ a b, x = some a ∧ y = some b ∧ related a b := by
  cases alike with
  | none => exact .inl ⟨rfl, rfl⟩
  | some here => exact .inr ⟨_, _, rfl, rfl, here⟩

end Lists

section Collections

variable (hidden : F) (a b : Collection F key) (alike : Resembles hidden a b)

include alike

theorem matching_alike (path : F) (visible : path ≠ hidden) (condition : Condition) :
    List.Forall₂ (SameDoc hidden) (matching a path condition) (matching b path condition) := by
  apply List.rel_filter _ alike.docs
  intro x y same
  dsimp only
  rw [same.row path visible]

theorem admits_alike (visible : key ≠ some hidden) (r s : Row F) (same : AgreeOff hidden r s) (replacing : Option Nat) :
    admits a r replacing = admits b s replacing := by
  cases key with
  | none => rfl
  | some path =>
      have shown : path ≠ hidden := fun equal => visible (congrArg some equal)
      apply all_alike _ _ _ _ alike.docs
      intro x y twins
      rw [twins.id, twins.row path shown, same path shown]

theorem push_alike (r s : Row F) (same : AgreeOff hidden r s) (okA : admits a r .none = true) (okB : admits b s .none = true) :
    Resembles hidden (a.push r okA) (b.push s okB) :=
  ⟨congrArg (· + 1) alike.next, List.rel_append alike.docs (.cons ⟨alike.next, same⟩ .nil)⟩

theorem replace_alike (i j : Nat) (named : i = j) (r s : Row F) (same : AgreeOff hidden r s) (okA : admits a r (some i) = true)
    (okB : admits b s (some j) = true) : Resembles hidden (a.replace i r okA) (b.replace j s okB) := by
  subst named
  refine ⟨alike.next, List.rel_map ?_ alike.docs⟩
  intro x y twins
  dsimp only
  by_cases here : x.id = i
  · rw [if_pos here, if_pos (twins.id ▸ here)]
    exact ⟨rfl, same⟩
  · rw [if_neg here, if_neg (twins.id ▸ here)]
    exact twins

theorem remove_alike (i j : Nat) (named : i = j) : Resembles hidden (a.remove i) (b.remove j) := by
  subst named
  refine ⟨alike.next, List.rel_filter ?_ alike.docs⟩
  intro x y twins
  dsimp only
  rw [twins.id]

end Collections

section Exec

variable [Paths F] (hidden : F) (cast : Js.Value → Except String Condition) (n : Nat) (a b : Collection F key)
  (alike : Resembles hidden a b)

theorem same_row_alike (effect : Row F → Row F) (uniform : Uniform hidden effect) (r s : Row F) (same : AgreeOff hidden r s)
    (fresh : ∀ stored, (∀ row, effect row hidden = some stored) → r hidden ≠ some stored ∧ s hidden ≠ some stored) :
    sameRow r (effect r) = sameRow s (effect s) := by
  have each : ∀ path, (r path == effect r path) = (s path == effect s path) := by
    intro path
    by_cases here : path = hidden
    · subst here
      rcases uniform.writes with keeps | ⟨stored, writes⟩
      · rw [keeps r, keeps s, beq_self_eq_true, beq_self_eq_true]
      · obtain ⟨notR, notS⟩ := fresh stored writes
        rw [writes r, writes s, beq_eq_false_iff_ne.mpr notR, beq_eq_false_iff_ne.mpr notS]
    · rw [same path here, uniform.agree r s same path here]
  unfold sameRow
  rw [funext each]

def Answered (cmd : Cmd F) (first second : Ans cmd × Collection F key) : Prop :=
  AnsAlike hidden cmd first.1 second.1 ∧ Resembles hidden first.2 second.2

include alike

theorem find_one_alike (path : F) (value : Js.Value) (visible : path ≠ hidden) :
    Answered hidden _ (exec cast (.findOne path value) (.pick n) a) (exec cast (.findOne path value) (.pick n) b) := by
  cases seen : cast value with
  | error message =>
      simp only [exec, seen]
      exact ⟨.error message, alike⟩
  | ok condition =>
      simp only [exec, seen]
      exact ⟨.ok _ _ (choose_alike n _ _ (matching_alike hidden a b alike path visible condition)), alike⟩

theorem find_alike (condition : Option (F × Js.Value)) (blind : Blind hidden (.find condition)) :
    Answered hidden _ (exec cast (.find condition) (.pick n) a) (exec cast (.find condition) (.pick n) b) := by
  cases condition with
  | none => exact ⟨.ok _ _ alike.docs, alike⟩
  | some pair =>
      obtain ⟨path, value⟩ := pair
      cases seen : cast value with
      | error message =>
          simp only [exec, seen]
          exact ⟨.error message, alike⟩
      | ok condition =>
          simp only [exec, seen]
          exact ⟨.ok _ _ (matching_alike hidden a b alike path blind condition), alike⟩

theorem insert_alike (visible : key ≠ some hidden) (row : Except String (Row F)) :
    Answered hidden _ (exec cast (.insert row) (.pick n) a) (exec cast (.insert row) (.pick n) b) := by
  cases row with
  | error message => exact ⟨.error message, alike⟩
  | ok row =>
      have admitted := admits_alike hidden a b alike visible row row (fun _ _ => rfl) .none
      by_cases ok : admits a row .none = true
      · simp only [exec, dif_pos ok, dif_pos (admitted ▸ ok)]
        exact ⟨.ok _ _ ⟨alike.next, fun _ _ => rfl⟩, push_alike hidden a b alike row row (fun _ _ => rfl) ok (admitted ▸ ok)⟩
      · simp only [exec, dif_neg ok, dif_neg (admitted ▸ ok)]
        exact ⟨.error duplicateKey, alike⟩

theorem find_one_and_remove_alike (path : F) (value : Js.Value) (visible : path ≠ hidden) :
    Answered hidden _ (exec cast (.findOneAndRemove path value) (.pick n) a)
    (exec cast (.findOneAndRemove path value) (.pick n) b) := by
  cases seen : cast value with
  | error message =>
      simp only [exec, seen]
      exact ⟨.error message, alike⟩
  | ok condition =>
      rcases rel_cases _ _ (choose_alike n _ _ (matching_alike hidden a b alike path visible condition))
        with ⟨atA, atB⟩ | ⟨x, y, atA, atB, twins⟩
      · simp only [exec, seen, atA, atB]
        exact ⟨.ok _ _ .none, alike⟩
      · simp only [exec, seen, atA, atB]
        exact ⟨.ok _ _ (.some twins), remove_alike hidden a b alike x.id y.id twins.id⟩

theorem update_alike (visible : key ≠ some hidden) (path : F) (value : Js.Value) (change : Change F)
    (blind : Blind hidden (.update path value change)) (freshA : Fresh hidden cast a (.update path value change))
    (freshB : Fresh hidden cast b (.update path value change)) :
    Answered hidden _ (exec cast (.update path value change) (.pick n) a)
    (exec cast (.update path value change) (.pick n) b) := by
  cases change with
  | rejected message => exact ⟨rfl, alike⟩
  | empty =>
      cases seen : cast value with
      | error message =>
          simp only [exec, seen]
          exact ⟨rfl, alike⟩
      | ok condition =>
          simp only [exec, seen]
          exact ⟨rfl, alike⟩
  | apply effect =>
      obtain ⟨shown, uniform⟩ := blind
      cases seen : cast value with
      | error message =>
          simp only [exec, seen]
          exact ⟨rfl, alike⟩
      | ok condition =>
          rcases rel_cases _ _ (choose_alike n _ _ (matching_alike hidden a b alike path shown condition))
            with ⟨atA, atB⟩ | ⟨x, y, atA, atB, twins⟩
          · simp only [exec, seen, atA, atB]
            exact ⟨rfl, alike⟩
          · obtain ⟨inA, holdsA⟩ := (matching_mem a path condition x).mp (choose_mem _ _ _ atA)
            obtain ⟨inB, holdsB⟩ := (matching_mem b path condition y).mp (choose_mem _ _ _ atB)
            have rows := uniform.agree x.row y.row twins.row
            have admitted := admits_alike hidden a b alike visible _ _ rows (some x.id)
            have changed := same_row_alike hidden effect uniform x.row y.row twins.row fun stored writes =>
              ⟨freshA condition seen x inA holdsA stored writes, freshB condition seen y inB holdsB stored writes⟩
            by_cases ok : admits a (effect x.row) (some x.id) = true
            · have okB : admits b (effect y.row) (some y.id) = true := by rw [← twins.id, ← admitted, ok]
              simp only [exec, seen, atA, atB, dif_pos ok, dif_pos okB, changed]
              exact ⟨rfl, replace_alike hidden a b alike x.id y.id twins.id _ _ rows ok okB⟩
            · have notB : ¬ admits b (effect y.row) (some y.id) = true := by rw [← twins.id, ← admitted]; exact ok
              simp only [exec, seen, atA, atB, dif_neg ok, dif_neg notB]
              exact ⟨rfl, alike⟩

-- A command that does not look at the hidden path is answered alike by
-- collections that differ there only.
theorem exec_alike (visible : key ≠ some hidden) (cmd : Cmd F) (choice : Choice) (blind : Blind hidden cmd)
    (freshA : Fresh hidden cast a cmd) (freshB : Fresh hidden cast b cmd) :
    Answered hidden cmd (exec cast cmd choice a) (exec cast cmd choice b) := by
  cases choice with
  | fail message =>
      refine ⟨?_, alike⟩
      cases cmd with
      | update => rfl
      | _ => exact .error message
  | pick n =>
      cases cmd with
      | findOne path value => exact find_one_alike hidden cast n a b alike path value blind
      | find condition => exact find_alike hidden cast n a b alike condition blind
      | insert row => exact insert_alike hidden cast n a b alike visible row
      | resave => cases blind
      | findOneAndRemove path value => exact find_one_and_remove_alike hidden cast n a b alike path value blind
      | update path value change => exact update_alike hidden cast n a b alike visible path value change blind freshA freshB

end Exec

end Docs
