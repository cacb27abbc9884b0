import PlannerBackend.Effects
import PlannerBackend.Routes

set_option autoImplicit false

namespace Planner

open Docs Resume

def wrote : (op : Op) → Answer op → Bool
  | .users cmd, ans => performed cmd ans
  | .auths cmd, ans => performed cmd ans
  | .meetings cmd, ans => performed cmd ans
  | .compare _ _, _ => false

def affectedBy : (op : Op) → Answer op → Nat
  | .users cmd, ans => affected cmd ans
  | .auths cmd, ans => affected cmd ans
  | .meetings cmd, ans => affected cmd ans
  | .compare _ _, _ => 0

def MatchedBy (pkg : Packages) (store : Store) : Op → Prop
  | .users cmd => Matched pkg.castQuery store.users cmd
  | .auths cmd => Matched pkg.castQuery store.auths cmd
  | .meetings cmd => Matched pkg.castQuery store.meetings cmd
  | .compare _ _ => True

-- The number of documents inserted, matched or removed in the one collection
-- the command works on; the others stay.
def Affects (before after : Store) (n : Nat) : Op → Prop
  | .users _ => Touched before.users after.users n ∧ after.auths = before.auths ∧ after.meetings = before.meetings
  | .auths _ => Touched before.auths after.auths n ∧ after.users = before.users ∧ after.meetings = before.meetings
  | .meetings _ => Touched before.meetings after.meetings n ∧ after.users = before.users ∧ after.auths = before.auths
  | .compare _ _ => n = 0 ∧ after = before

-- Commands that left no write behind, on top of an earlier history.
inductive Quiet (past : History sig) : History sig → Prop where
  | here : Quiet past past
  | asked (op : Op) (ans : Answer op) (h : History sig) (quiet : Quiet past h) (idle : wrote op ans = false) :
      Quiet past (.asked op ans :: h)

theorem quiet_trans (past between now : History sig) (first : Quiet past between)
    (second : Quiet between now) : Quiet past now := by
  induction second with
  | here => exact first
  | asked op ans h _ idle ih => exact .asked op ans h ih idle

def Refused (response : Response) : Prop := response.error = true ∧ response.status ≠ 200 ∧ response.data = .null

theorem refused_generate (message : String) (status : Nat) (bad : (status == 200) = false) :
    Refused (generate true message status .null) :=
  ⟨rfl, by simpa [generate] using bad, rfl⟩

theorem auths_executed (pkg : Packages) (cmd : Cmd AuthField) (choice : Choice) (store : Store) (ans : Ans cmd)
    (answer : (execute pkg (.auths cmd) choice store).1 = ans) :
    Executed pkg.castQuery store.auths cmd ans (execute pkg (.auths cmd) choice store).2.auths := by
  subst answer
  exact exec_executed pkg.castQuery cmd choice store.auths

theorem noted_executed (pkg : Packages) (cmd other : Cmd AuthField) (choice : Choice) (auths : Collection AuthField none)
    (ans : Ans other) (same : (.asked (.auths cmd) (exec pkg.castQuery cmd choice auths).1 : Note sig) =
    .asked (.auths other) ans) :
    cmd = other ∧ Executed pkg.castQuery auths other ans (exec pkg.castQuery cmd choice auths).2 := by
  have done := exec_executed pkg.castQuery cmd choice auths
  injection same with sameOp sameAns
  cases sameOp
  rw [eq_of_heq sameAns] at done
  exact ⟨rfl, done⟩

theorem execute_idle (pkg : Packages) (op : Op) (choice : Choice) (store : Store)
    (idle : wrote op (execute pkg op choice store).1 = false) : (execute pkg op choice store).2 = store := by
  cases op with
  | compare => cases choice <;> rfl
  | users cmd =>
      have same := executed_idle _ _ _ cmd _ (exec_executed pkg.castQuery cmd choice store.users) idle
      simp only [execute, same]
  | auths cmd =>
      have same := executed_idle _ _ _ cmd _ (exec_executed pkg.castQuery cmd choice store.auths) idle
      simp only [execute, same]
  | meetings cmd =>
      have same := executed_idle _ _ _ cmd _ (exec_executed pkg.castQuery cmd choice store.meetings) idle
      simp only [execute, same]

theorem execute_affects (pkg : Packages) (op : Op) (choice : Choice) (store : Store) :
    Affects store (execute pkg op choice store).2 (affectedBy op (execute pkg op choice store).1) op := by
  cases op with
  | compare => cases choice <;> exact ⟨rfl, rfl⟩
  | users cmd => exact ⟨executed_touched _ _ _ cmd _ (exec_executed pkg.castQuery cmd choice store.users), rfl, rfl⟩
  | auths cmd => exact ⟨executed_touched _ _ _ cmd _ (exec_executed pkg.castQuery cmd choice store.auths), rfl, rfl⟩
  | meetings cmd => exact ⟨executed_touched _ _ _ cmd _ (exec_executed pkg.castQuery cmd choice store.meetings), rfl, rfl⟩

theorem execute_matched (pkg : Packages) (op : Op) (choice : Choice) (store : Store)
    (went : wrote op (execute pkg op choice store).1 = true) :
    affectedBy op (execute pkg op choice store).1 = 1 ↔ MatchedBy pkg store op := by
  cases op with
  | compare => cases went
  | users cmd => exact executed_matched _ _ _ cmd _ (exec_executed pkg.castQuery cmd choice store.users) went
  | auths cmd => exact executed_matched _ _ _ cmd _ (exec_executed pkg.castQuery cmd choice store.auths) went
  | meetings cmd => exact executed_matched _ _ _ cmd _ (exec_executed pkg.castQuery cmd choice store.meetings) went

theorem execute_meetings (pkg : Packages) (op : Op) (choice : Choice) (store : Store)
    (changed : (execute pkg op choice store).2.meetings ≠ store.meetings) : ∃ cmd, op = .meetings cmd ∧ isWrite cmd = true := by
  cases op with
  | users | auths => exact absurd rfl changed
  | compare => cases choice <;> exact absurd rfl changed
  | meetings cmd =>
      refine ⟨cmd, rfl, ?_⟩
      cases writes : isWrite cmd with
      | true => rfl
      | false =>
          have done := exec_executed pkg.castQuery cmd choice store.meetings
          exact absurd (executed_idle _ _ _ cmd _ done (read_idle cmd _ writes)) changed

theorem execute_users (pkg : Packages) (op : Op) (choice : Choice) (store : Store) (doc : Doc UserField)
    (member : doc ∈ store.users.docs) (lost : doc ∉ (execute pkg op choice store).2.users.docs) :
    ∃ cmd, op = .users cmd ∧ keeps cmd = false := by
  cases op with
  | meetings | auths => exact absurd member lost
  | compare => cases choice <;> exact absurd member lost
  | users cmd =>
      refine ⟨cmd, rfl, ?_⟩
      cases kept : keeps cmd with
      | false => rfl
      | true =>
          have done := exec_executed pkg.castQuery cmd choice store.users
          exact absurd (executed_keeps _ _ _ cmd _ done kept doc member) lost

section Stages

variable (spec : Spec sig) (pkg : Packages) (req : Request) (known : Option Body) (past : History sig)

theorem meets_when_found {α : Type} (result : Option α) (view : α → Js.Value) (missing : Process) (present : α → Process)
    (seen : ∀ found, isEmpty (view found) = .ok false) (none : result = none → Meets spec missing known past)
    (some : ∀ found, result = some found → Meets spec (present found) known past) :
    Meets spec (whenFound result view missing present) known past := by
  cases result with
  | none => exact none rfl
  | some found =>
      rw [when_found_some found view missing present (seen found)]
      exact some found rfl

theorem meets_reject_shared (reject : Body → Process) (response : Response) :
    Meets spec (rejectShared reject response) known past ↔ Meets spec (reject (.api response)) (some (.api response)) past :=
  meets_assign_fetch spec _ _ known past

theorem bad_later (reject : Body → Process)
    (bad : ∀ h response, Quiet past h → Refused response → ∀ known, Meets spec (reject (.api response)) known h) (op : Op)
    (ans : Answer op) (idle : wrote op ans = false) (h : History sig) (response : Response)
    (quiet : Quiet (.asked op ans :: past) h) (refused : Refused response) (known : Option Body) :
    Meets spec (reject (.api response)) known h :=
  bad h response (quiet_trans past _ h (.asked op ans past .here idle) quiet) refused known

theorem is_authorized_rule (next : Option String → Process)
    (refuse : ∀ h response, Quiet past h → Refused response → ∀ known, Meets spec (send response) known h)
    (look : spec.asks past (.auths (.findOne .authToken (presentedToken req))))
    (pass : ∀ (auth : Doc AuthField) (now : Nat) (decoded : Claims),
      verifyClaim pkg (text (auth.row .authToken)) (text (auth.row .tokenSecret)) now = some decoded →
      Meets spec (.emit (.authorised (text (decoded.data .userId))) (next (text (decoded.data .userId)))) none
        (.asked (.auths (.findOne .authToken (presentedToken req))) (.ok (some auth)) :: past)) :
    Meets spec (isAuthorized pkg req next) known past := by
  unfold isAuthorized
  by_cases given : Js.truthy (presentedToken req) = true
  · rw [if_pos given]
    refine ⟨look, ?_⟩
    intro ans
    cases ans with
    | error message => exact refuse _ _ (.asked _ _ _ .here rfl) (refused_generate _ 500 rfl) none
    | ok found =>
        apply meets_when_found spec none _ found documentValue _ _ is_empty_document
        · intro absent
          subst absent
          exact refuse _ _ (.asked _ _ _ .here rfl) (refused_generate _ 404 rfl) none
        · intro auth here at_
          subst here
          dsimp only
          cases checked : verifyClaim pkg (text (auth.row .authToken)) (text (auth.row .tokenSecret)) at_.now with
          | none => exact refuse _ _ (.asked _ _ _ .here rfl) (refused_generate _ 500 rfl) none
          | some decoded => exact pass auth at_.now decoded checked
  · rw [if_neg given]
    exact refuse past _ .here (refused_generate _ 400 rfl) known

end Stages

end Planner
