import Mathlib.Data.List.Induction
import PlannerBackend.Private
import PlannerBackend.Solo
import PlannerBackend.Stages

set_option autoImplicit false

namespace Resume

variable {σ : Signature} {m : Machine σ}

theorem asked_past_outs (j : Nat) (outs : List σ.Out) (trace newer older : Trace σ) (i : Nat) (op : σ.Op) (ans : σ.Ans op)
    (split : tag j outs ++ trace = newer ++ (i, .asked op ans) :: older) :
    ∃ front, trace = front ++ (i, .asked op ans) :: older := by
  induction outs generalizing newer with
  | nil => exact ⟨newer, split⟩
  | cons out rest ih =>
      rcases split_cons _ _ newer older _ split with ⟨_, same, _⟩ | ⟨front, _, deeper⟩
      · cases same
      · exact ih front deeper

-- The step that put a command's note where it stands: the trace below the note
-- is the trace of that time.
theorem run_moment (labels : List (Label m)) (world : World m) (newer older : Trace σ) (i : Nat) (op : σ.Op) (ans : σ.Ans op)
    (split : (run labels world).trace = newer ++ (i, .asked op ans) :: older) (fresh : (i, .asked op ans) ∉ world.trace) :
    ∃ before choice env after job next, labels = before ++ .resume i choice env :: after ∧ (run before world).trace = older ∧
      (run before world).tasks[i]? = some ⟨job, .call op next⟩ ∧ ans = (m.exec op choice (run before world).store).1 := by
  induction labels using List.reverseRecOn generalizing newer older with
  | nil =>
      refine absurd ?_ fresh
      rw [show world.trace = _ from split]
      simp
  | append_singleton front label ih =>
      have earlier : ∀ later, (run front world).trace = later ++ (i, .asked op ans) :: older →
          ∃ before choice env after job next, front ++ [label] = before ++ .resume i choice env :: after ∧
            (run before world).trace = older ∧
            (run before world).tasks[i]? = some ⟨job, .call op next⟩ ∧ ans = (m.exec op choice (run before world).store).1 := by
        intro later there
        obtain ⟨before, choice, env, after, job, next, rfl, rest⟩ := ih later older there
        exact ⟨before, choice, env, after ++ [label], job, next, by simp, rest⟩
      have last : (step (run front world) label).trace = newer ++ (i, .asked op ans) :: older := by
        rw [← split, run_append]
        rfl
      cases label with
      | start job env =>
          obtain ⟨later, there⟩ := asked_past_outs _ _ _ newer older i op ans last
          exact earlier later there
      | resume j choice env =>
          cases here : (run front world).tasks[j]? with
          | none =>
              simp only [step, here] at last
              exact earlier newer last
          | some task =>
              obtain ⟨job, proc⟩ := task
              cases proc with
              | later rest =>
                  rw [step_deferred _ j job rest choice env here] at last
                  obtain ⟨later, there⟩ := asked_past_outs _ _ _ newer older i op ans last
                  exact earlier later there
              | call asked next =>
                  rw [step_answered _ j job asked next choice env here] at last
                  obtain ⟨later, there⟩ := asked_past_outs _ _ _ newer older i op ans last
                  rcases split_cons _ _ later older _ there with ⟨_, same, below⟩ | ⟨deeper, _, further⟩
                  · cases same
                    exact ⟨front, choice, env, [], job, next, rfl, below, here, rfl⟩
                  · exact earlier deeper further
              | _ =>
                  simp only [step, here] at last
                  exact earlier newer last

-- The strongest specification of a handler: whatever it does, some path of its
-- own leads there.
def pathsOf (handler : Proc σ) : Spec σ where
  asks := fun h op => ∃ seen next, Leads handler none [] (.call op next) seen h
  tells := fun h out => ∃ seen rest, Leads handler none [] (.emit out rest) seen h
  ends := fun h => ∃ seen, Leads handler none [] .halt seen h
  breaks := fun h => ∃ seen, Leads handler none [] .crash seen h

theorem meets_paths (handler proc : Proc σ) (known : Option σ.Cell) (past : History σ)
    (path : Leads handler none [] proc known past) :
    Meets (pathsOf handler) proc known past := by
  induction proc generalizing known past with
  | halt => exact ⟨known, path⟩
  | crash => exact ⟨known, path⟩
  | emit out rest ih => exact ⟨⟨known, rest, path⟩, ih known _ (leads_trans path (.emit _ _ _ _ _ _ _ (.here _ _ _)))⟩
  | sample next ih => exact fun env => ih env known past (leads_trans path (.sample env _ _ _ _ _ _ (.here _ _ _)))
  | assign value rest ih => exact ih _ past (leads_trans path (.assign _ _ _ _ _ _ _ (.here _ _ _)))
  | fetch next ih => exact fun value held => ih value known past (leads_trans path (.fetch value _ _ _ _ _ _ held (.here _ _ _)))
  | later rest ih => exact ih none past (leads_trans path (.later _ _ _ _ _ _ (.here _ _ _)))
  | call op next ih =>
      exact ⟨⟨known, next, path⟩, fun ans => ih ans none _ (leads_trans path (.call _ ans _ _ _ _ _ _ (.here _ _ _)))⟩

theorem handler_paths (handler : Proc σ) : Meets (pathsOf handler) handler none [] :=
  meets_paths handler handler none [] (.here _ _ _)

theorem leads_extends {proc target : Proc σ} {known seen : Option σ.Cell} {past now : History σ}
    (path : Leads proc known past target seen now) : ∃ newer, now = newer ++ past := by
  induction path with
  | here => exact ⟨[], rfl⟩
  | emit out _ _ _ _ _ _ _ ih =>
      obtain ⟨newer, rfl⟩ := ih
      exact ⟨newer ++ [.said out], by simp⟩
  | call op ans _ _ _ _ _ _ _ ih =>
      obtain ⟨newer, rfl⟩ := ih
      exact ⟨newer ++ [.asked op ans], by simp⟩
  | sample _ _ _ _ _ _ _ _ ih | assign _ _ _ _ _ _ _ _ ih | fetch _ _ _ _ _ _ _ _ _ ih | later _ _ _ _ _ _ _ ih => exact ih

theorem newer_snoc (more past newer : History σ) (note : Note σ) (shape : more ++ note :: past = newer ++ past) :
    newer = more ++ [note] := by
  have long : newer ++ past = (more ++ [note]) ++ past := by rw [← shape, List.append_assoc]; rfl
  exact List.append_cancel_right long

theorem chain_first_said (start store : m.Store) (out : σ.Out) (h : History σ) (chain : Chain m start (h ++ [.said out]) store) :
    Chain m start h store := by
  induction h generalizing store with
  | nil => exact chain_said start store out [] chain
  | cons note rest ih =>
      cases chain with
      | said _ _ _ earlier => exact .said _ _ _ (ih store earlier)
      | asked op choice _ before earlier => exact .asked op choice _ _ (ih before earlier)

theorem chain_first_asked (start store : m.Store) (op : σ.Op) (ans : σ.Ans op) (h : History σ)
    (chain : Chain m start (h ++ [.asked op ans]) store) :
    ∃ choice, (m.exec op choice start).1 = ans ∧ Chain m (m.exec op choice start).2 h store := by
  induction h generalizing store with
  | nil =>
      obtain ⟨before, choice, earlier, answer, after⟩ := chain_asked start store op ans [] chain
      cases earlier
      exact ⟨choice, answer, after ▸ .nil⟩
  | cons note rest ih =>
      cases chain with
      | said out _ _ earlier =>
          obtain ⟨choice, answer, onward⟩ := ih store earlier
          exact ⟨choice, answer, .said _ _ _ onward⟩
      | asked other chosen _ before earlier =>
          obtain ⟨choice, answer, onward⟩ := ih before earlier
          exact ⟨choice, answer, .asked other chosen _ _ onward⟩

theorem alone_congr (choices other : Nat → m.Choice) (env sampled : Nat → σ.Env) (proc : Proc σ) (n k : Nat) (cell : σ.Cell)
    (store : m.Store) (same : ∀ j, n ≤ j → choices j = other j) (samples : ∀ j, k ≤ j → env j = sampled j) :
    alone m choices env proc n k cell store = alone m other sampled proc n k cell store := by
  induction proc generalizing n k cell store with
  | halt | crash => rfl
  | emit out rest ih => simp only [alone, ih n k cell store same samples]
  | sample next ih =>
      simp only [alone, samples k (Nat.le_refl k)]
      exact ih _ n (k + 1) cell store same fun j later => samples j (by omega)
  | assign value rest ih => exact ih n k value store same samples
  | fetch next ih => exact ih cell n k cell store same samples
  | later rest ih => exact ih n k cell store same samples
  | call op next ih =>
      simp only [alone, same n (Nat.le_refl n)]
      rw [ih _ (n + 1) k cell _ (fun j later => same j (by omega)) samples]

-- A path whose commands could have been executed back to back is one the
-- process takes when it has the store to itself.
theorem alone_replays (spare : m.Choice) (sampled : σ.Env) {proc target : Proc σ} {known seen : Option σ.Cell}
    {past now : History σ} (path : Leads proc known past target seen now) (halted : target = .halt) (newer : History σ)
    (shape : now = newer ++ past) (tidy : Tidy proc known.isSome) (n k : Nat) (cell : σ.Cell)
    (faithful : ∀ last, known = some last → cell = last) (start store : m.Store) (chain : Chain m start newer store) :
    ∃ choices env, (alone m choices env proc n k cell start).store = store ∧
    (alone m choices env proc n k cell start).notes = newer ∧
      (alone m choices env proc n k cell start).crashed = false := by
  induction path generalizing newer n k cell start with
  | here proc known past =>
      subst halted
      have none_ : newer = [] := by simpa using shape.symm
      subst none_
      cases chain
      exact ⟨fun _ => spare, fun _ => sampled, rfl, rfl, rfl⟩
  | emit out rest _ known _ past now onward ih =>
      obtain ⟨more, rfl⟩ := leads_extends onward
      have split := newer_snoc more past newer (.said out) shape
      subst split
      obtain ⟨choices, env, stored, notes, live⟩ :=
        ih halted more rfl tidy n k cell faithful start (chain_first_said _ _ _ _ chain)
      exact ⟨choices, env, stored, by simp [alone, notes], live⟩
  | sample value next _ known _ past now onward ih =>
      obtain ⟨choices, env, done⟩ := ih halted newer shape (tidy value) n (k + 1) cell faithful start chain
      refine ⟨choices, fun j => if j = k then value else env j, ?_⟩
      have same := alone_congr choices choices (fun j => if j = k then value else env j) env (next value) n (k + 1) cell start
        (fun _ _ => rfl) (fun j later => if_neg (by omega))
      simp only [alone, if_pos]
      rw [same]
      exact done
  | assign value rest _ known _ past now onward ih => exact ih halted newer shape tidy n k value (by simp) start chain
  | fetch value next _ known _ past now held onward ih =>
      -- a tidy process reads only what it has assigned, and so the same value
      obtain ⟨last, assigned⟩ := Option.isSome_iff_exists.mp tidy.1
      have same : cell = value := (faithful last assigned).trans (held last assigned).symm
      subst same
      refine ih halted newer shape ?_ n k cell faithful start chain
      rw [assigned]
      exact tidy.2 cell
  | later rest _ known _ past now onward ih => exact ih halted newer shape tidy n k cell (by simp) start chain
  | call op ans next _ known _ past now onward ih =>
      obtain ⟨more, rfl⟩ := leads_extends onward
      have split := newer_snoc more past newer (.asked op ans) shape
      subst split
      obtain ⟨choice, rfl, after⟩ := chain_first_asked _ _ op ans _ chain
      obtain ⟨choices, env, stored, notes, live⟩ := ih halted more rfl (tidy _) (n + 1) k cell (by simp) _ after
      refine ⟨fun j => if j = n then choice else choices j, env, ?_⟩
      have same := alone_congr (fun j => if j = n then choice else choices j) choices env env (next (m.exec op choice start).1)
        (n + 1) k cell (m.exec op choice start).2 (fun j later => if_neg (by omega)) (fun _ _ => rfl)
      simp only [alone, if_pos]
      rw [same]
      exact ⟨stored, by rw [notes], live⟩

end Resume
