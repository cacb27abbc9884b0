import PlannerBackend.System

set_option autoImplicit false

namespace Resume

variable {σ : Signature} {m : Machine σ}

-- Between its turns a task stands where its last turn left it.
def Rests (proc : Proc σ) : Prop := ∃ env source n cell, proc = (settle env source n cell).proc

def AllRest (world : World m) : Prop := ∀ (i : Nat) (task : Task m), world.tasks[i]? = some task → Rests task.proc

theorem set_rests (world : World m) (i : Nat) (job : m.Job) (env : Nat → σ.Env) (source : Proc σ) (cell : σ.Cell)
    (rest : AllRest world) (j : Nat) (task : Task m)
    (here : (world.tasks.set i ⟨job, (settle env source 0 cell).proc⟩)[j]? = some task) : Rests task.proc := by
  by_cases same : i = j
  · subst same
    rw [List.getElem?_set_self'] at here
    obtain ⟨_, _, rfl⟩ := Option.map_eq_some_iff.mp here
    exact ⟨env, source, 0, cell, rfl⟩
  · rw [List.getElem?_set_ne same] at here
    exact rest j task here

theorem step_rests (world next : World m) (stepped : Stepped world next) (rest : AllRest world) : AllRest next := by
  cases stepped with
  | idle => exact rest
  | started job env settled turn =>
      intro i task here
      rcases List.mem_append.mp (List.mem_of_getElem? here) with old | new
      · obtain ⟨j, there⟩ := List.getElem?_of_mem old
        exact rest j task there
      · cases List.mem_singleton.mp new
        exact ⟨env, _, 0, world.cell, by rw [turn]⟩
  | deferred i job source env settled here turn =>
      subst turn
      exact set_rests world i job env source world.cell rest
  | answered i job op after choice env settled here turn =>
      subst turn
      exact set_rests world i job env _ world.cell rest

theorem run_rests (labels : List (Label m)) (world : World m) (rest : AllRest world) : AllRest (run labels world) := by
  induction labels generalizing world with
  | nil => exact rest
  | cons label labels ih => exact ih (step world label) (step_rests world _ (step_cases world label) rest)

theorem step_other (world : World m) (label : Label m) (i : Nat) (task : Task m) (here : world.tasks[i]? = some task)
    (other : ∀ choice env, label ≠ .resume i choice env) : (step world label).tasks[i]? = some task := by
  cases label with
  | start job env =>
      have bound := (List.getElem?_eq_some_iff.mp here).1
      change (world.tasks ++ [_])[i]? = some task
      rw [List.getElem?_append_left bound]
      exact here
  | resume j choice env =>
      have different : j ≠ i := fun same => other choice env (by rw [same])
      cases there : world.tasks[j]? with
      | none => simpa only [step, there] using here
      | some asleep =>
          obtain ⟨job, proc⟩ := asleep
          cases proc with
          | later rest => simpa [step_deferred world j job rest choice env there, different] using here
          | call op next => simpa [step_answered world j job op next choice env there, different] using here
          | _ => simpa only [step, there] using here

section Schedules

variable (schedule : Nat → Label m) (world : World m) (i : Nat)

def follow : Nat → World m
  | 0 => world
  | n + 1 => step (follow n) (schedule n)

theorem follow_run (n : Nat) : follow schedule world n = run ((List.range n).map schedule) world := by
  induction n with
  | zero => rfl
  | succ n ih =>
      rw [List.range_succ, List.map_append, run_append, ← ih]
      rfl

def isTurn (label : Label m) : Prop := ∃ choice env, label = .resume i choice env

variable (fair : ∀ n, ∃ k, n ≤ k ∧ isTurn i (schedule k))

include fair

theorem next_turn (n : Nat) (task : Task m) (here : (follow schedule world n).tasks[i]? = some task) :
    ∃ k, isTurn i (schedule k) ∧ (follow schedule world k).tasks[i]? = some task := by
  obtain ⟨k, late, turn⟩ := fair n
  obtain ⟨wait, rfl⟩ := Nat.exists_eq_add_of_le late
  -- wait counts down to the turn; until then the task is left alone
  induction wait generalizing n with
  | zero => exact ⟨n, turn, here⟩
  | succ wait ih =>
      by_cases now : isTurn i (schedule n)
      · exact ⟨n, now, here⟩
      · have still := step_other _ (schedule n) i task here (fun choice env same => now ⟨choice, env, same⟩)
        exact ih (n + 1) still (by omega) (by rwa [← Nat.add_assoc, Nat.add_right_comm] at turn)

-- A task that is given a turn again and again comes to its end: every turn
-- moves it down its tree.
theorem turns_finish (source : Proc σ) (n : Nat) (job : m.Job) (env : Nat → σ.Env) (k : Nat) (cell : σ.Cell)
    (here : (follow schedule world n).tasks[i]? = some ⟨job, (settle env source k cell).proc⟩) :
    ∃ n task, (follow schedule world n).tasks[i]? = some task ∧ finished task.proc = true := by
  induction source generalizing n env k cell with
  | halt => exact ⟨n, _, here, rfl⟩
  | crash => exact ⟨n, _, here, rfl⟩
  | emit out rest ih => exact ih n env k cell here
  | sample next ih => exact ih (env k) n env (k + 1) cell here
  | assign value rest ih => exact ih n env k value here
  | fetch next ih => exact ih cell n env k cell here
  | later rest ih =>
      obtain ⟨t, ⟨choice, fresh, turn⟩, there⟩ := next_turn schedule world i fair n _ here
      have bound := (List.getElem?_eq_some_iff.mp there).1
      refine ih (t + 1) fresh 0 (follow schedule world t).cell ?_
      rw [follow, turn, step_deferred _ i job rest choice fresh there]
      simp [bound]
  | call op next ih =>
      obtain ⟨t, ⟨choice, fresh, turn⟩, there⟩ := next_turn schedule world i fair n _ here
      have bound := (List.getElem?_eq_some_iff.mp there).1
      refine ih (m.exec op choice (follow schedule world t).store).1 (t + 1) fresh 0 (follow schedule world t).cell ?_
      rw [follow, turn, step_answered _ i job op next choice fresh there]
      simp [bound]

theorem eventually_finished (rest : AllRest world) (task : Task m) (here : world.tasks[i]? = some task) :
    ∃ n task, (run ((List.range n).map schedule) world).tasks[i]? = some task ∧ finished task.proc = true := by
  obtain ⟨job, proc⟩ := task
  obtain ⟨env, source, k, cell, rfl⟩ := rest i _ here
  obtain ⟨n, task, there, stopped⟩ := turns_finish schedule world i fair source 0 job env k cell here
  exact ⟨n, task, by rw [← follow_run]; exact there, stopped⟩

end Schedules

end Resume
