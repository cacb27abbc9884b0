import PlannerBackend.Process

set_option autoImplicit false

namespace Resume

variable {σ : Signature}

-- The same handlers in front of another store.
abbrev Machine.over (m : Machine σ) (S C : Type) (exec : (op : σ.Op) → C → S → σ.Ans op × S) : Machine σ where
  Job := m.Job
  Store := S
  Choice := C
  handler := m.handler
  exec := exec

theorem started_cons {m : Machine σ} (label : Label m) (rest : List (Label m)) :
    startedJobs (label :: rest) = startedJobs [label] ++ startedJobs rest := by
  rw [← List.singleton_append]
  exact List.filterMap_append

section Replaced

variable {m : Machine σ} {S C : Type} (exec : (op : σ.Op) → C → S → σ.Ans op × S) (content : S → m.Store)

-- Whatever the other store replies, the machine's own could have replied, and
-- would then have held what the other one holds.
def Imitates : Prop :=
  ∀ op chance state, ∃ choice, m.exec op choice (content state) = ((exec op chance state).1, content (exec op chance state).2)

def Task.under (task : Task (m.over S C exec)) : Task m := ⟨task.job, task.proc⟩

def World.under (world : World (m.over S C exec)) : World m :=
  ⟨content world.store, world.cell, world.tasks.map (Task.under exec), world.trace⟩

theorem under_task (world : World (m.over S C exec)) (i : Nat) :
    (world.under exec content).tasks[i]? = world.tasks[i]?.map (Task.under exec) := List.getElem?_map

theorem down_under (world : World (m.over S C exec)) : down (world.under exec content) = down world := by
  simp only [down, World.under, List.any_map]
  rfl

variable (imitates : Imitates exec content) (any : m.Choice)

include imitates any

theorem step_under (world : World (m.over S C exec)) (label : Label (m.over S C exec)) :
    ∃ move : Label m, startedJobs [move] = startedJobs [label] ∧
      (step world label).under exec content = step (world.under exec content) move := by
  cases label with
  | start job env =>
      refine ⟨.start job env, rfl, ?_⟩
      simp only [step, World.under, List.map_append, List.map_cons, List.map_nil, List.length_map]
      rfl
  | resume i chance env =>
      cases here : world.tasks[i]? with
      | none =>
          refine ⟨.resume i any env, rfl, ?_⟩
          simp only [step, here, under_task, Option.map_none]
      | some task =>
          obtain ⟨job, proc⟩ := task
          have below : (world.under exec content).tasks[i]? = some ⟨job, proc⟩ := by
            rw [under_task, here]
            rfl
          cases proc with
          | call op next =>
              obtain ⟨choice, same⟩ := imitates op chance world.store
              have replied : m.exec op choice (world.under exec content).store = _ := same
              refine ⟨.resume i choice env, rfl, ?_⟩
              rw [step_answered world i job op next chance env here,
                step_answered (world.under exec content) i job op next choice env below, replied]
              simp only [World.under, List.map_set]
              rfl
          | later rest =>
              refine ⟨.resume i any env, rfl, ?_⟩
              rw [step_deferred world i job rest chance env here,
                step_deferred (world.under exec content) i job rest any env below]
              simp only [World.under, List.map_set]
              rfl
          | _ => exact ⟨.resume i any env, rfl, by simp only [step, here, below]⟩

-- Handlers cannot tell the two stores apart, for as long as the process lives.
theorem live_under (labels : List (Label (m.over S C exec))) (world : World (m.over S C exec)) :
    ∃ moves : List (Label m), startedJobs moves = startedJobs labels ∧
      (live labels world).under exec content = live moves (world.under exec content) := by
  induction labels generalizing world with
  | nil => exact ⟨[], rfl, rfl⟩
  | cons label rest ih =>
      obtain ⟨move, job, stepped⟩ := step_under exec content imitates any world label
      obtain ⟨moves, jobs, lived⟩ := ih (step world label)
      refine ⟨move :: moves, ?_, ?_⟩
      · rw [started_cons, job, jobs, ← started_cons]
      · cases ended : down world with
        | true => rw [live_down _ world ended, live_down _ _ (by rw [down_under, ended])]
        | false => rw [live_up label rest world ended, live_up move moves _ (by rw [down_under, ended]), lived, stepped]

end Replaced

end Resume
