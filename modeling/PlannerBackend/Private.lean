import PlannerBackend.System

set_option autoImplicit false

namespace Resume

variable {σ : Signature} {m : Machine σ}

-- The shared variable is read only after an assignment of the same turn.
def Tidy : Proc σ → Bool → Prop
  | .halt, _ => True
  | .crash, _ => True
  | .emit _ rest, assigned => Tidy rest assigned
  | .sample next, assigned => ∀ env, Tidy (next env) assigned
  | .assign _ rest, _ => Tidy rest true
  | .fetch next, assigned => assigned = true ∧ ∀ value, Tidy (next value) true
  | .later rest, _ => Tidy rest false
  | .call _ next, _ => ∀ ans, Tidy (next ans) false

def TidyPromise {ε α : Type} (promise : Promise σ ε α) : Prop :=
  ∀ resolve reject assigned, (∀ value after, Tidy (resolve value) after) → (∀ reason after, Tidy (reject reason) after) →
    Tidy (promise resolve reject) assigned

theorem tidy_and_then {ε α β : Type} (first : Promise σ ε α) (next : α → Promise σ ε β) (tidy : TidyPromise first)
    (rest : ∀ value, TidyPromise (next value)) : TidyPromise (Promise.andThen first next) :=
  fun resolve reject assigned resolved rejected =>
    tidy _ reject assigned (fun value _ => rest value resolve reject false resolved rejected) rejected

theorem tidy_finish {ε α : Type} (promise : Promise σ ε α) (onResolved : α → Proc σ) (onRejected : ε → Proc σ) (assigned : Bool)
    (tidy : TidyPromise promise) (resolved : ∀ value, Tidy (onResolved value) false)
    (rejected : ∀ reason, Tidy (onRejected reason) false) :
    Tidy (Promise.finish promise onResolved onRejected) assigned :=
  tidy _ _ assigned (fun value _ => resolved value) (fun reason _ => rejected reason)

theorem settle_tidy (env : Nat → σ.Env) (proc : Proc σ) (n : Nat) (shared own : σ.Cell) (assigned : Bool)
    (tidy : Tidy proc assigned) (same : assigned = true → shared = own) :
    (settle env proc n shared).outs = (settle env proc n own).outs ∧ (settle env proc n shared).proc =
    (settle env proc n own).proc ∧
      Tidy (settle env proc n own).proc false := by
  induction proc generalizing n shared own assigned with
  | halt | crash => exact ⟨rfl, rfl, trivial⟩
  | emit out rest ih =>
      obtain ⟨outs, procs, after⟩ := ih n shared own assigned tidy same
      exact ⟨congrArg (· ++ [out]) outs, procs, after⟩
  | sample next ih => exact ih (env n) (n + 1) shared own assigned (tidy (env n)) same
  | assign value rest ih => exact ih n value value true tidy fun _ => rfl
  | fetch next ih =>
      rw [same tidy.1]
      exact ih own n own own true (tidy.2 own) fun _ => rfl
  | later | call => exact ⟨rfl, rfl, tidy⟩

structure PrivateTask (m : Machine σ) where
  job : m.Job
  proc : Proc σ
  cell : σ.Cell

def PrivateTask.task (own : PrivateTask m) : Task m := ⟨own.job, own.proc⟩

structure PrivateWorld (m : Machine σ) where
  store : m.Store
  tasks : List (PrivateTask m)
  trace : Trace σ

def PrivateWorld.initial (m : Machine σ) (store : m.Store) : PrivateWorld m := ⟨store, [], []⟩

-- The same system with a variable for each task, which starts as fresh.
def privateStep (fresh : σ.Cell) (world : PrivateWorld m) : Label m → PrivateWorld m
  | .start job env =>
      let settled := settle env (m.handler job) 0 fresh
      { world with
        tasks := world.tasks ++ [⟨job, settled.proc, settled.cell⟩]
        trace := tag world.tasks.length settled.outs ++ world.trace }
  | .resume i choice env =>
      match world.tasks[i]? with
      | some ⟨job, .later rest, cell⟩ =>
          let settled := settle env rest 0 cell
          { world with
            tasks := world.tasks.set i ⟨job, settled.proc, settled.cell⟩
            trace := tag i settled.outs ++ world.trace }
      | some ⟨job, .call op next, cell⟩ =>
          let reply := m.exec op choice world.store
          let settled := settle env (next reply.1) 0 cell
          { store := reply.2
            tasks := world.tasks.set i ⟨job, settled.proc, settled.cell⟩
            trace := tag i settled.outs ++ (i, .asked op reply.1) :: world.trace }
      | _ => world

def privateRun (fresh : σ.Cell) (labels : List (Label m)) (world : PrivateWorld m) : PrivateWorld m :=
  labels.foldl (privateStep fresh) world

structure Mirrors (world : World m) (own : PrivateWorld m) : Prop where
  store : world.store = own.store
  trace : world.trace = own.trace
  tasks : world.tasks = own.tasks.map PrivateTask.task
  tidy : ∀ task ∈ own.tasks, Tidy task.proc false

section Mirror

variable (fresh : σ.Cell) (handlers : ∀ job, Tidy (m.handler job) false) (world : World m) (own : PrivateWorld m)
  (mirrors : Mirrors world own)

include mirrors

-- One turn of a task that both worlds hold at the same place.
theorem turn_mirrors (env : Nat → σ.Env) (i : Nat) (job : m.Job) (proc : Proc σ) (cell : σ.Cell) (store : m.Store)
    (notes : Trace σ) (tidy : Tidy proc false) :
    Mirrors ⟨store, (settle env proc 0 world.cell).cell, world.tasks.set i ⟨job, (settle env proc 0 world.cell).proc⟩,
        tag i (settle env proc 0 world.cell).outs ++ (notes ++ world.trace)⟩
      ⟨store, own.tasks.set i ⟨job, (settle env proc 0 cell).proc, (settle env proc 0 cell).cell⟩,
        tag i (settle env proc 0 cell).outs ++ (notes ++ own.trace)⟩ := by
  obtain ⟨outs, procs, after⟩ := settle_tidy env proc 0 world.cell cell false tidy (by simp)
  refine ⟨rfl, by rw [outs, mirrors.trace], ?_, ?_⟩
  · rw [procs, mirrors.tasks, List.map_set]
    rfl
  · intro task member
    rcases List.mem_or_eq_of_mem_set member with old | rfl
    · exact mirrors.tidy task old
    · exact after

include handlers

theorem step_mirrors (label : Label m) : Mirrors (step world label) (privateStep fresh own label) := by
  cases label with
  | start job env =>
      obtain ⟨outs, procs, after⟩ := settle_tidy env (m.handler job) 0 world.cell fresh false (handlers job) (by simp)
      refine ⟨mirrors.store, ?_, ?_, ?_⟩
      · simp only [step, privateStep, outs, mirrors.trace, mirrors.tasks, List.length_map]
      · simp only [step, privateStep, procs, mirrors.tasks, List.map_append]
        rfl
      · intro task member
        rcases List.mem_append.mp member with old | new
        · exact mirrors.tidy task old
        · rw [List.mem_singleton.mp new]
          exact after
  | resume i choice env =>
      have there : world.tasks[i]? = own.tasks[i]?.map PrivateTask.task := by rw [mirrors.tasks, List.getElem?_map]
      cases here : own.tasks[i]? with
      | none =>
          rw [here] at there
          simpa only [step, privateStep, here, there, Option.map_none] using mirrors
      | some task =>
          obtain ⟨job, proc, cell⟩ := task
          have tidy := mirrors.tidy _ (List.mem_of_getElem? here)
          rw [here] at there
          cases proc with
          | later rest =>
              have turned := turn_mirrors world own mirrors env i job rest cell world.store [] tidy
              rw [step_deferred world i job rest choice env there]
              simpa only [privateStep, here, mirrors.store, List.nil_append, List.cons_append] using turned
          | call op next =>
              have turned := turn_mirrors world own mirrors env i job (next (m.exec op choice world.store).1) cell
                (m.exec op choice world.store).2 [(i, .asked op (m.exec op choice world.store).1)] (tidy _)
              rw [step_answered world i job op next choice env there]
              simpa only [privateStep, here, mirrors.store, List.nil_append, List.cons_append] using turned
          | _ => simpa only [step, privateStep, here, there, Option.map_some, PrivateTask.task] using mirrors

end Mirror

theorem run_mirrors (fresh : σ.Cell) (handlers : ∀ job, Tidy (m.handler job) false) (labels : List (Label m)) (world : World m)
    (own : PrivateWorld m) (mirrors : Mirrors world own) : Mirrors (run labels world) (privateRun fresh labels own) := by
  induction labels generalizing world own with
  | nil => exact mirrors
  | cons label rest ih => exact ih _ _ (step_mirrors fresh handlers world own mirrors label)

end Resume
