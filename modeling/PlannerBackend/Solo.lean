import PlannerBackend.Invariant

set_option autoImplicit false

namespace Resume

variable {σ : Signature} {m : Machine σ}

structure Finished (m : Machine σ) where
  store : m.Store
  cell : σ.Cell
  notes : History σ
  crashed : Bool

-- A process with the store to itself, from start to finish.
def alone (m : Machine σ) (choices : Nat → m.Choice) (env : Nat → σ.Env) : Proc σ → Nat → Nat → σ.Cell → m.Store → Finished m
  | .halt, _, _, cell, store => ⟨store, cell, [], false⟩
  | .crash, _, _, cell, store => ⟨store, cell, [], true⟩
  | .emit out rest, n, k, cell, store =>
      let done := alone m choices env rest n k cell store
      { done with notes := done.notes ++ [.said out] }
  | .sample next, n, k, cell, store => alone m choices env (next (env k)) n (k + 1) cell store
  | .assign value rest, n, k, _, store => alone m choices env rest n k value store
  | .fetch next, n, k, cell, store => alone m choices env (next cell) n k cell store
  | .later rest, n, k, cell, store => alone m choices env rest n k cell store
  | .call op next, n, k, cell, store =>
      let reply := m.exec op (choices n) store
      let done := alone m choices env (next reply.1) (n + 1) k cell reply.2
      { done with notes := done.notes ++ [.asked op reply.1] }

-- The notes of one process whose commands ran back to back.
inductive Chain (m : Machine σ) (start : m.Store) : History σ → m.Store → Prop where
  | nil : Chain m start [] start
  | said (out : σ.Out) (h : History σ) (store : m.Store) (earlier : Chain m start h store) : Chain m start (.said out :: h) store
  | asked (op : σ.Op) (choice : m.Choice) (h : History σ) (store : m.Store) (earlier : Chain m start h store) :
      Chain m start (.asked op (m.exec op choice store).1 :: h) (m.exec op choice store).2

theorem chain_said (start store : m.Store) (out : σ.Out) (h : History σ) (chain : Chain m start (.said out :: h) store) :
    Chain m start h store := by
  cases chain with
  | said _ _ _ earlier => exact earlier

theorem chain_asked (start store : m.Store) (op : σ.Op) (ans : σ.Ans op) (h : History σ)
    (chain : Chain m start (.asked op ans :: h) store) :
    ∃ before choice, Chain m start h before ∧ (m.exec op choice before).1 = ans ∧ (m.exec op choice before).2 = store := by
  cases chain with
  | asked _ choice _ before earlier => exact ⟨before, choice, earlier, rfl, rfl⟩

theorem chain_keeps {β : Type} (part : m.Store → β) (idle : Note σ → Prop)
    (fixed : ∀ op choice store, idle (.asked op (m.exec op choice store).1) → part (m.exec op choice store).2 = part store)
    (start store : m.Store) (h : History σ) (chain : Chain m start h store) (quiet : ∀ note ∈ h, idle note) :
    part store = part start := by
  induction chain with
  | nil => rfl
  | said out h store earlier ih => exact ih (fun note member => quiet note (List.mem_cons_of_mem _ member))
  | asked op choice h store earlier ih =>
      have before := ih (fun note member => quiet note (List.mem_cons_of_mem _ member))
      exact (fixed op choice store (quiet _ List.mem_cons_self)).trans before

theorem alone_chain (choices : Nat → m.Choice) (env : Nat → σ.Env) (proc : Proc σ) (n k : Nat) (cell : σ.Cell)
    (start store : m.Store) (past : History σ) (before : Chain m start past store) :
    Chain m start ((alone m choices env proc n k cell store).notes ++ past) (alone m choices env proc n k cell store).store := by
  induction proc generalizing n k cell store past with
  | halt => exact before
  | crash => exact before
  | emit out rest ih => simpa [alone] using ih n k cell store _ (.said out past store before)
  | sample next ih => exact ih (env k) n (k + 1) cell store past before
  | assign value rest ih => exact ih n k value store past before
  | fetch next ih => exact ih cell n k cell store past before
  | later rest ih => exact ih n k cell store past before
  | call op next ih =>
      have after := ih (m.exec op (choices n) store).1 (n + 1) k cell _ _ (.asked op (choices n) past store before)
      simpa [alone] using after

theorem alone_meets (spec : Spec σ) (choices : Nat → m.Choice) (env : Nat → σ.Env) (proc : Proc σ) (n k : Nat)
    (cell : σ.Cell) (store : m.Store) (known : Option σ.Cell) (past : History σ)
    (faithful : ∀ seen, known = some seen → cell = seen) (meets : Meets spec proc known past) :
    if (alone m choices env proc n k cell store).crashed then
      spec.breaks ((alone m choices env proc n k cell store).notes ++ past)
    else spec.ends ((alone m choices env proc n k cell store).notes ++ past) := by
  induction proc generalizing n k cell store known past with
  | halt => exact meets
  | crash => exact meets
  | emit out rest ih => simpa [alone] using ih n k cell store known _ faithful meets.2
  | sample next ih => exact ih (env k) n (k + 1) cell store known past faithful (meets (env k))
  | assign value rest ih => exact ih n k value store (some value) past (by simp) meets
  | fetch next ih => exact ih cell n k cell store known past faithful (meets cell faithful)
  | later rest ih => exact ih n k cell store none past (by simp) meets
  | call op next ih =>
      have after := ih (m.exec op (choices n) store).1 (n + 1) k cell (m.exec op (choices n) store).2 none _ (by simp) (meets.2 _)
      simpa [alone] using after

theorem alone_lawful (spec : Spec σ) (choices : Nat → m.Choice) (env : Nat → σ.Env) (proc : Proc σ) (n k : Nat)
    (cell : σ.Cell) (store : m.Store) (known : Option σ.Cell) (past : History σ)
    (faithful : ∀ seen, known = some seen → cell = seen) (meets : Meets spec proc known past) (newer : History σ) (note : Note σ)
    (older : History σ) (split : (alone m choices env proc n k cell store).notes = newer ++ note :: older) :
    Allowed spec (older ++ past) note := by
  induction proc generalizing n k cell store known past newer note older with
  | halt | crash => simp [alone] at split
  | emit out rest ih =>
      rcases split_snoc _ newer older _ note split with ⟨rfl, rfl, _⟩ | ⟨front, rfl, earlier⟩
      · exact meets.1
      · simpa using ih n k cell store known _ faithful meets.2 newer note front earlier
  | sample next ih => exact ih (env k) n (k + 1) cell store known past faithful (meets (env k)) newer note older split
  | assign value rest ih => exact ih n k value store (some value) past (by simp) meets newer note older split
  | fetch next ih => exact ih cell n k cell store known past faithful (meets cell faithful) newer note older split
  | later rest ih => exact ih n k cell store none past (by simp) meets newer note older split
  | call op next ih =>
      rcases split_snoc _ newer older _ note split with ⟨rfl, rfl, _⟩ | ⟨front, rfl, earlier⟩
      · exact meets.1
      · simpa using ih _ (n + 1) k cell _ none _ (by simp) (meets.2 _) newer note front earlier

structure Visit (m : Machine σ) where
  job : m.Job
  choices : Nat → m.Choice
  env : Nat → σ.Env

def Visit.serve (visit : Visit m) (cell : σ.Cell) (store : m.Store) : Finished m :=
  alone m visit.choices visit.env (m.handler visit.job) 0 0 cell store

theorem serve_lawful (spec : m.Job → Spec σ) (visit : Visit m) (cell : σ.Cell) (store : m.Store)
    (meets : Meets (spec visit.job) (m.handler visit.job) none []) (newer : History σ) (note : Note σ) (older : History σ)
    (split : (visit.serve cell store).notes = newer ++ note :: older) : Allowed (spec visit.job) older note := by
  have allowed := alone_lawful (spec visit.job) visit.choices visit.env _ 0 0 cell store none []
    (by simp) meets newer note older split
  rwa [List.append_nil] at allowed

-- Jobs served one at a time, the latest first.
structure Log (m : Machine σ) where
  cell : σ.Cell
  store : m.Store
  past : List (m.Job × History σ)

def Log.serve (log : Log m) (visit : Visit m) : Log m :=
  let done := visit.serve log.cell log.store
  ⟨done.cell, done.store, (visit.job, done.notes) :: log.past⟩

def serveAll (visits : List (Visit m)) (log : Log m) : Log m := visits.foldl Log.serve log

theorem serve_all_induct (inv : Log m → Prop) (keeps : ∀ log visit, inv log → inv (log.serve visit)) (visits : List (Visit m))
    (log : Log m) (holds : inv log) : inv (serveAll visits log) := by
  induction visits generalizing log with
  | nil => exact holds
  | cons visit rest ih => exact ih (log.serve visit) (keeps log visit holds)

section Schedule

def Finished.task (done : Finished m) (job : m.Job) : Task m := ⟨job, if done.crashed then .crash else .halt⟩

theorem settle_shift (env : Nat → σ.Env) (proc : Proc σ) (n : Nat) (cell : σ.Cell) :
    settle env proc (n + 1) cell = settle (fun j => env (j + 1)) proc n cell := by
  induction proc generalizing n cell with
  | halt | crash | later | call => rfl
  | emit out rest ih => simp only [settle, ih n cell]
  | sample next ih => exact ih (env (n + 1)) (n + 1) cell
  | assign value rest ih => exact ih n value
  | fetch next ih => exact ih cell n cell

theorem noted_snoc (i : Nat) (notes : History σ) (note : Note σ) (trace : Trace σ) :
    (notes ++ [note]).map (fun each => (i, each)) ++ trace = notes.map (fun each => (i, each)) ++ (i, note) :: trace := by
  simp

-- Serving one job is a run of the interleaved system in which only that job
-- takes turns.
theorem alone_run (choices : Nat → m.Choice) (env : Nat → σ.Env) (job : m.Job) (i : Nat) (tasks : List (Task m))
    (bound : i < tasks.length) (proc : Proc σ) (n k : Nat) (cell : σ.Cell) (store : m.Store) (trace : Trace σ) :
    ∃ labels, run labels ⟨store, (settle (fun j => env (k + j)) proc 0 cell).cell,
        tasks.set i ⟨job, (settle (fun j => env (k + j)) proc 0 cell).proc⟩,
        tag i (settle (fun j => env (k + j)) proc 0 cell).outs ++ trace⟩ =
      ⟨(alone m choices env proc n k cell store).store, (alone m choices env proc n k cell store).cell,
        tasks.set i ((alone m choices env proc n k cell store).task job),
        (alone m choices env proc n k cell store).notes.map (fun note => (i, note)) ++ trace⟩ := by
  induction proc generalizing n k cell store trace with
  | halt => exact ⟨[], rfl⟩
  | crash => exact ⟨[], rfl⟩
  | emit out rest ih =>
      obtain ⟨labels, eq⟩ := ih n k cell store ((i, .said out) :: trace)
      rw [← tag_snoc, ← noted_snoc] at eq
      exact ⟨labels, eq⟩
  | sample next ih =>
      obtain ⟨labels, eq⟩ := ih (env k) n (k + 1) cell store trace
      refine ⟨labels, ?_⟩
      have shifted : settle (fun j => env (k + j)) (.sample next) 0 cell =
          settle (fun j => env (k + 1 + j)) (next (env k)) 0 cell := by
        rw [settle, settle_shift]
        simp only [Nat.add_zero, Nat.add_assoc, Nat.add_comm 1]
      rw [shifted]
      exact eq
  | assign value rest ih => exact ih n k value store trace
  | fetch next ih => exact ih cell n k cell store trace
  | later rest ih =>
      obtain ⟨labels, eq⟩ := ih n k cell store trace
      refine ⟨.resume i (choices n) (fun j => env (k + j)) :: labels, ?_⟩
      have turned := step_deferred ⟨store, cell, tasks.set i ⟨job, .later rest⟩, trace⟩ i job rest (choices n)
        (fun j => env (k + j)) (by simp [bound])
      rw [List.set_set] at turned
      exact (congrArg (run labels) turned).trans eq
  | call op next ih =>
      obtain ⟨labels, eq⟩ := ih (m.exec op (choices n) store).1 (n + 1) k cell (m.exec op (choices n) store).2
        ((i, .asked op (m.exec op (choices n) store).1) :: trace)
      rw [← noted_snoc] at eq
      refine ⟨.resume i (choices n) (fun j => env (k + j)) :: labels, ?_⟩
      have turned := step_answered ⟨store, cell, tasks.set i ⟨job, .call op next⟩, trace⟩ i job op next (choices n)
        (fun j => env (k + j)) (by simp [bound])
      rw [List.set_set] at turned
      exact (congrArg (run labels) turned).trans eq

theorem serve_run (visit : Visit m) (world : World m) :
    ∃ labels, run labels world = ⟨(visit.serve world.cell world.store).store, (visit.serve world.cell world.store).cell,
      world.tasks ++ [(visit.serve world.cell world.store).task visit.job],
      (visit.serve world.cell world.store).notes.map (fun note => (world.tasks.length, note)) ++ world.trace⟩ := by
  obtain ⟨labels, eq⟩ := alone_run visit.choices visit.env visit.job world.tasks.length
    (world.tasks ++ [⟨visit.job, .halt⟩]) (by simp) (m.handler visit.job) 0 0 world.cell world.store world.trace
  refine ⟨.start visit.job visit.env :: labels, ?_⟩
  simpa [run, step, Visit.serve] using eq

theorem serve_all_run (visits : List (Visit m)) (store : m.Store) (cell : σ.Cell) :
    ∃ labels, (run labels (World.initial m store cell)).store = (serveAll visits ⟨cell, store, []⟩).store ∧
      (run labels (World.initial m store cell)).cell = (serveAll visits ⟨cell, store, []⟩).cell := by
  apply serve_all_induct (fun log => ∃ labels, (run labels (World.initial m store cell)).store = log.store ∧
    (run labels (World.initial m store cell)).cell = log.cell)
  · intro log visit served
    obtain ⟨labels, sameStore, sameCell⟩ := served
    obtain ⟨more, eq⟩ := serve_run visit (run labels (World.initial m store cell))
    refine ⟨labels ++ more, ?_⟩
    rw [run_append, eq, sameStore, sameCell]
    exact ⟨rfl, rfl⟩
  · exact ⟨[], rfl, rfl⟩

end Schedule

end Resume
