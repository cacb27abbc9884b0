import PlannerBackend.Proc

set_option autoImplicit false

namespace Resume

structure Machine (σ : Signature) where
  Job : Type
  Store : Type
  Choice : Type
  handler : Job → Proc σ
  exec : (op : σ.Op) → Choice → Store → σ.Ans op × Store

variable {σ : Signature} {m : Machine σ}

structure Task (m : Machine σ) where
  job : m.Job
  proc : Proc σ

-- Newest first, each note under the position of its task.
abbrev Trace (σ : Signature) := List (Nat × Note σ)

structure World (m : Machine σ) where
  store : m.Store
  cell : σ.Cell
  tasks : List (Task m)
  trace : Trace σ

inductive Label (m : Machine σ) where
  | start (job : m.Job) (env : Nat → σ.Env)
  | resume (task : Nat) (choice : m.Choice) (env : Nat → σ.Env)

def World.initial (m : Machine σ) (store : m.Store) (cell : σ.Cell) : World m := ⟨store, cell, [], []⟩

def tag (task : Nat) (outs : List σ.Out) : Trace σ := outs.map fun out => (task, .said out)

def step (world : World m) : Label m → World m
  | .start job env =>
      let settled := settle env (m.handler job) 0 world.cell
      { world with
        cell := settled.cell
        tasks := world.tasks ++ [⟨job, settled.proc⟩]
        trace := tag world.tasks.length settled.outs ++ world.trace }
  | .resume i choice env =>
      match world.tasks[i]? with
      | some ⟨job, .later rest⟩ =>
          let settled := settle env rest 0 world.cell
          { world with
            cell := settled.cell
            tasks := world.tasks.set i ⟨job, settled.proc⟩
            trace := tag i settled.outs ++ world.trace }
      | some ⟨job, .call op next⟩ =>
          let reply := m.exec op choice world.store
          let settled := settle env (next reply.1) 0 world.cell
          { store := reply.2
            cell := settled.cell
            tasks := world.tasks.set i ⟨job, settled.proc⟩
            trace := tag i settled.outs ++ (i, .asked op reply.1) :: world.trace }
      | _ => world

def run (labels : List (Label m)) (world : World m) : World m := labels.foldl step world

theorem run_append (a b : List (Label m)) (world : World m) : run (a ++ b) world = run b (run a world) :=
  List.foldl_append

def view (i : Nat) (trace : Trace σ) : History σ :=
  trace.filterMap fun entry => if entry.1 = i then some entry.2 else none

@[simp] theorem view_nil (i : Nat) : view i ([] : Trace σ) = [] := rfl

@[simp] theorem view_cons_own (i : Nat) (note : Note σ) (trace : Trace σ) :
    view i ((i, note) :: trace) = note :: view i trace := by
  simp [view]

theorem view_cons_other (i j : Nat) (note : Note σ) (trace : Trace σ) (different : j ≠ i) :
    view i ((j, note) :: trace) = view i trace := by
  simp [view, different]

theorem view_tag_own (i : Nat) (outs : List σ.Out) (trace : Trace σ) :
    view i (tag i outs ++ trace) = outs.map Note.said ++ view i trace := by
  induction outs with
  | nil => rfl
  | cons out rest ih => simpa [tag] using ih

theorem view_tag_other (i j : Nat) (outs : List σ.Out) (trace : Trace σ) (different : j ≠ i) :
    view i (tag j outs ++ trace) = view i trace := by
  induction outs with
  | nil => rfl
  | cons out rest ih => simpa [tag, view_cons_other i j _ _ different] using ih

theorem mem_view (i : Nat) (note : Note σ) (trace : Trace σ) : note ∈ view i trace ↔ (i, note) ∈ trace := by
  simp only [view, List.mem_filterMap]
  constructor
  · intro seen
    obtain ⟨⟨j, other⟩, member, eq⟩ := seen
    by_cases same : j = i
    · simp only [same, if_pos] at eq
      cases eq
      exact same ▸ member
    · simp [same] at eq
  · intro member
    exact ⟨(i, note), member, by simp⟩

theorem view_append (i : Nat) (newer older : Trace σ) :
    view i (newer ++ older) = view i newer ++ view i older := List.filterMap_append

-- Where a task's note stands in the whole trace.
theorem view_split (i : Nat) (trace : Trace σ) (later past : History σ) (note : Note σ)
    (shape : view i trace = later ++ note :: past) :
    ∃ newer older, trace = newer ++ (i, note) :: older ∧ view i newer = later ∧ view i older = past := by
  induction trace generalizing later with
  | nil => simp at shape
  | cons entry rest ih =>
      obtain ⟨j, other⟩ := entry
      by_cases own : j = i
      · subst own
        rw [view_cons_own] at shape
        cases later with
        | nil =>
            cases shape
            exact ⟨[], rest, rfl, rfl, rfl⟩
        | cons first more =>
            obtain ⟨rfl, tail⟩ := List.cons.inj shape
            obtain ⟨newer, older, rfl, seen, before⟩ := ih more tail
            exact ⟨(j, other) :: newer, older, rfl, by rw [view_cons_own, seen], before⟩
      · rw [view_cons_other i j other rest own] at shape
        obtain ⟨newer, older, rfl, seen, before⟩ := ih later shape
        exact ⟨(j, other) :: newer, older, rfl, by rw [view_cons_other i j other newer own, seen], before⟩

def tally (p : Note σ → Bool) (trace : Trace σ) : Nat := trace.countP fun entry => p entry.2

theorem tally_cons (p : Note σ → Bool) (i : Nat) (note : Note σ) (trace : Trace σ) :
    tally p ((i, note) :: trace) = tally p trace + (p note).toNat := by
  cases seen : p note <;> simp [tally, seen]

theorem view_filter (i j : Nat) (trace : Trace σ) (different : j ≠ i) :
    view j (trace.filter fun entry => entry.1 != i) = view j trace := by
  induction trace with
  | nil => rfl
  | cons entry rest ih =>
      obtain ⟨k, note⟩ := entry
      by_cases own : k = i
      · subst own
        simpa [view_cons_other j k note rest (Ne.symm different)] using ih
      · by_cases mine : k = j
        · subst mine
          simpa [own] using ih
        · simpa [own, view_cons_other j k note _ mine] using ih

theorem notes_split (i : Nat) (trace : Trace σ) :
    (trace.map Prod.snd).Perm ((trace.filter fun entry => entry.1 != i).map Prod.snd ++ view i trace) := by
  induction trace with
  | nil => exact .refl _
  | cons entry rest ih =>
      obtain ⟨j, note⟩ := entry
      by_cases own : j = i
      · subst own
        rw [List.filter_cons_of_neg (by simp), view_cons_own]
        exact (ih.cons note).trans List.perm_middle.symm
      · rw [List.filter_cons_of_pos (by simpa using own), view_cons_other i j note rest own]
        exact ih.cons note

-- The notes of a trace are those of its tasks, in some order.
theorem notes_perm (n : Nat) (trace : Trace σ) (bounded : ∀ entry ∈ trace, entry.1 < n) :
    (trace.map Prod.snd).Perm ((List.range n).flatMap fun i => view i trace) := by
  induction n generalizing trace with
  | zero =>
      cases trace with
      | nil => exact .refl _
      | cons entry rest => exact absurd (bounded entry List.mem_cons_self) (Nat.not_lt_zero _)
  | succ n ih =>
      have others := ih (trace.filter fun entry => entry.1 != n) (by
        intro entry member
        obtain ⟨inTrace, other⟩ := List.mem_filter.mp member
        have below := bounded entry inTrace
        have apart : entry.1 ≠ n := by simpa using other
        omega)
      have same : (List.range n).flatMap (fun i => view i (trace.filter fun entry => entry.1 != n)) =
          (List.range n).flatMap fun i => view i trace := by
        rw [List.flatMap_def, List.flatMap_def]
        apply congrArg List.flatten
        apply List.map_congr_left
        intro i member
        exact view_filter n i trace (by have := List.mem_range.mp member; omega)
      rw [List.range_succ, List.flatMap_append, List.flatMap_singleton, ← same]
      exact (notes_split n trace).trans (others.append_right _)

-- Two kinds of note that balance in every task balance in the whole trace.
theorem tally_balanced (p q : Note σ → Bool) (n : Nat) (trace : Trace σ) (bounded : ∀ entry ∈ trace, entry.1 < n)
    (balanced : ∀ i, i < n → (view i trace).countP p = (view i trace).countP q) : tally p trace = tally q trace := by
  have total : ∀ r : Note σ → Bool, tally r trace = ((List.range n).map fun i => (view i trace).countP r).sum := by
    intro r
    have counted := (notes_perm n trace bounded).countP_eq r
    rwa [List.countP_map, List.countP_flatMap] at counted
  rw [total p, total q]
  apply congrArg List.sum
  apply List.map_congr_left
  intro i member
  exact balanced i (List.mem_range.mp member)

theorem split_cons {α : Type} (first : α) (trace newer older : List α) (mark : α)
    (split : first :: trace = newer ++ mark :: older) :
    newer = [] ∧ first = mark ∧ trace = older ∨ ∃ rest, newer = first :: rest ∧ trace = rest ++ mark :: older := by
  cases newer with
  | nil =>
      obtain ⟨head, tail⟩ := List.cons.inj split
      exact .inl ⟨rfl, head, tail⟩
  | cons head rest =>
      obtain ⟨same, tail⟩ := List.cons.inj split
      exact .inr ⟨rest, by rw [same], tail⟩

theorem tag_snoc (i : Nat) (outs : List σ.Out) (out : σ.Out) (trace : Trace σ) :
    tag i (outs ++ [out]) ++ trace = tag i outs ++ (i, .said out) :: trace := by
  simp [tag]

theorem step_deferred (world : World m) (i : Nat) (job : m.Job) (rest : Proc σ) (choice : m.Choice) (env : Nat → σ.Env)
    (here : world.tasks[i]? = some ⟨job, .later rest⟩) :
    step world (.resume i choice env) = ⟨world.store, (settle env rest 0 world.cell).cell,
      world.tasks.set i ⟨job, (settle env rest 0 world.cell).proc⟩,
      tag i (settle env rest 0 world.cell).outs ++ world.trace⟩ := by
  simp only [step, here]

theorem step_answered (world : World m) (i : Nat) (job : m.Job) (op : σ.Op) (next : σ.Ans op → Proc σ) (choice : m.Choice)
    (env : Nat → σ.Env) (here : world.tasks[i]? = some ⟨job, .call op next⟩) :
    step world (.resume i choice env) = ⟨(m.exec op choice world.store).2,
      (settle env (next (m.exec op choice world.store).1) 0 world.cell).cell,
      world.tasks.set i ⟨job, (settle env (next (m.exec op choice world.store).1) 0 world.cell).proc⟩,
      tag i (settle env (next (m.exec op choice world.store).1) 0 world.cell).outs ++
        (i, .asked op (m.exec op choice world.store).1) :: world.trace⟩ := by
  simp only [step, here]

inductive Stepped (world : World m) : World m → Prop where
  | idle : Stepped world world
  | started (job : m.Job) (env : Nat → σ.Env) (settled : Settled σ)
      (turn : settle env (m.handler job) 0 world.cell = settled) :
      Stepped world ⟨world.store, settled.cell, world.tasks ++ [⟨job, settled.proc⟩],
        tag world.tasks.length settled.outs ++ world.trace⟩
  | deferred (i : Nat) (job : m.Job) (rest : Proc σ) (env : Nat → σ.Env) (settled : Settled σ)
      (here : world.tasks[i]? = some ⟨job, .later rest⟩) (turn : settle env rest 0 world.cell = settled) :
      Stepped world ⟨world.store, settled.cell, world.tasks.set i ⟨job, settled.proc⟩,
        tag i settled.outs ++ world.trace⟩
  | answered (i : Nat) (job : m.Job) (op : σ.Op) (next : σ.Ans op → Proc σ) (choice : m.Choice) (env : Nat → σ.Env)
      (settled : Settled σ) (here : world.tasks[i]? = some ⟨job, .call op next⟩)
      (turn : settle env (next (m.exec op choice world.store).1) 0 world.cell = settled) :
      Stepped world ⟨(m.exec op choice world.store).2, settled.cell, world.tasks.set i ⟨job, settled.proc⟩,
        tag i settled.outs ++ (i, .asked op (m.exec op choice world.store).1) :: world.trace⟩

theorem step_cases (world : World m) (label : Label m) : Stepped world (step world label) := by
  cases label with
  | start job env => exact .started job env _ rfl
  | resume i choice env =>
      cases here : world.tasks[i]? with
      | none =>
          simp only [step, here]
          exact .idle
      | some task =>
          obtain ⟨job, proc⟩ := task
          cases proc with
          | later rest =>
              rw [step_deferred world i job rest choice env here]
              exact .deferred i job rest env _ here rfl
          | call op next =>
              rw [step_answered world i job op next choice env here]
              exact .answered i job op next choice env _ here rfl
          | halt => simp only [step, here]; exact .idle
          | crash => simp only [step, here]; exact .idle
          | emit out rest => simp only [step, here]; exact .idle
          | sample next => simp only [step, here]; exact .idle
          | assign value rest => simp only [step, here]; exact .idle
          | fetch next => simp only [step, here]; exact .idle

theorem step_store (world : World m) (label : Label m) :
    (step world label).store = world.store ∨ ∃ i choice env job op next, label = .resume i choice env ∧
      world.tasks[i]? = some ⟨job, .call op next⟩ ∧ (step world label).store = (m.exec op choice world.store).2 := by
  cases label with
  | start job env => exact .inl rfl
  | resume i choice env =>
      cases here : world.tasks[i]? with
      | none => exact .inl (by simp only [step, here])
      | some task =>
          obtain ⟨job, proc⟩ := task
          cases proc with
          | call op next =>
              exact .inr ⟨i, choice, env, job, op, next, rfl, here, by rw [step_answered world i job op next choice env here]⟩
          | _ => exact .inl (by simp only [step, here])

theorem step_extends (world next : World m) (stepped : Stepped world next) : ∃ newer, next.trace = newer ++ world.trace := by
  cases stepped with
  | idle => exact ⟨[], rfl⟩
  | started job env settled turn => exact ⟨_, rfl⟩
  | deferred i job rest env settled here turn => exact ⟨_, rfl⟩
  | answered i job op after choice env settled here turn =>
      exact ⟨tag i settled.outs ++ [(i, .asked op (m.exec op choice world.store).1)], by simp⟩

theorem run_extends (labels : List (Label m)) (world : World m) : ∃ newer, (run labels world).trace = newer ++ world.trace := by
  induction labels generalizing world with
  | nil => exact ⟨[], rfl⟩
  | cons label rest ih =>
      obtain ⟨first, one⟩ := step_extends world _ (step_cases world label)
      obtain ⟨more, all⟩ := ih (step world label)
      exact ⟨more ++ first, by rw [List.append_assoc, ← one]; exact all⟩

theorem step_asked (world : World m) (label : Label m) (i : Nat) (op : σ.Op) (ans : σ.Ans op)
    (member : (i, .asked op ans) ∈ (step world label).trace) :
    (i, .asked op ans) ∈ world.trace ∨ ∃ choice env, label = .resume i choice env ∧ ans = (m.exec op choice world.store).1 := by
  have silent : ∀ j (outs : List σ.Out), (i, .asked op ans) ∉ tag j outs := by simp [tag]
  cases label with
  | start job env => exact .inl ((List.mem_append.mp member).resolve_left (silent _ _))
  | resume j choice env =>
      cases here : world.tasks[j]? with
      | none => exact .inl (by simpa only [step, here] using member)
      | some task =>
          obtain ⟨job, proc⟩ := task
          cases proc with
          | later rest =>
              rw [step_deferred world j job rest choice env here] at member
              exact .inl ((List.mem_append.mp member).resolve_left (silent _ _))
          | call asked next =>
              rw [step_answered world j job asked next choice env here] at member
              rcases List.mem_cons.mp ((List.mem_append.mp member).resolve_left (silent _ _)) with same | older
              · cases same
                exact .inr ⟨choice, env, rfl, rfl⟩
              · exact .inl older
          | _ => exact .inl (by simpa only [step, here] using member)

-- Every command on record was executed by some step, on the store of its time.
theorem run_asked (labels : List (Label m)) (world : World m) (i : Nat) (op : σ.Op) (ans : σ.Ans op)
    (member : (i, .asked op ans) ∈ (run labels world).trace) :
    (i, .asked op ans) ∈ world.trace ∨ ∃ before choice env after, labels = before ++ .resume i choice env :: after ∧
      ans = (m.exec op choice (run before world).store).1 := by
  induction labels generalizing world with
  | nil => exact .inl member
  | cons label rest ih =>
      rcases ih (step world label) member with first | ⟨before, choice, env, after, split, answer⟩
      · rcases step_asked world label i op ans first with older | ⟨choice, env, same, answer⟩
        · exact .inl older
        · exact .inr ⟨[], choice, env, rest, by rw [same]; rfl, answer⟩
      · exact .inr ⟨label :: before, choice, env, after, by rw [split]; rfl, answer⟩

-- What held once and holds no more was ended by one step.
theorem run_crossing (holds : World m → Prop) (labels : List (Label m)) (world : World m) (first : holds world)
    (lost : ¬ holds (run labels world)) :
    ∃ before label after, labels = before ++ label :: after ∧ holds (run before world) ∧
    ¬ holds (step (run before world) label) := by
  induction labels generalizing world with
  | nil => exact absurd first lost
  | cons label rest ih =>
      by_cases still : holds (step world label)
      · obtain ⟨before, turning, after, split, held, ended⟩ := ih (step world label) still lost
        exact ⟨label :: before, turning, after, by rw [split]; rfl, held, ended⟩
      · exact ⟨[], label, rest, rfl, first, still⟩

theorem run_records (before after : List (Label m)) (world : World m) (i : Nat) (job : m.Job) (op : σ.Op)
    (next : σ.Ans op → Proc σ) (choice : m.Choice) (env : Nat → σ.Env)
    (here : (run before world).tasks[i]? = some ⟨job, .call op next⟩) :
    (i, .asked op (m.exec op choice (run before world).store).1) ∈
    (run (before ++ .resume i choice env :: after) world).trace := by
  obtain ⟨newer, grown⟩ := run_extends after (step (run before world) (.resume i choice env))
  rw [run_append]
  change _ ∈ (run after (step (run before world) (.resume i choice env))).trace
  rw [grown, step_answered _ i job op next choice env here]
  simp

def finished : Proc σ → Bool
  | .halt => true
  | .crash => true
  | _ => false

theorem step_finished (world next : World m) (stepped : Stepped world next) (i : Nat) (task : Task m)
    (here : world.tasks[i]? = some task) (stopped : finished task.proc = true) :
    next.tasks[i]? = some task ∧ view i next.trace = view i world.trace := by
  have bound := (List.getElem?_eq_some_iff.mp here).1
  cases stepped with
  | idle => exact ⟨here, rfl⟩
  | started job env settled turn =>
      refine ⟨?_, view_tag_other i _ _ _ (by omega)⟩
      rw [List.getElem?_append_left bound]
      exact here
  | deferred j job rest env settled there turn =>
      by_cases same : j = i
      · subst same
        cases here.symm.trans there
        cases stopped
      · exact ⟨by simpa [same] using here, view_tag_other i j _ _ same⟩
  | answered j job op next choice env settled there turn =>
      by_cases same : j = i
      · subst same
        cases here.symm.trans there
        cases stopped
      · refine ⟨by simpa [same] using here, ?_⟩
        rw [view_tag_other i j _ _ same, view_cons_other i j _ _ same]

theorem run_finished (labels : List (Label m)) (world : World m) (i : Nat) (task : Task m) (here : world.tasks[i]? = some task)
    (stopped : finished task.proc = true) :
    (run labels world).tasks[i]? = some task ∧ view i (run labels world).trace = view i world.trace := by
  induction labels generalizing world with
  | nil => exact ⟨here, rfl⟩
  | cons label rest ih =>
      obtain ⟨still, same⟩ := step_finished world _ (step_cases world label) i task here stopped
      obtain ⟨after, kept⟩ := ih (step world label) still
      exact ⟨after, kept.trans same⟩

-- A task that was over before a mark was made takes no part in what follows it.
theorem finished_before (labels : List (Label m)) (world : World m) (i : Nat) (task : Task m) (here : world.tasks[i]? = some task)
    (stopped : finished task.proc = true) (newer older : Trace σ) (mark : Nat × Note σ)
    (split : (run labels world).trace = newer ++ mark :: older) (fresh : mark ∉ world.trace) (entry : Nat × Note σ)
    (member : entry ∈ newer) : entry.1 ≠ i := by
  obtain ⟨added, grown⟩ := run_extends labels world
  have still := (run_finished labels world i task here stopped).2
  rw [grown, view, List.filterMap_append] at still
  have silent : view i added = [] := List.append_left_eq_self.mp still
  have inAdded : entry ∈ added := by
    rcases List.append_eq_append_iff.mp (split.symm.trans grown) with ⟨more, long, _⟩ | ⟨more, _, short⟩
    · rw [long]
      exact List.mem_append_left _ member
    · exact absurd (by rw [short]; simp) fresh
  intro own
  have seen := (mem_view i entry.2 added).mpr (by rw [← own]; exact inAdded)
  rw [silent] at seen
  cases seen

end Resume
