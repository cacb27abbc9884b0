import PlannerBackend.System

set_option autoImplicit false

namespace Resume

variable {σ : Signature} {m : Machine σ}

def jobs (world : World m) : List m.Job := world.tasks.map Task.job

theorem jobs_lookup (world : World m) (i : Nat) (task : Task m) (here : world.tasks[i]? = some task) :
    (jobs world)[i]? = some task.job := by
  simp [jobs, here]

theorem jobs_set (world : World m) (i : Nat) (job : m.Job) (proc : Proc σ) (old : Proc σ)
    (here : world.tasks[i]? = some ⟨job, old⟩) :
    (world.tasks.set i ⟨job, proc⟩).map Task.job = jobs world := by
  apply List.ext_getElem?
  intro j
  by_cases same : i = j
  · subst same
    obtain ⟨bound, value⟩ := List.getElem?_eq_some_iff.mp here
    simp [jobs, bound, value]
  · simp [jobs, same]

def startedJobs (labels : List (Label m)) : List m.Job :=
  labels.filterMap fun
    | .start job _ => some job
    | .resume _ _ _ => none

theorem step_jobs (world : World m) (label : Label m) : jobs (step world label) = jobs world ++ startedJobs [label] := by
  cases label with
  | start job env => simp [jobs, step, startedJobs]
  | resume i choice env =>
      rw [show startedJobs [Label.resume i choice env] = ([] : List m.Job) from rfl, List.append_nil]
      cases here : world.tasks[i]? with
      | none => simp only [step, here]
      | some task =>
          obtain ⟨job, proc⟩ := task
          cases proc with
          | later rest =>
              rw [step_deferred world i job rest choice env here]
              exact jobs_set world i job _ _ here
          | call op next =>
              rw [step_answered world i job op next choice env here]
              exact jobs_set world i job _ _ here
          | _ => simp only [step, here]

theorem run_jobs (labels : List (Label m)) (world : World m) : jobs (run labels world) = jobs world ++ startedJobs labels := by
  induction labels generalizing world with
  | nil => simp [run, startedJobs]
  | cons label rest ih =>
      rw [show run (label :: rest) world = run rest (step world label) from rfl, ih, step_jobs, List.append_assoc]
      simp only [startedJobs, ← List.filterMap_append, List.singleton_append]

-- Every task keeps to the spec of its job from where it stands now.
structure Tracked (spec : m.Job → Spec σ) (world : World m) : Prop where
  meets : ∀ i task, world.tasks[i]? = some task → Meets (spec task.job) task.proc none (view i world.trace)
  unborn : ∀ i, world.tasks.length ≤ i → view i world.trace = []

theorem initial_tracked (spec : m.Job → Spec σ) (store : m.Store) (cell : σ.Cell) :
    Tracked spec (World.initial m store cell) :=
  ⟨by simp [World.initial], by simp [World.initial]⟩

theorem tracked_bounded (spec : m.Job → Spec σ) (world : World m) (tracked : Tracked spec world) (entry : Nat × Note σ)
    (member : entry ∈ world.trace) : entry.1 < world.tasks.length := by
  apply Nat.lt_of_not_le
  intro beyond
  have seen := (mem_view entry.1 entry.2 world.trace).mpr member
  rw [tracked.unborn entry.1 beyond] at seen
  cases seen

theorem turn_tracked (spec : m.Job → Spec σ) (world : World m) (tracked : Tracked spec world) (i : Nat) (job : m.Job)
    (old proc : Proc σ) (env : Nat → σ.Env) (notes : Trace σ) (store : m.Store)
    (here : world.tasks[i]? = some ⟨job, old⟩)
    (own : ∀ j, j ≠ i → view j (notes ++ world.trace) = view j world.trace)
    (meets : Meets (spec job) proc none (view i (notes ++ world.trace))) :
    Tracked spec ⟨store, (settle env proc 0 world.cell).cell,
      world.tasks.set i ⟨job, (settle env proc 0 world.cell).proc⟩,
      tag i (settle env proc 0 world.cell).outs ++ (notes ++ world.trace)⟩ := by
  obtain ⟨bound, _⟩ := List.getElem?_eq_some_iff.mp here
  constructor
  · intro j task lookup
    by_cases same : i = j
    · subst same
      have eq : task = ⟨job, (settle env proc 0 world.cell).proc⟩ := by simpa [bound] using lookup.symm
      subst eq
      rw [view_tag_own]
      exact (settle_meets (spec job) env proc 0 world.cell none _ (by simp) meets).1
    · rw [view_tag_other j i _ _ same, own j (Ne.symm same)]
      exact tracked.meets j task (by simpa [same] using lookup)
  · intro j beyond
    have outside : world.tasks.length ≤ j := by simpa using beyond
    have different : j ≠ i := by omega
    rw [view_tag_other j i _ _ (Ne.symm different), own j different]
    exact tracked.unborn j outside

theorem step_tracked (spec : m.Job → Spec σ) (handlers : ∀ job, Meets (spec job) (m.handler job) none [])
    (world next : World m) (stepped : Stepped world next) (tracked : Tracked spec world) : Tracked spec next := by
  cases stepped with
  | idle => exact tracked
  | started job env settled turn =>
      subst turn
      constructor
      · intro j task lookup
        by_cases fresh : j = world.tasks.length
        · subst fresh
          have eq : task = ⟨job, (settle env (m.handler job) 0 world.cell).proc⟩ := by simpa using lookup.symm
          subst eq
          rw [view_tag_own, tracked.unborn _ (Nat.le_refl _)]
          exact (settle_meets (spec job) env (m.handler job) 0 world.cell none [] (by simp) (handlers job)).1
        · have older : world.tasks[j]? = some task := by
            have bound := (List.getElem?_eq_some_iff.mp lookup).1
            rw [List.length_append, List.length_singleton] at bound
            rwa [List.getElem?_append_left (by omega)] at lookup
          rw [view_tag_other j _ _ _ (Ne.symm fresh)]
          exact tracked.meets j task older
      · intro j beyond
        have outside : world.tasks.length + 1 ≤ j := by simpa using beyond
        rw [view_tag_other j _ _ _ (by omega)]
        exact tracked.unborn j (by omega)
  | deferred i job rest env settled here turn =>
      subst turn
      exact turn_tracked spec world tracked i job _ rest env [] world.store here (fun _ _ => rfl)
        (tracked.meets i _ here)
  | answered i job op after choice env settled here turn =>
      subst turn
      refine turn_tracked spec world tracked i job _ _ env [(i, .asked op _)] _ here ?_ ?_
      · intro j different
        exact view_cons_other j i _ _ (Ne.symm different)
      · rw [List.singleton_append, view_cons_own]
        exact (tracked.meets i _ here).2 _

theorem run_tracked (spec : m.Job → Spec σ) (handlers : ∀ job, Meets (spec job) (m.handler job) none [])
    (labels : List (Label m)) (world : World m) (tracked : Tracked spec world) : Tracked spec (run labels world) := by
  induction labels generalizing world with
  | nil => exact tracked
  | cons label rest ih => exact ih (step world label) (step_tracked spec handlers world _ (step_cases world label) tracked)

-- A condition that a run may be asked to meet at every command it executes,
-- on the trace and the store just before.
abbrev Guard (m : Machine σ) := Trace σ → m.Store → Nat → σ.Op → Prop

def Guarded (guard : Guard m) (world : World m) : Label m → Prop
  | .start _ _ => True
  | .resume i _ _ => ∀ job op next, world.tasks[i]? = some ⟨job, .call op next⟩ → guard world.trace world.store i op

def AllGuarded (guard : Guard m) : List (Label m) → World m → Prop
  | [], _ => True
  | label :: rest, world => Guarded guard world label ∧ AllGuarded guard rest (step world label)

def unguarded : Guard m := fun _ _ _ _ => True

theorem all_unguarded (labels : List (Label m)) (world : World m) : AllGuarded unguarded labels world := by
  induction labels generalizing world with
  | nil => trivial
  | cons label rest ih =>
      refine ⟨?_, ih (step world label)⟩
      cases label with
      | start => trivial
      | resume => exact fun _ _ _ _ => trivial

def passes (check : World m → Nat → σ.Op → Bool) (world : World m) : Label m → Bool
  | .start _ _ => true
  | .resume i _ _ =>
      match world.tasks[i]? with
      | some ⟨_, .call op _⟩ => check world i op
      | _ => true

-- A guard along a given run, by evaluation.
def allPass (check : World m → Nat → σ.Op → Bool) : List (Label m) → World m → Bool
  | [], _ => true
  | label :: rest, world => passes check world label && allPass check rest (step world label)

theorem all_pass_guarded (spec : m.Job → Spec σ) (handlers : ∀ job, Meets (spec job) (m.handler job) none []) (guard : Guard m)
    (check : World m → Nat → σ.Op → Bool)
    (sound : ∀ world i op, Tracked spec world → check world i op = true → guard world.trace world.store i op)
    (labels : List (Label m)) (world : World m) (tracked : Tracked spec world) (passed : allPass check labels world = true) :
    AllGuarded guard labels world := by
  induction labels generalizing world with
  | nil => trivial
  | cons label rest ih =>
      obtain ⟨here, later⟩ := Bool.and_eq_true_iff.mp passed
      refine ⟨?_, ih _ (step_tracked spec handlers world _ (step_cases world label) tracked) later⟩
      cases label with
      | start => trivial
      | resume i choice env =>
          intro job op next there
          apply sound world i op tracked
          simpa only [passes, there] using here

-- An invariant of jobs, trace and store that every single event keeps, given
-- that the event is one its task's spec allows and the guard holds.
structure EventRule (spec : m.Job → Spec σ) (guard : Guard m) (inv : List m.Job → Trace σ → m.Store → Prop) : Prop where
  born : ∀ known trace store job, inv known trace store → inv (known ++ [job]) trace store
  told : ∀ known trace store i job out, inv known trace store → known[i]? = some job →
    (spec job).tells (view i trace) out → inv known ((i, .said out) :: trace) store
  asked : ∀ known trace store i job op choice, inv known trace store → known[i]? = some job →
    (spec job).asks (view i trace) op → guard trace store i op →
    inv known ((i, .asked op (m.exec op choice store).1) :: trace) (m.exec op choice store).2

section Events

variable {spec : m.Job → Spec σ} {guard : Guard m} {inv : List m.Job → Trace σ → m.Store → Prop} (rule : EventRule spec guard inv)

include rule

theorem EventRule.outs (known : List m.Job) (trace : Trace σ) (store : m.Store) (i : Nat) (job : m.Job) (outs : List σ.Out)
    (here : known[i]? = some job) (holds : inv known trace store)
    (allowed : ∀ newer out older, outs = newer ++ out :: older → (spec job).tells (older.map Note.said ++ view i trace) out) :
    inv known (tag i outs ++ trace) store := by
  induction outs with
  | nil => exact holds
  | cons out rest ih =>
      have earlier := ih (fun newer said older split => allowed (out :: newer) said older (by simp [split]))
      have told : (spec job).tells (view i (tag i rest ++ trace)) out := by
        rw [view_tag_own]
        exact allowed [] out rest rfl
      exact rule.told known _ store i job out earlier here told

theorem EventRule.next (handlers : ∀ job, Meets (spec job) (m.handler job) none []) (world : World m) (label : Label m)
    (tracked : Tracked spec world) (allowed : Guarded guard world label) (holds : inv (jobs world) world.trace world.store) :
    inv (jobs (step world label)) (step world label).trace (step world label).store := by
  cases label with
  | start job env =>
      have here : (jobs world ++ [job])[world.tasks.length]? = some job := by simp [jobs]
      have told := (settle_meets (spec job) env (m.handler job) 0 world.cell none [] (by simp) (handlers job)).2
      have result := rule.outs (jobs world ++ [job]) world.trace world.store world.tasks.length job _ here
        (rule.born _ _ _ job holds) (by rw [tracked.unborn _ (Nat.le_refl _)]; exact told)
      simpa [jobs, step] using result
  | resume i choice env =>
      cases here : world.tasks[i]? with
      | none => simpa only [step, here] using holds
      | some task =>
          obtain ⟨job, proc⟩ := task
          have lookup := jobs_lookup world i _ here
          cases proc with
          | later rest =>
              have told := (settle_meets (spec job) env rest 0 world.cell none _ (by simp) (tracked.meets i _ here)).2
              have result := rule.outs (jobs world) world.trace world.store i job _ lookup holds told
              rw [step_deferred world i job rest choice env here]
              simpa only [jobs, jobs_set world i job _ _ here] using result
          | call op after =>
              have meets := tracked.meets i _ here
              have replied := rule.asked _ _ _ i job op choice holds lookup meets.1 (allowed job op after here)
              have told := (settle_meets (spec job) env _ 0 world.cell none _ (by simp)
                (meets.2 (m.exec op choice world.store).1)).2
              have result := rule.outs (jobs world) _ _ i job _ lookup replied (by rw [view_cons_own]; exact told)
              rw [step_answered world i job op after choice env here]
              simpa only [jobs, jobs_set world i job _ _ here] using result
          | _ => simpa only [step, here] using holds

theorem EventRule.guarded_runs (handlers : ∀ job, Meets (spec job) (m.handler job) none []) (labels : List (Label m))
    (world : World m) (tracked : Tracked spec world) (allowed : AllGuarded guard labels world)
    (holds : inv (jobs world) world.trace world.store) :
    inv (jobs (run labels world)) (run labels world).trace (run labels world).store := by
  induction labels generalizing world with
  | nil => exact holds
  | cons label rest ih =>
      exact ih (step world label) (step_tracked spec handlers world _ (step_cases world label) tracked) allowed.2
        (rule.next handlers world label tracked allowed.1 holds)

end Events

theorem EventRule.runs {spec : m.Job → Spec σ} {inv : List m.Job → Trace σ → m.Store → Prop} (rule : EventRule spec unguarded inv)
    (handlers : ∀ job, Meets (spec job) (m.handler job) none []) (labels : List (Label m)) (world : World m)
    (tracked : Tracked spec world) (holds : inv (jobs world) world.trace world.store) :
    inv (jobs (run labels world)) (run labels world).trace (run labels world).store :=
  rule.guarded_runs handlers labels world tracked (all_unguarded labels world) holds

def Allowed (spec : Spec σ) (past : History σ) : Note σ → Prop
  | .asked op _ => spec.asks past op
  | .said out => spec.tells past out

-- Every note of the trace was one its task's spec allowed when it was made.
def Lawful (spec : m.Job → Spec σ) (known : List m.Job) (trace : Trace σ) : Prop :=
  ∀ newer i note older, trace = newer ++ (i, note) :: older →
    ∃ job, known[i]? = some job ∧ Allowed (spec job) (view i older) note

theorem lawful_cons (spec : m.Job → Spec σ) (known : List m.Job) (trace : Trace σ) (i : Nat) (note : Note σ) (job : m.Job)
    (lawful : Lawful spec known trace) (here : known[i]? = some job) (allowed : Allowed (spec job) (view i trace) note) :
    Lawful spec known ((i, note) :: trace) := by
  intro newer j other older split
  cases newer with
  | nil =>
      cases split
      exact ⟨job, here, allowed⟩
  | cons first rest => exact lawful rest j other older (List.cons.inj split).2

theorem lawful_viewed (spec : m.Job → Spec σ) (known : List m.Job) (trace : Trace σ) (lawful : Lawful spec known trace) (i : Nat)
    (later : History σ) (note : Note σ) (past : History σ) (shape : view i trace = later ++ note :: past) :
    ∃ job, known[i]? = some job ∧ Allowed (spec job) past note := by
  obtain ⟨newer, older, split, _, rfl⟩ := view_split i trace later past note shape
  exact lawful newer i note older split

theorem lawful_rule (spec : m.Job → Spec σ) : EventRule spec unguarded (fun known trace _ => Lawful spec known trace) where
  born := by
    intro known trace store job lawful newer i note older split
    obtain ⟨owner, here, allowed⟩ := lawful newer i note older split
    refine ⟨owner, ?_, allowed⟩
    rw [List.getElem?_append_left (List.getElem?_eq_some_iff.mp here).1]
    exact here
  told := fun known trace _ i job out lawful here allowed => lawful_cons spec known trace i (.said out) job lawful here allowed
  asked := fun known trace _ i job op _ lawful here allowed _ =>
      lawful_cons spec known trace i (.asked op _) job lawful here allowed

theorem run_lawful (spec : m.Job → Spec σ) (handlers : ∀ job, Meets (spec job) (m.handler job) none [])
    (labels : List (Label m)) (store : m.Store) (cell : σ.Cell) :
    Lawful spec (jobs (run labels (World.initial m store cell))) (run labels (World.initial m store cell)).trace := by
  apply (lawful_rule spec).runs handlers labels _ (initial_tracked spec store cell)
  intro newer i note older split
  simp [World.initial] at split

end Resume
