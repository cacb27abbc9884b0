import PlannerBackend.Private
import PlannerBackend.Process

set_option autoImplicit false

namespace Resume

variable {σ : Signature} {m : Machine σ}

-- The place a task moves up to once the held ones before it are gone.
def rank (held : Nat → Bool) : Nat → Nat
  | 0 => 0
  | i + 1 => rank held i + (!held i).toNat

-- The same schedule without the held tasks: they are never started. The next
-- task to be started is the one at position n.
def takeOut (held : Nat → Bool) : Nat → List (Label m) → List (Label m)
  | _, [] => []
  | n, .start job env :: rest => if held n then takeOut held (n + 1) rest else .start job env :: takeOut held (n + 1) rest
  | n, .resume i choice env :: rest =>
      if held i then takeOut held n rest else .resume (rank held i) choice env :: takeOut held n rest

section Rank

variable (held : Nat → Bool)

theorem rank_kept (i : Nat) (kept : held i = false) : rank held (i + 1) = rank held i + 1 := by simp [rank, kept]

theorem rank_held (i : Nat) (isOut : held i = true) : rank held (i + 1) = rank held i := by simp [rank, isOut]

theorem rank_mono (i j : Nat) (below : i ≤ j) : rank held i ≤ rank held j := by
  induction below with
  | refl => exact Nat.le_refl _
  | step _ ih => exact Nat.le_trans ih (Nat.le_add_right _ _)

theorem rank_lt (i j : Nat) (kept : held i = false) (below : i < j) : rank held i < rank held j := by
  have next := rank_kept held i kept
  have onward := rank_mono held (i + 1) j below
  omega

theorem rank_inj (i j : Nat) (keptI : held i = false) (keptJ : held j = false) (same : rank held i = rank held j) : i = j := by
  rcases Nat.lt_trichotomy i j with less | equal | more
  · exact absurd same (Nat.ne_of_lt (rank_lt held i j keptI less))
  · exact equal
  · exact absurd same.symm (Nat.ne_of_lt (rank_lt held j i keptJ more))

theorem rank_onto (n k : Nat) (below : k < rank held n) : ∃ i, i < n ∧ held i = false ∧ rank held i = k := by
  induction n with
  | zero => exact absurd below (Nat.not_lt_zero k)
  | succ n ih =>
      by_cases earlier : k < rank held n
      · obtain ⟨i, inside, kept, same⟩ := ih earlier
        exact ⟨i, Nat.lt_succ_of_lt inside, kept, same⟩
      · cases isOut : held n with
        | true =>
            rw [rank_held held n isOut] at below
            exact absurd below earlier
        | false =>
            rw [rank_kept held n isOut] at below
            exact ⟨n, Nat.lt_succ_self n, isOut, by omega⟩

end Rank

-- Hidden commands leave one part of the store as it is; shown commands are
-- answered from that part and change it the same way wherever it is the same.
structure Screen {β : Type} (part : m.Store → β) (hidden shown : σ.Op → Prop) : Prop where
  idle : ∀ op choice store, hidden op → part (m.exec op choice store).2 = part store
  same : ∀ op choice a b, shown op → part a = part b →
    (m.exec op choice a).1 = (m.exec op choice b).1 ∧ part (m.exec op choice a).2 = part (m.exec op choice b).2

def screening (hides shows : m.Job → Prop) (hidden shown : σ.Op → Prop) (job : m.Job) : Spec σ where
  asks := fun _ op => (hides job → hidden op) ∧ (shows job → shown op)
  tells := fun _ _ => True
  ends := fun _ => True
  breaks := fun _ => True

-- Held tasks only hide, the others only show.
def Sorted (held : Nat → Bool) (hides shows : m.Job → Prop) (known : List m.Job) : Prop :=
  ∀ i job, known[i]? = some job → (held i = true → hides job) ∧ (held i = false → shows job)

theorem sorted_head (held : Nat → Bool) (hides shows : m.Job → Prop) (first more : List m.Job)
    (sorted : Sorted held hides shows (first ++ more)) : Sorted held hides shows first := by
  intro i job here
  apply sorted i job
  rw [List.getElem?_append_left (List.getElem?_eq_some_iff.mp here).1]
  exact here

theorem view_noted_own (i : Nat) (notes : History σ) (trace : Trace σ) :
    view i (notes.map (i, ·) ++ trace) = notes ++ view i trace := by
  induction notes with
  | nil => rfl
  | cons note rest ih => simpa using ih

theorem view_noted_other (i j : Nat) (notes : History σ) (trace : Trace σ) (different : j ≠ i) :
    view i (notes.map (j, ·) ++ trace) = view i trace := by
  induction notes with
  | nil => rfl
  | cons note rest ih => simpa [view_cons_other i j _ _ different] using ih

-- The other world has the tasks that are not held, moved up, and has seen
-- the same of them.
structure Unseen {β : Type} (part : m.Store → β) (held : Nat → Bool) (full less : World m) : Prop where
  store : part full.store = part less.store
  size : less.tasks.length = rank held full.tasks.length
  tasks : ∀ i, held i = false → less.tasks[rank held i]? = full.tasks[i]?
  views : ∀ i, held i = false → view (rank held i) less.trace = view i full.trace
  tidy : ∀ task ∈ full.tasks, Tidy task.proc false

-- What nobody outside the held tasks can notice: whether the process is up,
-- where each other task stands, and what each has asked, heard and said.
structure Unaffected (held : Nat → Bool) (full less : World m) : Prop where
  up : down less = down full
  tasks : ∀ i, held i = false → less.tasks[rank held i]? = full.tasks[i]?
  views : ∀ i, held i = false → view (rank held i) less.trace = view i full.trace

section Turns

variable {β : Type} {part : m.Store → β} {held : Nat → Bool} {full less : World m} (unseen : Unseen part held full less)

include unseen

-- A turn of a task that both worlds hold.
theorem turn_kept (env : Nat → σ.Env) (i : Nat) (job : m.Job) (old proc : Proc σ) (notes : History σ) (store other : m.Store)
    (here : full.tasks[i]? = some ⟨job, old⟩) (kept : held i = false) (tidy : Tidy proc false)
    (stores : part store = part other) :
    Unseen part held
      ⟨store, (settle env proc 0 full.cell).cell, full.tasks.set i ⟨job, (settle env proc 0 full.cell).proc⟩,
        tag i (settle env proc 0 full.cell).outs ++ (notes.map (i, ·) ++ full.trace)⟩
      ⟨other, (settle env proc 0 less.cell).cell, less.tasks.set (rank held i) ⟨job, (settle env proc 0 less.cell).proc⟩,
        tag (rank held i) (settle env proc 0 less.cell).outs ++ (notes.map (rank held i, ·) ++ less.trace)⟩ := by
  obtain ⟨outs, procs, after⟩ := settle_tidy env proc 0 full.cell less.cell false tidy (by simp)
  have inside := (List.getElem?_eq_some_iff.mp here).1
  have moved : rank held i < less.tasks.length := unseen.size ▸ rank_lt held i _ kept inside
  have apart : ∀ j, held j = false → i ≠ j → rank held i ≠ rank held j :=
    fun j keptJ different same => different (rank_inj held i j kept keptJ same)
  constructor
  · exact stores
  · simpa using unseen.size
  · intro j keptJ
    by_cases same : i = j
    · subst same
      simp [inside, moved, procs]
    · simpa [same, apart j keptJ same] using unseen.tasks j keptJ
  · intro j keptJ
    by_cases same : i = j
    · subst same
      rw [view_tag_own, view_tag_own, view_noted_own, view_noted_own, unseen.views i kept, outs]
    · rw [view_tag_other _ _ _ _ (apart j keptJ same), view_tag_other _ _ _ _ same, view_noted_other _ _ _ _ (apart j keptJ same),
        view_noted_other _ _ _ _ same, unseen.views j keptJ]
  · intro task member
    rcases List.mem_or_eq_of_mem_set member with old | rfl
    · exact unseen.tidy task old
    · exact procs ▸ after

-- A turn of a held task, which the other world does not have.
theorem turn_held (env : Nat → σ.Env) (i : Nat) (job : m.Job) (proc : Proc σ) (notes : History σ) (store : m.Store)
    (isOut : held i = true) (tidy : Tidy proc false) (stores : part store = part full.store) :
    Unseen part held
      ⟨store, (settle env proc 0 full.cell).cell, full.tasks.set i ⟨job, (settle env proc 0 full.cell).proc⟩,
        tag i (settle env proc 0 full.cell).outs ++ (notes.map (i, ·) ++ full.trace)⟩ less := by
  obtain ⟨_, _, after⟩ := settle_tidy env proc 0 full.cell full.cell false tidy (by simp)
  have apart : ∀ j, held j = false → i ≠ j := by
    intro j kept same
    rw [same, kept] at isOut
    cases isOut
  constructor
  · exact stores.trans unseen.store
  · simpa using unseen.size
  · intro j kept
    simpa [apart j kept] using unseen.tasks j kept
  · intro j kept
    rw [view_tag_other j i _ _ (apart j kept), view_noted_other j i _ _ (apart j kept)]
    exact unseen.views j kept
  · intro task member
    rcases List.mem_or_eq_of_mem_set member with old | rfl
    · exact unseen.tidy task old
    · exact after

theorem start_kept (handlers : ∀ job, Tidy (m.handler job) false) (job : m.Job) (env : Nat → σ.Env)
    (kept : held full.tasks.length = false) : Unseen part held (step full (.start job env)) (step less (.start job env)) := by
  obtain ⟨outs, procs, after⟩ := settle_tidy env (m.handler job) 0 full.cell less.cell false (handlers job) (by simp)
  have moved : ∀ j, held j = false → (rank held full.tasks.length = rank held j ↔ full.tasks.length = j) :=
    fun j keptJ => ⟨rank_inj held _ j kept keptJ, congrArg (rank held)⟩
  constructor
  · exact unseen.store
  · simp [step, unseen.size, rank_kept held _ kept]
  · intro j keptJ
    simp only [step, procs]
    rcases Nat.lt_trichotomy j full.tasks.length with older | rfl | beyond
    · have before := rank_lt held j _ keptJ older
      rw [List.getElem?_append_left older, List.getElem?_append_left (unseen.size ▸ before), unseen.tasks j keptJ]
    · simp [← unseen.size]
    · have past : rank held full.tasks.length < rank held j := rank_lt held _ j kept beyond
      rw [← unseen.size] at past
      rw [List.getElem?_eq_none (by simpa [Nat.succ_le_iff] using past),
        List.getElem?_eq_none (by simpa [Nat.succ_le_iff] using beyond)]
  · intro j keptJ
    simp only [step, outs, unseen.size]
    by_cases same : full.tasks.length = j
    · rw [same, view_tag_own, view_tag_own, unseen.views j keptJ]
    · rw [view_tag_other _ _ _ _ (mt (moved j keptJ).mp same), view_tag_other _ _ _ _ same, unseen.views j keptJ]
  · intro task member
    rcases List.mem_append.mp member with old | new
    · exact unseen.tidy task old
    · rw [List.mem_singleton.mp new, procs]
      exact after

theorem start_held (handlers : ∀ job, Tidy (m.handler job) false) (job : m.Job) (env : Nat → σ.Env)
    (isOut : held full.tasks.length = true) : Unseen part held (step full (.start job env)) less := by
  obtain ⟨_, _, after⟩ := settle_tidy env (m.handler job) 0 full.cell full.cell false (handlers job) (by simp)
  have apart : ∀ j, held j = false → full.tasks.length ≠ j := by
    intro j kept same
    rw [same, kept] at isOut
    cases isOut
  constructor
  · exact unseen.store
  · simp [step, unseen.size, rank_held held _ isOut]
  · intro j kept
    rw [unseen.tasks j kept]
    rcases Nat.lt_or_ge j full.tasks.length with older | beyond
    · simp [step, List.getElem?_append_left older]
    · have outside : full.tasks.length + 1 ≤ j := by have := apart j kept; omega
      rw [List.getElem?_eq_none beyond, List.getElem?_eq_none (by simpa [step] using outside)]
  · intro j kept
    rw [unseen.views j kept, step, view_tag_other _ _ _ _ (apart j kept)]
  · intro task member
    rcases List.mem_append.mp member with old | new
    · exact unseen.tidy task old
    · rw [List.mem_singleton.mp new]
      exact after

-- With no held task broken, both processes are up or both are down.
theorem down_alike (sound : ∀ i task, full.tasks[i]? = some task → held i = true → task.proc.broken = false) :
    down less = down full := by
  cases isDown : down full with
  | true =>
      obtain ⟨i, job, here⟩ := down_broken full isDown
      have kept : held i = false := by
        cases isOut : held i with
        | false => rfl
        | true => exact absurd (sound i _ here isOut) (by simp [Proc.broken])
      have there := (unseen.tasks i kept).trans here
      exact List.any_eq_true.mpr ⟨_, List.mem_of_getElem? there, rfl⟩
  | false =>
      apply List.any_eq_false.mpr
      intro task member
      obtain ⟨k, there⟩ := List.getElem?_of_mem member
      obtain ⟨i, _, kept, rfl⟩ := rank_onto held _ k (unseen.size ▸ (List.getElem?_eq_some_iff.mp there).1)
      rw [unseen.tasks i kept] at there
      simpa using up_unbroken full isDown task (List.mem_of_getElem? there)

end Turns

section Runs

variable {β : Type} {part : m.Store → β} {held : Nat → Bool} {hidden shown : σ.Op → Prop} {hides shows : m.Job → Prop}
  (screen : Screen (m := m) part hidden shown) (handlers : ∀ job, Tidy (m.handler job) false)

include screen

theorem resume_kept (full less : World m) (unseen : Unseen part held full less)
    (tracked : Tracked (screening hides shows hidden shown) full) (sorted : Sorted held hides shows (jobs full)) (i : Nat)
    (choice : m.Choice) (env : Nat → σ.Env) (kept : held i = false) :
    Unseen part held (step full (.resume i choice env)) (step less (.resume (rank held i) choice env)) := by
  have there := unseen.tasks i kept
  cases here : full.tasks[i]? with
  | none =>
      rw [here] at there
      simpa only [step, here, there] using unseen
  | some task =>
      obtain ⟨job, proc⟩ := task
      rw [here] at there
      have tidy := unseen.tidy _ (List.mem_of_getElem? here)
      cases proc with
      | later rest =>
          rw [step_deferred full i job rest choice env here, step_deferred less _ job rest choice env there]
          exact turn_kept unseen env i job _ rest [] full.store less.store here kept tidy unseen.store
      | call op next =>
          have asked := (tracked.meets i _ here).1.2 ((sorted i job (jobs_lookup full i _ here)).2 kept)
          obtain ⟨answers, stores⟩ := screen.same op choice full.store less.store asked unseen.store
          rw [step_answered full i job op next choice env here, step_answered less _ job op next choice env there, ← answers]
          exact turn_kept unseen env i job _ (next _) [.asked op _] _ _ here kept (tidy _) stores
      | _ => simpa only [step, here, there] using unseen

theorem resume_held (full less : World m) (unseen : Unseen part held full less)
    (tracked : Tracked (screening hides shows hidden shown) full) (sorted : Sorted held hides shows (jobs full)) (i : Nat)
    (choice : m.Choice) (env : Nat → σ.Env) (isOut : held i = true) :
    Unseen part held (step full (.resume i choice env)) less := by
  cases here : full.tasks[i]? with
  | none => simpa only [step, here] using unseen
  | some task =>
      obtain ⟨job, proc⟩ := task
      have tidy := unseen.tidy _ (List.mem_of_getElem? here)
      cases proc with
      | later rest =>
          rw [step_deferred full i job rest choice env here]
          exact turn_held unseen env i job rest [] full.store isOut tidy rfl
      | call op next =>
          have asked := (tracked.meets i _ here).1.1 ((sorted i job (jobs_lookup full i _ here)).1 isOut)
          rw [step_answered full i job op next choice env here]
          exact turn_held unseen env i job (next _) [.asked op _] _ isOut (tidy _) (screen.idle op choice full.store asked)
      | _ => simpa only [step, here] using unseen

include handlers

-- One label: the other world either makes the same move, renumbered, or none.
theorem step_unseen (label : Label m) (full less : World m) (unseen : Unseen part held full less)
    (tracked : Tracked (screening hides shows hidden shown) full) (sorted : Sorted held hides shows (jobs full)) :
    takeOut held full.tasks.length [label] = [] ∧ Unseen part held (step full label) less ∨
      ∃ moved, takeOut held full.tasks.length [label] = [moved] ∧ Unseen part held (step full label) (step less moved) := by
  cases label with
  | start job env =>
      cases isOut : held full.tasks.length with
      | true => exact .inl ⟨by simp [takeOut, isOut], start_held unseen handlers job env isOut⟩
      | false => exact .inr ⟨_, by simp [takeOut, isOut], start_kept unseen handlers job env isOut⟩
  | resume i choice env =>
      cases isOut : held i with
      | true => exact .inl ⟨by simp [takeOut, isOut], resume_held screen full less unseen tracked sorted i choice env isOut⟩
      | false => exact .inr ⟨_, by simp [takeOut, isOut], resume_kept screen full less unseen tracked sorted i choice env isOut⟩

end Runs

theorem take_out_cons (held : Nat → Bool) (label : Label m) (rest : List (Label m)) (world : World m) :
    takeOut held world.tasks.length (label :: rest) =
      takeOut held world.tasks.length [label] ++ takeOut held (step world label).tasks.length rest := by
  have size := congrArg List.length (step_jobs world label)
  cases label with
  | start job env =>
      have next : (step world (.start job env)).tasks.length = world.tasks.length + 1 := by simpa [jobs, startedJobs] using size
      rw [next]
      cases isOut : held world.tasks.length <;> simp [takeOut, isOut]
  | resume i choice env =>
      have next : (step world (.resume i choice env)).tasks.length = world.tasks.length := by simpa [jobs, startedJobs] using size
      rw [next]
      cases isOut : held i <;> simp [takeOut, isOut]

section Lives

variable {β : Type} {part : m.Store → β} {held : Nat → Bool} {hidden shown : σ.Op → Prop} {hides shows : m.Job → Prop}
  (screen : Screen (m := m) part hidden shown) (handlers : ∀ job, Tidy (m.handler job) false)
  (asks : ∀ job, Meets (screening hides shows hidden shown job) (m.handler job) none [])

include screen handlers asks

theorem live_unseen (labels : List (Label m)) (full less : World m) (unseen : Unseen part held full less)
    (tracked : Tracked (screening hides shows hidden shown) full)
    (sorted : Sorted held hides shows (jobs full ++ startedJobs labels))
    (sound : ∀ i task, (live labels full).tasks[i]? = some task → held i = true → task.proc.broken = false) :
    Unseen part held (live labels full) (live (takeOut held full.tasks.length labels) less) := by
  induction labels generalizing full less with
  | nil => exact unseen
  | cons label rest ih =>
      cases isDown : down full with
      | true =>
          rw [live_down _ full isDown] at sound ⊢
          rw [live_down _ less ((down_alike unseen sound).trans isDown)]
          exact unseen
      | false =>
          have alike := down_alike unseen fun i task here _ => up_unbroken full isDown task (List.mem_of_getElem? here)
          have onward := step_tracked _ asks full _ (step_cases full label) tracked
          have later : Sorted held hides shows (jobs (step full label) ++ startedJobs rest) := by
            rw [step_jobs, List.append_assoc]
            simpa only [startedJobs, ← List.filterMap_append, List.singleton_append] using sorted
          rw [live_up label rest full isDown] at sound ⊢
          rw [take_out_cons]
          rcases step_unseen screen handlers label full less unseen tracked (sorted_head held hides shows _ _ sorted) with
            ⟨gone, next⟩ | ⟨moved, stays, next⟩
          · rw [gone, List.nil_append]
            exact ih _ _ next onward later sound
          · rw [stays, List.singleton_append, live_up moved _ less (alike.trans isDown)]
            exact ih _ _ next onward later sound

theorem taken_out_unaffected (labels : List (Label m)) (store : m.Store) (cell : σ.Cell)
    (sorted : Sorted held hides shows (startedJobs labels))
    (sound : ∀ i task, (live labels (World.initial m store cell)).tasks[i]? = some task → held i = true →
      task.proc.broken = false) :
    part (live (takeOut held 0 labels) (World.initial m store cell)).store =
    part (live labels (World.initial m store cell)).store ∧
      Unaffected held (live labels (World.initial m store cell)) (live (takeOut held 0 labels) (World.initial m store cell)) := by
  have unseen := live_unseen screen handlers asks labels (World.initial m store cell) (World.initial m store cell)
    ⟨rfl, rfl, fun _ _ => rfl, fun _ _ => rfl, by simp [World.initial]⟩ (initial_tracked _ store cell)
    (by simpa [jobs, World.initial] using sorted) sound
  exact ⟨unseen.store.symm, down_alike unseen sound, unseen.tasks, unseen.views⟩

end Lives

end Resume
