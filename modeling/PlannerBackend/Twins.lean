import PlannerBackend.Invariant

set_option autoImplicit false

namespace Resume

variable {σ : Signature} {m : Machine σ}

-- How two runs of one machine may differ: in the commands they ask, in the
-- answers these are given, and in their stores.
structure Coupling (m : Machine σ) where
  asks : σ.Op → σ.Op → Prop
  links : Note σ → Note σ → Prop
  stores : m.Store → m.Store → Prop

variable (c : Coupling m)

-- Two processes that say the same, whatever linked answers they are given.
inductive Alike : Proc σ → Proc σ → Prop where
  | halt : Alike .halt .halt
  | crash : Alike .crash .crash
  | emit (out : σ.Out) (p q : Proc σ) (rest : Alike p q) : Alike (.emit out p) (.emit out q)
  | sample (p q : σ.Env → Proc σ) (next : ∀ env, Alike (p env) (q env)) : Alike (.sample p) (.sample q)
  | assign (value : σ.Cell) (p q : Proc σ) (rest : Alike p q) : Alike (.assign value p) (.assign value q)
  | fetch (p q : σ.Cell → Proc σ) (next : ∀ value, Alike (p value) (q value)) : Alike (.fetch p) (.fetch q)
  | later (p q : Proc σ) (rest : Alike p q) : Alike (.later p) (.later q)
  | call (a b : σ.Op) (p : σ.Ans a → Proc σ) (q : σ.Ans b → Proc σ) (asks : c.asks a b)
      (next : ∀ x y, c.links (.asked a x) (.asked b y) → Alike (p x) (q y)) : Alike (.call a p) (.call b q)

def AlikePromise {ε α : Type} (related : α → α → Prop) (first second : Promise σ ε α) : Prop :=
  ∀ resolve resolve' reject reject', (∀ x y, related x y → Alike c (resolve x) (resolve' y)) →
    (∀ reason, Alike c (reject reason) (reject' reason)) → Alike c (first resolve reject) (second resolve' reject')

theorem alike_and_then {ε α β : Type} (related : α → α → Prop) (after : β → β → Prop) (p q : Promise σ ε α)
    (r s : α → Promise σ ε β) (first : AlikePromise c related p q)
    (next : ∀ x y, related x y → AlikePromise c after (r x) (s y)) :
    AlikePromise c after (Promise.andThen p r) (Promise.andThen q s) := by
  intro resolve resolve' reject reject' resolved rejected
  apply first _ _ _ _ _ rejected
  intro x y here
  exact .later _ _ (next x y here resolve resolve' reject reject' resolved rejected)

theorem alike_finish {ε α : Type} (related : α → α → Prop) (p q : Promise σ ε α) (onResolved onResolved' : α → Proc σ)
    (onRejected : ε → Proc σ) (promised : AlikePromise c related p q)
    (resolved : ∀ x y, related x y → Alike c (onResolved x) (onResolved' y))
    (rejected : ∀ reason, Alike c (onRejected reason) (onRejected reason)) :
    Alike c (Promise.finish p onResolved onRejected) (Promise.finish q onResolved' onRejected) :=
  promised _ _ _ _ (fun x y here => .later _ _ (resolved x y here)) (fun reason => .later _ _ (rejected reason))

theorem settle_alike (env : Nat → σ.Env) (p q : Proc σ) (alike : Alike c p q) (n : Nat) (cell : σ.Cell) :
    (settle env p n cell).outs = (settle env q n cell).outs ∧ (settle env p n cell).cell = (settle env q n cell).cell ∧
      Alike c (settle env p n cell).proc (settle env q n cell).proc := by
  induction alike generalizing n cell with
  | halt => exact ⟨rfl, rfl, .halt⟩
  | crash => exact ⟨rfl, rfl, .crash⟩
  | emit out p q rest ih =>
      obtain ⟨outs, cells, procs⟩ := ih n cell
      exact ⟨congrArg (· ++ [out]) outs, cells, procs⟩
  | sample p q next ih => exact ih (env n) (n + 1) cell
  | assign value p q rest ih => exact ih n value
  | fetch p q next ih => exact ih cell n cell
  | later p q rest ih => exact ⟨rfl, rfl, .later p q rest⟩
  | call a b p q asks next ih => exact ⟨rfl, rfl, .call a b p q asks next⟩

def told (trace : Trace σ) : List (Nat × σ.Out) :=
  trace.filterMap fun
    | (i, .said out) => some (i, out)
    | (_, .asked _ _) => none

theorem told_append (newer older : Trace σ) : told (newer ++ older) = told newer ++ told older := List.filterMap_append

structure Twins (a b : World m) : Prop where
  store : c.stores a.store b.store
  cell : a.cell = b.cell
  born : a.tasks.length = b.tasks.length
  tasks : ∀ i : Nat, Option.Rel (fun x y : Task m => Alike c x.proc y.proc) a.tasks[i]? b.tasks[i]?
  told : told a.trace = told b.trace

-- What a step must provide for twins to stay twins: handlers alike to
-- themselves, and linked answers to the commands of two twin tasks.
def Carries (a b : World m) : Label m → Prop
  | .start job _ => Alike c (m.handler job) (m.handler job)
  | .resume i choice _ =>
      ∀ job op next job' op' next', a.tasks[i]? = some ⟨job, .call op next⟩ → b.tasks[i]? = some ⟨job', .call op' next'⟩ →
      c.asks op op' → c.links (.asked op (m.exec op choice a.store).1) (.asked op' (m.exec op' choice b.store).1) ∧
        c.stores (m.exec op choice a.store).2 (m.exec op' choice b.store).2

def AlongBoth (condition : World m → World m → Label m → Prop) : List (Label m) → World m → World m → Prop
  | [], _, _ => True
  | label :: rest, a, b => condition a b label ∧ AlongBoth condition rest (step a label) (step b label)

section Steps

variable (a b : World m) (twins : Twins c a b)

include twins

theorem turn_twins (env : Nat → σ.Env) (i : Nat) (job job' : m.Job) (p q : Proc σ) (alike : Alike c p q) (s t : m.Store)
    (stores : c.stores s t) (notes notes' : Trace σ) (silent : told notes = told notes') :
    Twins c ⟨s, (settle env p 0 a.cell).cell, a.tasks.set i ⟨job, (settle env p 0 a.cell).proc⟩,
        tag i (settle env p 0 a.cell).outs ++ (notes ++ a.trace)⟩
      ⟨t, (settle env q 0 b.cell).cell, b.tasks.set i ⟨job', (settle env q 0 b.cell).proc⟩,
        tag i (settle env q 0 b.cell).outs ++ (notes' ++ b.trace)⟩ := by
  rw [← twins.cell]
  obtain ⟨outs, cells, procs⟩ := settle_alike c env p q alike 0 a.cell
  refine ⟨stores, cells, by simp [twins.born], fun j => ?_, ?_⟩
  · by_cases here : i = j
    · subst here
      have both := twins.tasks i
      rw [List.getElem?_set_self', List.getElem?_set_self']
      generalize a.tasks[i]? = x at both
      generalize b.tasks[i]? = y at both
      cases both with
      | none => exact .none
      | some _ => exact .some procs
    · rw [List.getElem?_set_ne here, List.getElem?_set_ne here]
      exact twins.tasks j
  · rw [outs, told_append, told_append, told_append, told_append, silent, twins.told]

theorem step_twins (label : Label m) (carries : Carries c a b label) : Twins c (step a label) (step b label) := by
  cases label with
  | start job env =>
      have procs := (settle_alike c env _ _ carries 0 a.cell).2.2
      refine ⟨twins.store, ?_, ?_, fun i => ?_, ?_⟩
      · simp only [step, twins.cell]
      · simp [step, twins.born]
      · by_cases old : i < a.tasks.length
        · simp only [step, List.getElem?_append_left old, List.getElem?_append_left (twins.born ▸ old)]
          exact twins.tasks i
        · simp only [step, List.getElem?_append_right (Nat.le_of_not_lt old),
            List.getElem?_append_right (twins.born ▸ Nat.le_of_not_lt old), twins.born, ← twins.cell]
          cases i - b.tasks.length with
          | zero => exact .some procs
          | succ _ => exact .none
      · simp only [step, twins.cell, twins.born, told_append, twins.told]
  | resume i choice env =>
      have task := twins.tasks i
      cases here : a.tasks[i]? with
      | none =>
          rw [here] at task
          cases there : b.tasks[i]? with
          | none => simpa only [step, here, there] using twins
          | some other =>
              rw [there] at task
              cases task
      | some first =>
          rw [here] at task
          cases there : b.tasks[i]? with
          | none =>
              rw [there] at task
              cases task
          | some second =>
              obtain ⟨job, p⟩ := first
              obtain ⟨job', q⟩ := second
              rw [there] at task
              cases task with
              | some alike =>
                  cases alike with
                  | later p q rest =>
                      rw [step_deferred a i job p choice env here, step_deferred b i job' q choice env there]
                      exact turn_twins c a b twins env i job job' p q rest _ _ twins.store [] [] rfl
                  | call op op' p q asks next =>
                      obtain ⟨links, stores⟩ := carries job op p job' op' q here there asks
                      rw [step_answered a i job op p choice env here, step_answered b i job' op' q choice env there]
                      exact turn_twins c a b twins env i job job' _ _ (next _ _ links) _ _ stores [_] [_] rfl
                  | _ => simpa only [step, here, there] using twins

end Steps

theorem run_twins (condition : World m → World m → Label m → Prop) (labels : List (Label m))
    (rule : ∀ a b label, label ∈ labels → Twins c a b → condition a b label → Carries c a b label) (a b : World m)
    (twins : Twins c a b) (all : AlongBoth condition labels a b) : Twins c (run labels a) (run labels b) := by
  induction labels generalizing a b with
  | nil => exact twins
  | cons label rest ih =>
      refine ih (fun x y next member => rule x y next (List.mem_cons_of_mem _ member)) _ _ ?_ all.2
      exact step_twins c a b twins label (rule a b label List.mem_cons_self twins all.1)

end Resume
