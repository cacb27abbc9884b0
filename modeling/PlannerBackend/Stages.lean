import PlannerBackend.Proc

set_option autoImplicit false

namespace Resume

-- One way a process can go on: any reply, any sample, and for the shared
-- variable any value that the assignments of the same turn allow.
inductive Leads {σ : Signature} : Proc σ → Option σ.Cell → History σ → Proc σ → Option σ.Cell → History σ → Prop where
  | here (proc : Proc σ) (known : Option σ.Cell) (past : History σ) : Leads proc known past proc known past
  | emit (out : σ.Out) (rest target : Proc σ) (known seen : Option σ.Cell) (past now : History σ)
      (onward : Leads rest known (.said out :: past) target seen now) : Leads (.emit out rest) known past target seen now
  | sample (env : σ.Env) (next : σ.Env → Proc σ) (target : Proc σ) (known seen : Option σ.Cell) (past now : History σ)
      (onward : Leads (next env) known past target seen now) : Leads (.sample next) known past target seen now
  | assign (value : σ.Cell) (rest target : Proc σ) (known seen : Option σ.Cell) (past now : History σ)
      (onward : Leads rest (some value) past target seen now) : Leads (.assign value rest) known past target seen now
  | fetch (value : σ.Cell) (next : σ.Cell → Proc σ) (target : Proc σ) (known seen : Option σ.Cell) (past now : History σ)
      (held : ∀ last, known = some last → value = last)
      (onward : Leads (next value) known past target seen now) : Leads (.fetch next) known past target seen now
  | later (rest target : Proc σ) (known seen : Option σ.Cell) (past now : History σ)
      (onward : Leads rest none past target seen now) : Leads (.later rest) known past target seen now
  | call (op : σ.Op) (ans : σ.Ans op) (next : σ.Ans op → Proc σ) (target : Proc σ) (known seen : Option σ.Cell)
      (past now : History σ) (onward : Leads (next ans) none (.asked op ans :: past) target seen now) :
      Leads (.call op next) known past target seen now

section Paths

variable {σ : Signature} {proc mid target : Proc σ} {known held seen : Option σ.Cell} {past between now : History σ}

theorem leads_trans (first : Leads proc known past mid held between) (second : Leads mid held between target seen now) :
    Leads proc known past target seen now := by
  induction first with
  | here => exact second
  | emit out rest _ _ _ _ _ _ ih => exact .emit out rest _ _ _ _ _ (ih second)
  | sample env next _ _ _ _ _ _ ih => exact .sample env next _ _ _ _ _ (ih second)
  | assign value rest _ _ _ _ _ _ ih => exact .assign value rest _ _ _ _ _ (ih second)
  | fetch value next _ _ _ _ _ same _ ih => exact .fetch value next _ _ _ _ _ same (ih second)
  | later rest _ _ _ _ _ _ ih => exact .later rest _ _ _ _ _ (ih second)
  | call op ans next _ _ _ _ _ _ ih => exact .call op ans next _ _ _ _ _ (ih second)

-- What a process meets, it still meets wherever it has got to.
theorem leads_meets (spec : Spec σ) (path : Leads proc known past target seen now) (meets : Meets spec proc known past) :
    Meets spec target seen now := by
  induction path with
  | here => exact meets
  | emit out rest _ _ _ _ _ _ ih => exact ih meets.2
  | sample env next _ _ _ _ _ _ ih => exact ih (meets env)
  | assign value rest _ _ _ _ _ _ ih => exact ih meets
  | fetch value next _ _ _ _ _ same _ ih => exact ih (meets value same)
  | later rest _ _ _ _ _ _ ih => exact ih meets
  | call op ans next _ _ _ _ _ _ ih => exact ih (meets.2 ans)

end Paths

section Outcomes

variable {σ : Signature} {ε α β : Type}

-- The continuations are arbitrary: which of them the promise reaches, and with
-- what, is the promise's own doing.
def Resolves (promise : Promise σ ε α) (known : Option σ.Cell) (past : History σ) (value : α) (seen : Option σ.Cell)
    (now : History σ) : Prop :=
  ∀ resolve reject, Leads (promise resolve reject) known past (resolve value) seen now

def Rejects (promise : Promise σ ε α) (known : Option σ.Cell) (past : History σ) (reason : ε) (seen : Option σ.Cell)
    (now : History σ) : Prop :=
  ∀ resolve reject, Leads (promise resolve reject) known past (reject reason) seen now

variable {first : Promise σ ε α} {next : α → Promise σ ε β} {known held seen : Option σ.Cell} {past between now : History σ}

theorem and_then_resolves {middle : α} {value : β} (done : Resolves first known past middle held between)
    (last : Resolves (next middle) none between value seen now) :
    Resolves (Promise.andThen first next) known past value seen now := by
  intro resolve reject
  exact leads_trans (done _ reject) (.later _ _ _ _ _ _ (last resolve reject))

theorem and_then_rejects_last {middle : α} {reason : ε} (done : Resolves first known past middle held between)
    (last : Rejects (next middle) none between reason seen now) :
    Rejects (Promise.andThen first next) known past reason seen now := by
  intro resolve reject
  exact leads_trans (done _ reject) (.later _ _ _ _ _ _ (last resolve reject))

theorem and_then_rejects_first {reason : ε} (failed : Rejects first known past reason seen now) :
    Rejects (Promise.andThen first next) known past reason seen now :=
  fun _ reject => failed _ reject

theorem finish_rejected {reason : ε} (failed : Rejects first known past reason seen now) (onResolved : α → Proc σ)
    (onRejected : ε → Proc σ) :
    Leads (Promise.finish first onResolved onRejected) known past (.later (onRejected reason)) seen now :=
  failed _ _

end Outcomes

inductive Stages (σ : Signature) (ε : Type) : Type → Type 1 where
  | one {α : Type} (stage : Promise σ ε α) : Stages σ ε α
  | more {α β : Type} (before : Stages σ ε α) (next : α → Promise σ ε β) : Stages σ ε β

namespace Stages

variable {σ : Signature} {ε : Type}

def promise {α : Type} : Stages σ ε α → Promise σ ε α
  | .one stage => stage
  | .more before next => Promise.andThen before.promise next

def count {α : Type} : Stages σ ε α → Nat
  | .one _ => 1
  | .more before _ => before.count + 1

def AllResolve {α : Type} : Stages σ ε α → Option σ.Cell → History σ → α → Option σ.Cell → History σ → Prop
  | .one stage, known, past, value, seen, now => Resolves stage known past value seen now
  | .more before next, known, past, value, seen, now =>
      ∃ middle held between, before.AllResolve known past middle held between ∧ Resolves (next middle) none between value seen now

-- Stages count from one; those before the k-th resolve, and each hands its value to the next in a turn of its own.
def FirstRejects {α : Type} :
    Stages σ ε α → Nat → Option σ.Cell → History σ → ε → Option σ.Cell → History σ → Prop
  | .one stage, k, known, past, reason, seen, now => k = 1 ∧ Rejects stage known past reason seen now
  | .more before next, k, known, past, reason, seen, now =>
      before.FirstRejects k known past reason seen now ∨
        k = before.count + 1 ∧ ∃ middle held between, before.AllResolve known past middle held between ∧
          Rejects (next middle) none between reason seen now

theorem resolves_promise {α : Type} (stages : Stages σ ε α) {known seen : Option σ.Cell} {past now : History σ} {value : α}
    (all : stages.AllResolve known past value seen now) : Resolves stages.promise known past value seen now := by
  induction stages generalizing known past seen now with
  | one stage => exact all
  | more before next ih =>
      obtain ⟨middle, held, between, done, last⟩ := all
      exact and_then_resolves (ih done) last

-- The history ends where the k-th stage rejected: nothing of the stages after it is in there.
theorem rejects_promise {α : Type} (stages : Stages σ ε α) {k : Nat} {known seen : Option σ.Cell} {past now : History σ}
    {reason : ε} (first : stages.FirstRejects k known past reason seen now) :
    Rejects stages.promise known past reason seen now := by
  induction stages generalizing known past seen now with
  | one stage => exact first.2
  | more before next ih =>
      rcases first with earlier | ⟨_, middle, held, between, done, last⟩
      · exact and_then_rejects_first (ih earlier)
      · exact and_then_rejects_last (resolves_promise before done) last

end Stages

end Resume
