set_option autoImplicit false

namespace Resume

structure Signature where
  Op : Type
  Ans : Op → Type
  Out : Type
  Env : Type
  Cell : Type

-- Callback style: between two turns (a reply, a deferred continuation) other
-- processes may move; everything inside a turn runs to completion.
inductive Proc (σ : Signature) where
  | halt
  | crash
  | emit (out : σ.Out) (rest : Proc σ)
  | sample (next : σ.Env → Proc σ)
  | assign (value : σ.Cell) (rest : Proc σ)
  | fetch (next : σ.Cell → Proc σ)
  | later (rest : Proc σ)
  | call (op : σ.Op) (next : σ.Ans op → Proc σ)

inductive Note (σ : Signature) where
  | asked (op : σ.Op) (ans : σ.Ans op)
  | said (out : σ.Out)

abbrev History (σ : Signature) := List (Note σ)

structure Settled (σ : Signature) where
  outs : List σ.Out
  cell : σ.Cell
  proc : Proc σ

-- One turn, run until the process waits again; outputs newest first.
def settle {σ : Signature} (env : Nat → σ.Env) : Proc σ → Nat → σ.Cell → Settled σ
  | .halt, _, cell => ⟨[], cell, .halt⟩
  | .crash, _, cell => ⟨[], cell, .crash⟩
  | .emit out rest, n, cell =>
      let settled := settle env rest n cell
      { settled with outs := settled.outs ++ [out] }
  | .sample next, n, cell => settle env (next (env n)) (n + 1) cell
  | .assign value rest, n, _ => settle env rest n value
  | .fetch next, n, cell => settle env (next cell) n cell
  | .later rest, _, cell => ⟨[], cell, .later rest⟩
  | .call op next, _, cell => ⟨[], cell, .call op next⟩

abbrev Promise (σ : Signature) (ε α : Type) := (α → Proc σ) → (ε → Proc σ) → Proc σ

def Promise.andThen {σ : Signature} {ε α β : Type} (first : Promise σ ε α) (next : α → Promise σ ε β) : Promise σ ε β :=
  fun resolve reject => first (fun value => .later (next value resolve reject)) reject

def Promise.finish {σ : Signature} {ε α : Type} (promise : Promise σ ε α) (onResolved : α → Proc σ)
    (onRejected : ε → Proc σ) : Proc σ :=
  promise (fun value => .later (onResolved value)) (fun reason => .later (onRejected reason))

structure Spec (σ : Signature) where
  asks : History σ → σ.Op → Prop
  tells : History σ → σ.Out → Prop
  ends : History σ → Prop
  breaks : History σ → Prop

-- The shared variable is known only after an assignment of the same turn.
def Meets {σ : Signature} (spec : Spec σ) : Proc σ → Option σ.Cell → History σ → Prop
  | .halt, _, past => spec.ends past
  | .crash, _, past => spec.breaks past
  | .emit out rest, known, past => spec.tells past out ∧ Meets spec rest known (.said out :: past)
  | .sample next, known, past => ∀ env, Meets spec (next env) known past
  | .assign value rest, _, past => Meets spec rest (some value) past
  | .fetch next, known, past => ∀ value, (∀ seen, known = some seen → value = seen) → Meets spec (next value) known past
  | .later rest, _, past => Meets spec rest none past
  | .call op next, _, past => spec.asks past op ∧ ∀ ans, Meets spec (next ans) none (.asked op ans :: past)

section Rules

variable {σ : Signature} (spec : Spec σ)

@[simp] theorem meets_later (rest : Proc σ) (known : Option σ.Cell) (past : History σ) :
    Meets spec (.later rest) known past ↔ Meets spec rest none past := Iff.rfl

@[simp] theorem meets_assign_fetch (value : σ.Cell) (next : σ.Cell → Proc σ) (known : Option σ.Cell) (past : History σ) :
    Meets spec (.assign value (.fetch next)) known past ↔ Meets spec (next value) (some value) past := by
  constructor
  · intro meets
    exact meets value (by simp)
  · intro meets seen same
    rw [same value rfl]
    exact meets

end Rules

theorem meets_any {σ : Signature} (spec : Spec σ) (asks : ∀ h op, spec.asks h op) (tells : ∀ h out, spec.tells h out)
    (ends : ∀ h, spec.ends h) (breaks : ∀ h, spec.breaks h) (proc : Proc σ) (known : Option σ.Cell) (past : History σ) :
    Meets spec proc known past := by
  induction proc generalizing known past with
  | halt => exact ends past
  | crash => exact breaks past
  | emit out rest ih => exact ⟨tells past out, ih known _⟩
  | sample next ih => exact fun env => ih env known past
  | assign value rest ih => exact ih (some value) past
  | fetch next ih => exact fun value _ => ih value known past
  | later rest ih => exact ih none past
  | call op next ih => exact ⟨asks past op, fun ans => ih ans none _⟩

theorem meets_mono {σ : Signature} (strong weak : Spec σ) (asks : ∀ h op, strong.asks h op → weak.asks h op)
    (tells : ∀ h out, strong.tells h out → weak.tells h out) (ends : ∀ h, strong.ends h → weak.ends h)
    (breaks : ∀ h, strong.breaks h → weak.breaks h) (proc : Proc σ) (known : Option σ.Cell) (past : History σ)
    (meets : Meets strong proc known past) : Meets weak proc known past := by
  induction proc generalizing known past with
  | halt => exact ends past meets
  | crash => exact breaks past meets
  | emit out rest ih => exact ⟨tells past out meets.1, ih known _ meets.2⟩
  | sample next ih => exact fun env => ih env known past (meets env)
  | assign value rest ih => exact ih (some value) past meets
  | fetch next ih => exact fun value seen => ih value known past (meets value seen)
  | later rest ih => exact ih none past meets
  | call op next ih => exact ⟨asks past op meets.1, fun ans => ih ans none _ (meets.2 ans)⟩

def Spec.and {σ : Signature} (first second : Spec σ) : Spec σ where
  asks := fun h op => first.asks h op ∧ second.asks h op
  tells := fun h out => first.tells h out ∧ second.tells h out
  ends := fun h => first.ends h ∧ second.ends h
  breaks := fun h => first.breaks h ∧ second.breaks h

theorem meets_and {σ : Signature} (first second : Spec σ) (proc : Proc σ) (known : Option σ.Cell) (past : History σ)
    (left : Meets first proc known past) (right : Meets second proc known past) : Meets (first.and second) proc known past := by
  induction proc generalizing known past with
  | halt => exact ⟨left, right⟩
  | crash => exact ⟨left, right⟩
  | emit out rest ih => exact ⟨⟨left.1, right.1⟩, ih known _ left.2 right.2⟩
  | sample next ih => exact fun env => ih env known past (left env) (right env)
  | assign value rest ih => exact ih (some value) past left right
  | fetch next ih => exact fun value seen => ih value known past (left value seen) (right value seen)
  | later rest ih => exact ih none past left right
  | call op next ih => exact ⟨⟨left.1, right.1⟩, fun ans => ih ans none _ (left.2 ans) (right.2 ans)⟩

theorem split_snoc {α : Type} (front newer older : List α) (last mark : α) (split : front ++ [last] = newer ++ mark :: older) :
    older = [] ∧ mark = last ∧ front = newer ∨ ∃ rest, older = rest ++ [last] ∧ front = newer ++ mark :: rest := by
  rcases List.eq_nil_or_concat older with rfl | ⟨rest, end_, rfl⟩
  · obtain ⟨same, marks⟩ := List.append_inj' split rfl
    exact .inl ⟨rfl, by simpa using marks.symm, same⟩
  · rw [List.concat_eq_append, ← List.cons_append, ← List.append_assoc] at split
    obtain ⟨same, ends⟩ := List.append_inj' split rfl
    exact .inr ⟨rest, by simpa [List.concat_eq_append] using ends.symm, same⟩

theorem settle_meets {σ : Signature} (spec : Spec σ) (env : Nat → σ.Env) (proc : Proc σ) (n : Nat) (cell : σ.Cell)
    (known : Option σ.Cell) (past : History σ) (faithful : ∀ seen, known = some seen → cell = seen)
    (meets : Meets spec proc known past) :
    Meets spec (settle env proc n cell).proc none ((settle env proc n cell).outs.map Note.said ++ past) ∧
      ∀ newer out older, (settle env proc n cell).outs = newer ++ out :: older →
        spec.tells (older.map Note.said ++ past) out := by
  induction proc generalizing n cell known past with
  | halt => exact ⟨meets, by simp [settle]⟩
  | crash => exact ⟨meets, by simp [settle]⟩
  | emit out rest ih =>
      obtain ⟨allowed, restMeets⟩ := meets
      obtain ⟨after, sound⟩ := ih n cell known (.said out :: past) faithful restMeets
      refine ⟨by simpa [settle] using after, ?_⟩
      intro newer said older split
      rcases split_snoc _ newer older out said split with ⟨rfl, rfl, _⟩ | ⟨front, rfl, earlier⟩
      · exact allowed
      · simpa using sound newer said front earlier
  | sample next ih => exact ih (env n) (n + 1) cell known past faithful (meets (env n))
  | assign value rest ih => exact ih n value (some value) past (by simp) meets
  | fetch next ih => exact ih cell n cell known past faithful (meets cell faithful)
  | later rest ih => exact ⟨meets, by simp [settle]⟩
  | call op next ih => exact ⟨meets, by simp [settle]⟩

end Resume
