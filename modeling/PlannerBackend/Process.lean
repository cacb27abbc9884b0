import PlannerBackend.Invariant

set_option autoImplicit false

namespace Resume

variable {σ : Signature} {m : Machine σ}

def Proc.broken : Proc σ → Bool
  | .crash => true
  | _ => false

-- All tasks share one process: an exception that nobody catches in one of
-- them takes the others down with it.
def down (world : World m) : Bool := world.tasks.any fun task => task.proc.broken

-- The part of a schedule that the process lives to see.
def live : List (Label m) → World m → World m
  | [], world => world
  | label :: rest, world => if down world then world else live rest (step world label)

theorem live_down (labels : List (Label m)) (world : World m) (isDown : down world = true) : live labels world = world := by
  cases labels with
  | nil => rfl
  | cons label rest => simp only [live, isDown, if_true]

theorem live_up (label : Label m) (rest : List (Label m)) (world : World m) (isUp : down world = false) :
    live (label :: rest) world = live rest (step world label) := by
  simp only [live, isUp, Bool.false_eq_true, if_false]

-- Whatever holds of all runs holds of all lives.
theorem live_run (labels : List (Label m)) (world : World m) :
    ∃ done rest, labels = done ++ rest ∧ live labels world = run done world ∧ (rest ≠ [] → down (run done world) = true) := by
  induction labels generalizing world with
  | nil => exact ⟨[], [], rfl, rfl, fun more => absurd rfl more⟩
  | cons label rest ih =>
      cases isDown : down world with
      | true => exact ⟨[], label :: rest, rfl, live_down _ world isDown, fun _ => isDown⟩
      | false =>
          obtain ⟨done, left, rfl, same, ended⟩ := ih (step world label)
          exact ⟨label :: done, left, rfl, (live_up label _ world isDown).trans same, ended⟩

theorem down_broken (world : World m) (isDown : down world = true) :
    ∃ (i : Nat) (job : m.Job), world.tasks[i]? = some ⟨job, .crash⟩ := by
  obtain ⟨⟨job, proc⟩, member, broken⟩ := List.any_eq_true.mp isDown
  obtain ⟨i, here⟩ := List.getElem?_of_mem member
  cases proc with
  | crash => exact ⟨i, job, here⟩
  | _ => cases broken

theorem up_unbroken (world : World m) (isUp : down world = false) (task : Task m) (member : task ∈ world.tasks) :
    task.proc.broken = false := by
  simpa using List.any_eq_false.mp isUp task member

end Resume
