set_option autoImplicit false

namespace Pipeline

variable {S C R α : Type}

-- One client's commands in the order they were sent: some are answered and
-- their reply is on its way, the others wait for the store.
inductive Item (C R : Type) where
  | answered (reply : R)
  | waiting (command : C)

def line (replies : List R) (sent : List C) : List (Item C R) := replies.map .answered ++ sent.map .waiting

theorem line_waiting (replies : List R) (sent : List C) (command : C) :
    line replies (command :: sent) = replies.map .answered ++ .waiting command :: sent.map .waiting := rfl

theorem line_answered (replies : List R) (sent : List C) (reply : R) :
    line (replies ++ [reply]) sent = replies.map .answered ++ .answered reply :: sent.map .waiting := by
  simp [line]

theorem line_send (replies : List R) (sent : List C) (command : C) :
    line replies (sent ++ [command]) = line replies sent ++ [.waiting command] := by
  simp [line]

-- The store once every command that waits has been carried out.
def eventual (apply : S → C → S) (store : S) (sent : List C) : S := sent.foldl apply store

theorem eventual_send (apply : S → C → S) (store : S) (sent : List C) (command : C) :
    eventual apply store (sent ++ [command]) = apply (eventual apply store sent) command := by
  simp [eventual]

theorem eventual_unchanged (apply : S → C → S) (store : S) (sent : List C) (idle : ∀ command ∈ sent, ∀ s, apply s command = s) :
    eventual apply store sent = store := by
  induction sent generalizing store with
  | nil => rfl
  | cons command rest ih =>
      change eventual apply (apply store command) rest = store
      rw [idle command List.mem_cons_self]
      exact ih store fun other member => idle other (List.mem_cons_of_mem _ member)

-- Somewhere in the list stands a trigger, and nothing but fresh entries behind it.
def Ends (trigger fresh : α → Prop) : List α → Prop
  | [] => False
  | x :: rest => (trigger x ∧ ∀ y ∈ rest, fresh y) ∨ Ends trigger fresh rest

section Ends

variable (trigger fresh : α → Prop)

theorem ends_append (xs : List α) (x : α) (new : fresh x) (ends : Ends trigger fresh xs) : Ends trigger fresh (xs ++ [x]) := by
  induction xs with
  | nil => cases ends
  | cons y rest ih =>
      rcases ends with ⟨here, behind⟩ | later
      · refine .inl ⟨here, ?_⟩
        intro z member
        rcases List.mem_append.mp member with old | last
        · exact behind z old
        · exact List.mem_singleton.mp last ▸ new
      · exact .inr (ih later)

theorem ends_last (xs : List α) (x : α) (here : trigger x) : Ends trigger fresh (xs ++ [x]) := by
  induction xs with
  | nil => exact .inl ⟨here, by simp⟩
  | cons y rest ih => exact .inr ih

-- One entry changes in its place.
theorem ends_replace (xs ys : List α) (x next : α) (triggers : (∀ y ∈ ys, fresh y) → trigger x → trigger next)
    (refreshes : (∀ y ∈ ys, fresh y) → fresh x → fresh next) (ends : Ends trigger fresh (xs ++ x :: ys)) :
    Ends trigger fresh (xs ++ next :: ys) := by
  induction xs with
  | nil =>
      rcases ends with ⟨here, behind⟩ | later
      · exact .inl ⟨triggers behind here, behind⟩
      · exact .inr later
  | cons y rest ih =>
      rcases ends with ⟨here, behind⟩ | later
      · refine .inl ⟨here, ?_⟩
        have old : ∀ z ∈ ys, fresh z := fun z member => behind z (by simp [member])
        intro z member
        rcases List.mem_append.mp member with inRest | member
        · exact behind z (by simp [inRest])
        · rcases List.mem_cons.mp member with rfl | inTail
          · exact refreshes old (behind x (by simp))
          · exact old z inTail
      · exact .inr (ih later)

end Ends

end Pipeline
