set_option autoImplicit false

namespace Layers

variable {Req Err Res : Type}

-- A layer answers, calls next(), or calls next with an error.
inductive Outcome (Req Err Res : Type) where
  | answer (res : Res)
  | next (req : Req)
  | fail (err : Err) (req : Req)

def Outcome.follow (later : Option Err → Req → Res) : Outcome Req Err Res → Res
  | .answer res => res
  | .next req => later none req
  | .fail err req => later (some err) req

-- A handler of four arguments sees errors only, any other handler requests
-- only. A route is tried first: it does not fit, or fits and runs, or the
-- trial itself fails.
inductive Layer (Req Err Res : Type) where
  | plain (handle : Req → Outcome Req Err Res)
  | onError (handle : Err → Req → Outcome Req Err Res)
  | route (trial : Req → Except Err (Option (Outcome Req Err Res)))

def dispatch (done : Option Err → Req → Res) : List (Layer Req Err Res) → Option Err → Req → Res
  | [], err, req => done err req
  | .plain handle :: rest, none, req => (handle req).follow (dispatch done rest)
  | .onError handle :: rest, some err, req => (handle err req).follow (dispatch done rest)
  | .route trial :: rest, none, req =>
      match trial req with
      | .error err => dispatch done rest (some err) req
      | .ok none => dispatch done rest none req
      | .ok (some outcome) => outcome.follow (dispatch done rest)
  | .plain _ :: rest, some err, req => dispatch done rest (some err) req
  | .onError _ :: rest, none, req => dispatch done rest none req
  | .route _ :: rest, some err, req => dispatch done rest (some err) req

def takesErrors : Layer Req Err Res → Bool
  | .onError _ => true
  | _ => false

section Rules

variable (done : Option Err → Req → Res)

theorem dispatch_next (handle : Req → Outcome Req Err Res) (rest : List (Layer Req Err Res)) (req changed : Req)
    (passed : handle req = .next changed) :
    dispatch done (.plain handle :: rest) none req = dispatch done rest none changed := by
  simp only [dispatch, passed, Outcome.follow]

theorem dispatch_fail (handle : Req → Outcome Req Err Res) (rest : List (Layer Req Err Res)) (req changed : Req) (err : Err)
    (failed : handle req = .fail err changed) :
    dispatch done (.plain handle :: rest) none req = dispatch done rest (some err) changed := by
  simp only [dispatch, failed, Outcome.follow]

-- An error passes every layer that is not meant for it.
theorem dispatch_error (layers rest : List (Layer Req Err Res)) (passing : ∀ layer ∈ layers, takesErrors layer = false)
    (err : Err) (req : Req) :
    dispatch done (layers ++ rest) (some err) req = dispatch done rest (some err) req := by
  induction layers with
  | nil => rfl
  | cons layer more ih =>
      have later := ih fun other member => passing other (List.mem_cons_of_mem _ member)
      cases layer with
      | plain | route => exact later
      | onError handle => cases passing _ List.mem_cons_self

-- Routes in a row: the first that fits answers, and the first whose trial
-- fails stops the rest.
def firstOf {T : Type} (attempt : T → Except Err (Option Res)) : List T → Except Err (Option Res)
  | [] => .ok none
  | entry :: more =>
      match attempt entry with
      | .error err => .error err
      | .ok (some res) => .ok (some res)
      | .ok none => firstOf attempt more

def answering (attempt : Req → Except Err (Option Res)) : Layer Req Err Res :=
  .route fun req => (attempt req).map (Option.map .answer)

theorem dispatch_routes {T : Type} (attempt : T → Req → Except Err (Option Res)) (table : List T)
    (rest : List (Layer Req Err Res)) (passing : ∀ layer ∈ rest, takesErrors layer = false) (req : Req) :
    dispatch done (table.map (fun entry => answering (attempt entry)) ++ rest) none req =
      match firstOf (fun entry => attempt entry req) table with
      | .error err => done (some err) req
      | .ok (some res) => res
      | .ok none => dispatch done rest none req := by
  induction table with
  | nil => rfl
  | cons entry more ih =>
      rw [List.map_cons, List.cons_append, firstOf]
      cases tried : attempt entry req with
      | error err =>
          have skipped : ∀ layer ∈ more.map (fun entry => answering (attempt entry)) ++ rest, takesErrors layer = false := by
            simp only [List.mem_append, List.mem_map]
            rintro layer (⟨other, _, rfl⟩ | member)
            · rfl
            · exact passing layer member
          have left := dispatch_error done _ [] skipped err req
          rw [List.append_nil] at left
          simpa only [dispatch, answering, tried, Except.map] using left
      | ok found =>
          cases found with
          | none => simpa only [dispatch, answering, tried, Except.map, Option.map_none] using ih
          | some res => simp only [dispatch, answering, tried, Except.map, Option.map_some, Outcome.follow]

end Rules

section First

variable {T : Type} (attempt : T → Except Err (Option Res))

theorem first_of_none (table : List T) (unfit : ∀ entry ∈ table, attempt entry = .ok none) :
    firstOf attempt table = .ok none := by
  induction table with
  | nil => rfl
  | cons entry more ih =>
      rw [firstOf, unfit entry List.mem_cons_self]
      exact ih fun other member => unfit other (List.mem_cons_of_mem _ member)

-- Where one entry at most is not passed over, it decides.
theorem first_of_only (table : List T) (only : T) (member : only ∈ table)
    (others : ∀ entry ∈ table, entry ≠ only → attempt entry = .ok none) :
    firstOf attempt table = attempt only := by
  induction table with
  | nil => cases member
  | cons entry more ih =>
      have later := fun other inside => others other (List.mem_cons_of_mem _ inside)
      by_cases same : entry = only
      · subst same
        rw [firstOf]
        cases tried : attempt entry with
        | error err => rfl
        | ok found =>
            cases found with
            | some res => rfl
            | none =>
                refine first_of_none attempt more ?_
                intro other inside
                by_cases again : other = entry
                · rw [again, tried]
                · exact later other inside again
      · have inside := (List.mem_cons.mp member).resolve_left (Ne.symm same)
        rw [firstOf, others entry List.mem_cons_self same]
        exact ih inside later

end First

end Layers
