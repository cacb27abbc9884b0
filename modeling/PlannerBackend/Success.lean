import PlannerBackend.Delivery
import PlannerBackend.Gate

set_option autoImplicit false

namespace Planner

open Docs Resume

-- The writes of a request that went through, each with the number of records
-- it inserted, matched or removed.
def writes (h : History sig) : List Nat :=
  h.filterMap fun
    | .asked op ans => if wrote op ans then some (affectedBy op ans) else none
    | .said _ => none

theorem clean_writes (h : History sig) (clean : Clean h) : writes h = [] := by
  apply List.filterMap_eq_nil_iff.mpr
  intro note member
  have idle := (clean note member).2.2
  cases note with
  | said out => rfl
  | asked op ans =>
      change wrote op ans = false at idle
      simp [idle]

theorem mem_writes (op : Op) (ans : Answer op) (h : History sig) (member : .asked op ans ∈ h) (went : wrote op ans = true) :
    affectedBy op ans ∈ writes h :=
  List.mem_filterMap.mpr ⟨_, member, by simp [went]⟩

@[simp] theorem writes_said (out : Out) (h : History sig) : writes (.said out :: h) = writes h := rfl

theorem writes_asked (op : Op) (ans : Answer op) (h : History sig) (went : wrote op ans = true) :
    writes (.asked op ans :: h) = affectedBy op ans :: writes h := by
  simp [writes, went]

theorem one_write_writes (h : History sig) (one : OneWrite h) : (writes h).length = 1 := by
  cases one with
  | last op ans rest went clean =>
      rw [writes_asked op ans rest went, clean_writes rest clean]
      rfl
  | mailed mail op ans rest went clean =>
      rw [writes_said, writes_asked op ans rest went, clean_writes rest clean]
      rfl

-- A document of the collection answers to the value.
def Selected {F : Type} {key : Option F} (pkg : Packages) (held : Collection F key) (path : F) (value : Js.Value) : Prop :=
  ∃ condition, pkg.castQuery value = .ok condition ∧ ∃ doc ∈ held.docs, condition (doc.row path) = true

-- The record that the path names is there, and the body changes something in
-- it. The other endpoints report no success without their record.
def Finds (pkg : Packages) (http : HttpRequest) (store : Store) : Endpoint → Prop
  | .editUser =>
      (∃ effect, pkg.userChange http.body = .apply effect) ∧
        Selected pkg store.users .userId ((requestOf http).param "userId")
  | .updateMeeting =>
      (∃ effect, pkg.meetingChange http.body = .apply effect) ∧
        Selected pkg store.meetings .meetingId ((requestOf http).param "meetingId")
  | .recoverForgotPassword => Selected pkg store.users .email ((requestOf http).param "email")
  | _ => True

theorem asked_finds (pkg : Packages) (http : HttpRequest) (h : History sig) (op : Op) (asks : Asks pkg http h op)
    (ans : Answer op) (went : wrote op ans = true) (endpoint : Endpoint)
    (route : endpointOf http = some endpoint) (store : Store) :
    MatchedBy pkg store op ↔ Finds pkg http store endpoint := by
  cases asks with
  | token | account | password | session | listUsers | showUser | recover | findMeeting | listMeetings => cases went
  | signUp _ there | grant _ _ _ there | renew _ _ _ _ there | logOut _ _ there | removeUser _ _ there | addMeeting _ _ _ _ there
  | removeMeeting _ _ _ there =>
      cases route.symm.trans there
      exact Iff.rfl
  | editUser _ _ there | updateMeeting _ _ _ there =>
      cases route.symm.trans there
      exact Iff.rfl
  | reset doc password salt there =>
      cases route.symm.trans there
      exact and_iff_right ⟨_, rfl⟩

theorem success_is_one_record_iff_matched (pkg : Packages) (store : Store) (cell : Body) (labels : List (Label (server pkg)))
    (world : World (server pkg)) (reached : world = run labels (World.initial (server pkg) store cell)) (i : Nat)
    (http : HttpRequest) (here : (jobs world)[i]? = some http) (endpoint : Endpoint) (route : endpointOf http = some endpoint)
    (mutates : reads endpoint = false) (status : Nat) (response : Response)
    (answered : (i, .said (.send status (.api response))) ∈ world.trace) (fine : response.error = false)
    (done : response.status = 200) :
    (writes (view i world.trace)).length = 1 ∧
    ∀ before choice env after job op next start, start = run before (World.initial (server pkg) store cell) →
      labels = before ++ .resume i choice env :: after → start.tasks[i]? = some ⟨job, .call op next⟩ →
      wrote op (execute pkg op choice start.store).1 = true →
      (∃ n, writes (view i world.trace) = [n] ∧ Affects start.store (step start (.resume i choice env)).store n op) ∧
      (writes (view i world.trace) = [1] ↔ MatchedBy pkg start.store op) ∧
      (writes (view i world.trace) = [1] ↔ Finds pkg http start.store endpoint) := by
  subst reached
  obtain ⟨past, shape, _, reply⟩ := answer_reply pkg labels store cell i http status _ here answered
  have effect := reply_success pkg http past response reply fine done
  have single : (writes (view i (run labels (World.initial (server pkg) store cell)).trace)).length = 1 := by
    rw [shape, writes_said]
    obtain ⟨other, sameRoute, ⟨reading, _⟩ | ⟨_, one⟩⟩ := effect_shape pkg http past response effect
    · cases route.symm.trans sameRoute
      rw [mutates] at reading
      cases reading
    · exact one_write_writes past one
  refine ⟨single, ?_⟩
  intro before choice env after job op next start isStart split standing went
  subst isStart
  have noted := run_records before after _ i job op next choice env standing
  rw [← split, ← mem_view] at noted
  have listed := mem_writes op _ _ noted went
  obtain ⟨n, only⟩ := List.length_eq_one_iff.mp single
  have meets := (run_tracked (script pkg) (app_script pkg) before _ (initial_tracked _ store cell)).meets i _ standing
  have known := jobs_lookup _ i _ standing
  rw [split, run_append, run_jobs, List.getElem?_append_left (List.getElem?_eq_some_iff.mp known).1, known] at here
  cases here
  have finds := asked_finds pkg job _ op meets.1 _ went endpoint route (run before (World.initial (server pkg) store cell)).store
  rw [only] at listed ⊢
  cases List.mem_singleton.mp listed
  have matched : [affectedBy op (execute pkg op choice (run before (World.initial (server pkg) store cell)).store).1] = [1] ↔
      MatchedBy pkg (run before (World.initial (server pkg) store cell)).store op := by
    rw [← execute_matched pkg op choice _ went]
    simp
  refine ⟨⟨_, rfl, ?_⟩, matched, matched.trans finds⟩
  rw [step_answered _ i job op next choice env standing]
  exact execute_affects pkg op choice _

-- The requests that were answered with success.
def successes (trace : Trace sig) : List Nat :=
  trace.filterMap fun
    | (i, .said (.send _ (.api response))) => if response.error = false ∧ response.status = 200 then some i else none
    | _ => none

theorem mem_successes (trace : Trace sig) (i : Nat) (member : i ∈ successes trace) :
    ∃ status response, (i, .said (.send status (.api response))) ∈ trace ∧ response.error = false ∧ response.status = 200 := by
  obtain ⟨⟨j, note⟩, inTrace, eq⟩ := List.mem_filterMap.mp member
  split at eq
  · next status response same =>
      cases same
      split at eq
      · next fine =>
          cases eq
          exact ⟨status, response, inTrace, fine⟩
      · cases eq
  · cases eq

def Reference.editRequest (userId : String) : HttpRequest :=
  Reference.withToken .put ["api", "v1", "user", userId, "edit"] (Reference.tokenAt 5000) (.obj [("firstName", .str "x")])

def Reference.editing (userId : String) : List (Label (server Reference.packages)) :=
  Reference.logIn 5000 ++ .start (Reference.editRequest userId) (Reference.ambient 6000) :: Reference.turns 1 1 6000

def Reference.edited (userId : String) : List (Label (server Reference.packages)) :=
  Reference.editing userId ++ [.resume 1 (.pick 0) (Reference.ambient 6000)]

def writesNext (pkg : Packages) (store : Store) : Process → Bool
  | .call op _ => wrote op (execute pkg op (.pick 0) store).1
  | _ => false

theorem reference_edit_is_one_record :
    writes (view 1 (run (Reference.edited "u1") Reference.initial).trace) = [1] ∧
      Finds Reference.packages (Reference.editRequest "u1") (run (Reference.editing "u1") Reference.initial).store .editUser ∧
      ∃ job op next, (run (Reference.editing "u1") Reference.initial).tasks[1]? = some ⟨job, .call op next⟩ ∧
        MatchedBy Reference.packages (run (Reference.editing "u1") Reference.initial).store op := by
  have facts : ((run (Reference.editing "u1") Reference.initial).tasks[1]?.map fun task =>
        writesNext Reference.packages (run (Reference.editing "u1") Reference.initial).store task.proc) = some true ∧
      1 ∈ successes (run (Reference.edited "u1") Reference.initial).trace ∧
      writes (view 1 (run (Reference.edited "u1") Reference.initial).trace) = [1] := by decide +kernel
  obtain ⟨⟨job, proc⟩, there, went⟩ := Option.map_eq_some_iff.mp facts.1
  obtain ⟨status, response, answered, fine⟩ := mem_successes (run (Reference.edited "u1") Reference.initial).trace 1 facts.2.1
  cases proc with
  | call op next =>
      obtain ⟨_, matched, finds⟩ :=
        (success_is_one_record_iff_matched Reference.packages Reference.oneUser (.thrown "") (Reference.edited "u1") _ rfl 1
        (Reference.editRequest "u1") (by rw [run_jobs]; rfl) .editUser (by decide +kernel) rfl status response answered
        fine.1 fine.2).2 (Reference.editing "u1") _ _ [] job op next _ rfl rfl there went
      exact ⟨facts.2.2, finds.mp facts.2.2, job, op, next, there, matched.mp facts.2.2⟩
  | _ => cases went

theorem edit_of_nobody_succeeds :
    endpointOf (Reference.editRequest "nobody") = some .editUser ∧
    1 ∈ successes (run (Reference.edited "nobody") Reference.initial).trace ∧
    writes (view 1 (run (Reference.edited "nobody") Reference.initial).trace) = [0] := by
  decide +kernel

def Consistent (response : Response) : Prop :=
  (response.error = true ↔ response.status ≠ 200) ∧ (response.error = true → response.data = .null)

-- The removal of deleteUserById that found no user.
def unremoved (http : HttpRequest) : Note sig :=
  .asked (.users (.findOneAndRemove .userId ((requestOf http).param "userId"))) (.ok none)

def removing (http : HttpRequest) : Spec sig where
  asks := fun _ _ => True
  tells := fun h out => endpointOf http = some .deleteUserById → ∀ status response, out = .send status (.api response) →
    (response.error = false ∧ response.status ≠ 200 ↔ unremoved http ∈ h)
  ends := fun _ => True
  breaks := fun _ => True

section Removal

variable (pkg : Packages) (http : HttpRequest)

theorem removing_send (response : Response) (h : History sig) (known : Option Body)
    (reports : response.error = false ∧ response.status ≠ 200 ↔ unremoved http ∈ h) :
    Meets (removing http) (send response) known h := by
  refine ⟨?_, trivial⟩
  intro _ status other same
  cases same
  exact reports

theorem removing_refuse (message : String) (status : Nat) (h : History sig) (known : Option Body) (before : unremoved http ∉ h) :
    Meets (removing http) (send (generate true message status .null)) known h :=
  removing_send http _ h known (by simp [generate, before])

theorem removing_delete (h : History sig) (before : unremoved http ∉ h) :
    Meets (removing http) (deleteUserById (requestOf http)) none h := by
  refine ⟨trivial, ?_⟩
  intro ans
  cases ans with
  | error message => exact removing_refuse http _ _ _ none (by simpa [unremoved] using before)
  | ok found =>
      apply meets_when_found _ none _ found documentValue _ _ is_empty_document
      · intro absent
        subst absent
        exact removing_send http _ _ none (by simp [generate, unremoved])
      · intro doc here
        subst here
        exact removing_send http _ _ none (by simpa [generate, unremoved] using before)

theorem app_removing : Meets (removing http) (app pkg http) none [] := by
  by_cases route : endpointOf http = some .deleteUserById
  · simp only [app, route, handle, guarded, if_true, isAuthorized]
    split
    · refine ⟨trivial, ?_⟩
      intro ans
      cases ans with
      | error message => exact removing_refuse http _ _ _ none (by simp [unremoved])
      | ok found =>
          apply meets_when_found _ none _ found documentValue _ _ is_empty_document
          · intro absent
            exact removing_refuse http _ _ _ none (by simp [unremoved])
          · intro auth _ at_
            dsimp only
            split
            · exact removing_refuse http _ _ _ none (by simp [unremoved])
            · refine ⟨?_, removing_delete http _ (by simp [unremoved])⟩
              intro _ status response same
              cases same
    · exact removing_refuse http _ _ _ none (by simp)
  · exact meets_any _ (fun _ _ => trivial) (fun _ _ other => absurd other route) (fun _ => trivial) (fun _ => trivial) _ _ _

end Removal

theorem answers_consistent_unless_nobody_removed (pkg : Packages) (store : Store) (cell : Body)
    (labels : List (Label (server pkg))) (world : World (server pkg))
    (reached : world = run labels (World.initial (server pkg) store cell)) (i : Nat) (http : HttpRequest)
    (here : (jobs world)[i]? = some http) (status : Nat) (body : Body) (answered : (i, .said (.send status body)) ∈ world.trace) :
    ∃ response, body = .api response ∧
      (Consistent response ↔ ¬ (endpointOf http = some .deleteUserById ∧ (i, unremoved http) ∈ world.trace)) := by
  subst reached
  obtain ⟨past, shape, _, reply⟩ := answer_reply pkg labels store cell i http status body here answered
  obtain ⟨job, sameJob, told⟩ := lawful_viewed (m := server pkg) removing _ _
    (run_lawful removing (app_removing pkg) labels store cell) i [] _ past shape
  cases here.symm.trans sameJob
  have noted : (i, unremoved http) ∈ (run labels (World.initial (server pkg) store cell)).trace ↔ unremoved http ∈ past := by
    rw [← mem_view, shape]
    simp [unremoved]
  rw [noted]
  cases reply with
  | refused response bad clean =>
      refine ⟨response, rfl, ⟨fun _ both => ?_, fun _ => ⟨⟨fun _ => bad.2.1, fun _ => bad.1⟩, fun _ => bad.2.2⟩⟩⟩
      have misreported := (told both.1 status response rfl).mpr both.2
      rw [bad.1] at misreported
      cases misreported.1
  | nobody route clean =>
      refine ⟨_, rfl, ⟨fun consistent => absurd (consistent.1.mpr (by decide)) (by decide), ?_⟩⟩
      intro apart
      exact absurd ⟨route, (told route status _ rfl).mp ⟨rfl, by decide⟩⟩ apart
  | done response effect =>
      obtain ⟨fine, done⟩ := effect_fine pkg http past response effect
      refine ⟨response, rfl, ⟨fun _ both => ?_, fun _ => ⟨⟨fun bad => ?_, fun bad => absurd done bad⟩, fun bad => ?_⟩⟩⟩
      · exact ((told both.1 status response rfl).mpr both.2).2 done
      · rw [fine] at bad
        cases bad
      · rw [fine] at bad
        cases bad

def Reference.deleteNobody : List (Label (server Reference.packages)) :=
  Reference.logIn 5000 ++
    .start (Reference.withToken .post ["api", "v1", "user", "nobody", "delete"] (Reference.tokenAt 5000) .undefined)
    (Reference.ambient 6000) :: Reference.turns 1 2 6000

theorem reference_login_answer_consistent :
    ∃ status response, (0, .said (.send status (.api response))) ∈ (run Reference.deleteNobody Reference.initial).trace ∧
    Consistent response := by
  obtain ⟨status, response, answered, _⟩ :=
      mem_successes (run Reference.deleteNobody Reference.initial).trace 0 (by decide +kernel)
  obtain ⟨_, same, consistent⟩ := answers_consistent_unless_nobody_removed Reference.packages Reference.oneUser (.thrown "")
    Reference.deleteNobody _ rfl 0 Reference.logInRequest (by rw [run_jobs]; rfl) status _ answered
  cases same
  refine ⟨status, response, answered, consistent.mpr ?_⟩
  intro both
  exact absurd both.1 (by decide +kernel)

theorem delete_of_nobody_is_inconsistent :
    (1, 200, false, "No User Found", 404) ∈ plainAnswers (run Reference.deleteNobody Reference.initial).trace := by
  decide +kernel

end Planner
