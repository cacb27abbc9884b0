import PlannerBackend.Accounts
import PlannerBackend.Writes

set_option autoImplicit false

namespace Planner

open Docs Resume

def storedEmail (row : Row UserField) : Option Scalar := row .email

def noUserWith (email : String) : Note sig := .asked (.users (.findOne .email (.str email))) (.ok none)

-- The request has found no user with this email and is about to save one.
def Registering (email : String) (h : History sig) : Prop := ∃ rest, h = noUserWith email :: rest

def claimed (trace : Trace sig) (i : Nat) (stored : Option Scalar) : Prop :=
  ∃ email, Registering email (view i trace) ∧ stored = some (.str (toLowerCase email))

-- At the look-up of an email: one that is not in lower case is not stored in
-- lower case, and no other request is about to save the same lower case.
def unclaimed (pkg : Packages) : Guard (server pkg) := fun trace store i op =>
  ∀ email, op = .users (.findOne .email (.str email)) →
    (toLowerCase email ≠ email → ∀ user ∈ store.users.docs, user.row .email ≠ some (.str (toLowerCase email))) ∧
    ∀ j other, j ≠ i → Registering other (view j trace) → toLowerCase other ≠ toLowerCase email

theorem claimed_cons (i : Nat) (note : Note sig) (trace : Trace sig) (j : Nat) (stored : Option Scalar)
    (waits : claimed ((i, note) :: trace) j stored) :
    (j = i ∧ ∃ email, note = noUserWith email ∧ stored = some (.str (toLowerCase email))) ∨ j ≠ i ∧ claimed trace j stored := by
  obtain ⟨email, ⟨rest, shape⟩, lower⟩ := waits
  by_cases same : i = j
  · subst same
    rw [view_cons_own] at shape
    exact .inl ⟨rfl, email, (List.cons.inj shape).1, lower⟩
  · rw [view_cons_other j i note trace same] at shape
    exact .inr ⟨Ne.symm same, email, ⟨rest, shape⟩, lower⟩

theorem claimed_moved (i : Nat) (note : Note sig) (trace : Trace sig) (other : ∀ email, note ≠ noUserWith email) (j : Nat)
    (stored : Option Scalar) (waits : claimed ((i, note) :: trace) j stored) : j ≠ i ∧ claimed trace j stored := by
  rcases claimed_cons i note trace j stored waits with ⟨_, email, same, _⟩ | before
  · exact absurd same (other email)
  · exact before

section Rule

variable (pkg : Packages) (strings : StringQueries pkg) (trace : Trace sig) (store : Store) (i : Nat) (http : HttpRequest)

theorem reserving_passed (reserving : Reserving store.users storedEmail (claimed trace)) (note : Note sig)
    (other : ∀ email, note ≠ noUserWith email) : Reserving store.users storedEmail (claimed ((i, note) :: trace)) :=
  reserving_fewer _ _ _ _ reserving fun j stored waits => (claimed_moved i note trace other j stored waits).2

include strings

theorem reserving_missed (reserving : Reserving store.users storedEmail (claimed trace)) (email : String) (condition : Condition)
    (seen : pkg.castQuery (.str email) = .ok condition) (absent : ∀ user ∈ store.users.docs, condition (user.row .email) = false)
    (free : unclaimed pkg trace store i (.users (.findOne .email (.str email)))) :
    Reserving store.users storedEmail (claimed ((i, noUserWith email) :: trace)) := by
  obtain ⟨unspelled, alone⟩ := free email rfl
  apply reserving_looked _ _ _ _ reserving i (· = some (.str (toLowerCase email)))
  · rintro _ rfl user member named
    by_cases lower : toLowerCase email = email
    · obtain ⟨exact_, same, matches_⟩ := strings email
      cases same.symm.trans seen
      have holds := (matches_ (user.row .email)).mpr (by rw [← lower]; exact named)
      rw [absent user member] at holds
      cases holds
    · exact unspelled lower user member named
  · rintro j _ rfl different waits
    obtain ⟨other, registering, same⟩ := waits
    exact alone j other different registering (by simpa using same.symm)
  · intro j stored waits
    rcases claimed_cons i _ trace j stored waits with ⟨own, other, same, lower⟩ | before
    · cases same
      exact .inl ⟨own, lower⟩
    · exact .inr before

theorem sign_up_asked (reserving : Reserving store.users storedEmail (claimed trace)) (route : endpointOf http = some .signUpUser)
    (cmd : Cmd UserField) (choice : Choice) (allowed : mayWrite pkg http (view i trace) (.users cmd))
    (free : unclaimed pkg trace store i (.users cmd)) :
    Reserving (exec pkg.castQuery cmd choice store.users).2 storedEmail
      (claimed ((i, .asked (.users cmd) (exec pkg.castQuery cmd choice store.users).1) :: trace)) := by
  have passed := reserving_passed trace store i reserving
  have done := exec_executed pkg.castQuery cmd choice store.users
  generalize (exec pkg.castQuery cmd choice store.users).1 = ans at done ⊢
  generalize (exec pkg.castQuery cmd choice store.users).2 = next at done ⊢
  cases done with
  | error _ message =>
      apply passed
      intro email same
      cases cmd <;> cases same
  | missing path value condition seen absent =>
      by_cases wanted : ∃ email, path = .email ∧ value = .str email
      · obtain ⟨email, rfl, rfl⟩ := wanted
        exact reserving_missed pkg strings trace store i reserving email condition seen absent free
      · apply passed
        intro email same
        cases same
        exact wanted ⟨email, rfl, rfl⟩
  | found | listedAll | listed =>
      apply passed
      intro email same
      cases same
  | inserted row ok =>
      obtain ⟨_, ⟨email, password, id, salt, createdOn, given, _, _, saved⟩, shape⟩ := allowed
      have lower := (new_user_ok pkg _ id _ _ createdOn row saved.symm).2.1
      apply reserving_push _ _ _ _ reserving i row ok
      · refine ⟨email, ⟨[], ?_⟩, lower⟩
        rw [shape, show http.body.get "email" = .str email from given]
        rfl
      · apply claimed_moved
        intro email same
        cases same
  | resaved => cases allowed
  | unremoved | removed => cases route.symm.trans allowed.1
  | skipped | unmatched | updated =>
      rcases allowed with ⟨edit, _⟩ | ⟨recover, _⟩
      · cases route.symm.trans edit
      · cases route.symm.trans recover

end Rule

theorem sign_up_rule (pkg : Packages) (strings : StringQueries pkg) :
    EventRule (m := server pkg) (accounted pkg) (unclaimed pkg) (fun known trace store =>
      (∀ http ∈ known, endpointOf http = some .signUpUser) → Reserving store.users storedEmail (claimed trace)) where
  born := by
    intro known trace store job holds signUps
    exact holds fun http member => signUps http (List.mem_append_left _ member)
  told := by
    intro known trace store i job out holds _ _ signUps
    apply reserving_passed trace store i (holds signUps)
    intro email same
    cases same
  asked := by
    intro known trace store i job op choice holds here allowed free signUps
    have reserving := holds signUps
    have other : (∀ cmd, op ≠ .users cmd) → ∀ email ans, (.asked op ans : Note sig) ≠ noUserWith email := by
      intro notUsers email ans same
      cases same
      exact notUsers _ rfl
    cases op with
    | users cmd =>
        exact sign_up_asked pkg strings trace store i job reserving
          (signUps job (List.mem_of_getElem? here)) cmd choice allowed.2 free
    | auths | meetings => exact reserving_passed trace store i reserving _ (other (by simp) · _)
    | compare => cases choice <;> exact reserving_passed trace store i reserving _ (other (by simp) · _)

theorem unclaimed_sign_ups_keep_emails_apart (pkg : Packages) (strings : StringQueries pkg) (store : Store)
    (empty : store.users.docs = []) (cell : Body) (labels : List (Label (server pkg)))
    (signUps : ∀ http ∈ startedJobs labels, endpointOf http = some .signUpUser)
    (steady : AllGuarded (unclaimed pkg) labels (World.initial (server pkg) store cell)) (world : World (server pkg))
    (reached : world = run labels (World.initial (server pkg) store cell)) : OnePer world.store.users storedEmail := by
  subst reached
  have reserving := (sign_up_rule pkg strings).guarded_runs (app_accounted pkg) labels _ (initial_tracked _ store cell) steady
    (fun _ => ⟨by simp [OnePer, World.initial, empty], by simp [World.initial, empty],
      by simp [claimed, Registering, World.initial]⟩)
  rw [run_jobs] at reserving
  exact (reserving signUps).single

def isUnclaimed (pkg : Packages) (world : World (server pkg)) (i : Nat) : Op → Bool
  | .users (.findOne .email (.str email)) =>
      (toLowerCase email == email || world.store.users.docs.all fun user => user.row .email != some (.str (toLowerCase email))) &&
        (List.range world.tasks.length).all fun j => j == i ||
          match view j world.trace with
          | .asked (.users (.findOne .email (.str other))) (.ok none) :: _ => toLowerCase other != toLowerCase email
          | _ => true
  | _ => true

theorem is_unclaimed_sound (pkg : Packages) (world : World (server pkg)) (i : Nat) (op : Op)
    (tracked : Tracked (accounted pkg) world) (checked : isUnclaimed pkg world i op = true) :
    unclaimed pkg world.trace world.store i op := by
  intro email same
  subst same
  obtain ⟨spelled, others⟩ := Bool.and_eq_true_iff.mp checked
  constructor
  · intro upper user member
    have apart := List.all_eq_true.mp ((Bool.or_eq_true_iff.mp spelled).resolve_left (by simpa using upper)) user member
    simpa using apart
  · intro j other different registering
    obtain ⟨rest, shape⟩ := registering
    by_cases born : j < world.tasks.length
    · have apart := List.all_eq_true.mp others j (List.mem_range.mpr born)
      rw [shape] at apart
      simpa [different, noUserWith] using apart
    · rw [tracked.unborn j (by omega)] at shape
      cases shape

def Reference.signUpAs (email : String) : HttpRequest :=
  { Reference.signUpRequest with body := .obj [("email", .str email), ("password", .str "pw")] }

def Reference.signUpTurns (i n : Nat) : List (Label (server Reference.packages)) :=
  List.replicate n (.resume i (.pick 0) fun _ => ⟨4000, toString i, "salt", "fresh"⟩)

-- Two sign-ups, each of which looks for its email before the other has saved.
def Reference.twoSignUps (first second : String) : List (Label (server Reference.packages)) :=
  .start (Reference.signUpAs first) (Reference.ambient 4000) :: .start (Reference.signUpAs second) (Reference.ambient 4000) ::
    Reference.signUpTurns 0 2 ++ Reference.signUpTurns 1 2 ++ Reference.signUpTurns 0 2 ++ Reference.signUpTurns 1 2

theorem reference_sign_ups_apart :
    OnePer (run (Reference.twoSignUps "A@b.co" "c@d.co") Reference.noUsers).store.users storedEmail := by
  apply unclaimed_sign_ups_keep_emails_apart Reference.packages reference_string_queries ⟨.none, .none, .none⟩ rfl (.thrown "")
    (Reference.twoSignUps "A@b.co" "c@d.co") ?_ ?_ _ rfl
  · decide +kernel
  · exact all_pass_guarded (accounted _) (app_accounted _) _ (isUnclaimed _) (is_unclaimed_sound _) _ _ (initial_tracked _ _ _)
      (by decide +kernel)

-- The second pair does not overlap: the look-up of A@b.co misses a@b.co.
theorem sign_ups_share_an_email :
    (run (Reference.twoSignUps "a@b.co" "a@b.co") Reference.noUsers).store.users.docs.map (fun user => storedEmail user.row) =
      [some (.str "a@b.co"), some (.str "a@b.co")] ∧
    (run (.start (Reference.signUpAs "A@b.co") (Reference.ambient 4000) :: Reference.signUpTurns 0 4 ++
      .start (Reference.signUpAs "A@b.co") (Reference.ambient 4000) :: Reference.signUpTurns 1 4)
        Reference.noUsers).store.users.docs.map
        (fun user => storedEmail user.row) = [some (.str "a@b.co"), some (.str "a@b.co")] := by
  decide +kernel

end Planner
