import PlannerBackend.Sessions

set_option autoImplicit false

namespace Planner

open Docs Resume

-- What holds of the auth records under any interleaving. The owner of a
-- record never changes, so a document read earlier still names it.
structure Recorded (pkg : Packages) (trace : Trace sig) (auths : Collection AuthField none) : Prop where
  genuine : ∀ auth ∈ auths.docs, Genuine pkg auth
  looked : ∀ i userId doc, (i, lookupByUserId userId (some doc)) ∈ trace →
    owner doc.row = userId ∧ doc.id < auths.next ∧ ∀ auth ∈ auths.docs, auth.id = doc.id → owner auth.row = userId

section Origin

variable (pkg : Packages) (http : HttpRequest) (h : History sig) (cmd : Cmd AuthField)
  (allowed : mayAsk pkg http h (.auths cmd)) (held next : Collection AuthField none) (ans : Ans cmd)
  (done : Executed pkg.castQuery held cmd ans next)

def Inserted (row : Row AuthField) : Prop :=
  ∃ session at_ rest, cmd = .insert (.ok row) ∧ row = LogInUser.newAuth session at_ ∧
    h = lookupByUserId session.userId none :: rest ∧ Issued pkg (requestOf http) rest session

include allowed done

theorem auth_origin (auth : Doc AuthField) (member : auth ∈ next.docs) :
    (∃ old ∈ held.docs, old.id = auth.id ∧ owner auth.row = owner old.row) ∨ auth.id = held.next ∧
    Inserted pkg http h cmd auth.row := by
  rcases executed_docs pkg.castQuery held next cmd ans done auth member with old | written
  · exact .inl ⟨auth, old, rfl, rfl⟩
  · cases cmd with
    | findOne | find | findOneAndRemove => cases written
    | update => cases allowed
    | resave given paths =>
        obtain ⟨_, session, at_, rest, rfl, _⟩ := allowed
        obtain ⟨old, inHeld, _, rfl⟩ := written
        exact .inl ⟨old, inHeld, rfl, rfl⟩
    | insert row =>
        obtain ⟨_, session, at_, rest, rfl, shape, issued⟩ := allowed
        cases written
        exact .inr ⟨rfl, session, at_, rest, rfl, rfl, shape, issued⟩

end Origin

-- An invariant of the trace and the auth records need only be checked at the
-- commands on that collection.
theorem auth_event_rule (pkg : Packages) (guard : Guard (server pkg)) (inv : Trace sig → Collection AuthField none → Prop)
    (other : ∀ trace auths i note, (∀ cmd ans, note ≠ .asked (.auths cmd) ans) → inv trace auths → inv ((i, note) :: trace) auths)
    (auth : ∀ trace (store : Store) i http cmd choice, inv trace store.auths → mayAsk pkg http (view i trace) (.auths cmd) →
      guard trace store i (.auths cmd) →
      inv ((i, .asked (.auths cmd) (exec pkg.castQuery cmd choice store.auths).1) :: trace)
        (exec pkg.castQuery cmd choice store.auths).2) :
    EventRule (m := server pkg) (contract pkg) guard (fun _ trace store => inv trace store.auths) where
  born := fun _ _ _ _ holds => holds
  told := fun known trace store i job out holds here allowed => other trace store.auths i (.said out) (by simp) holds
  asked := by
    intro known trace store i job op choice holds here allowed guarded
    cases op with
    | auths cmd => exact auth trace store i job cmd choice holds allowed.2 guarded
    | users | meetings => exact other trace store.auths i _ (by simp) holds
    | compare => cases choice <;> exact other trace store.auths i _ (by simp) holds

section Rule

variable (pkg : Packages) (strings : StringQueries pkg) (nulls : NullQueries pkg)

theorem written_genuine (trace : Trace sig) (store : Store) (recorded : Recorded pkg trace store.auths) (i : Nat)
    (http : HttpRequest) (cmd : Cmd AuthField) (allowed : mayAsk pkg http (view i trace) (.auths cmd)) (auth : Doc AuthField)
    (written : Written store.auths auth cmd) : Genuine pkg auth := by
  cases cmd with
  | findOne | find | findOneAndRemove => cases written
  | update => cases allowed
  | insert row =>
      obtain ⟨_, session, at_, rest, rfl, shape, issued⟩ := allowed
      cases written
      exact new_auth_genuine pkg _ rest session at_ issued _
  | resave given paths =>
      obtain ⟨_, session, at_, rest, rfl, shape, issued⟩ := allowed
      obtain ⟨old, inHeld, sameId, rfl⟩ := written
      have read : (i, lookupByUserId session.userId (some given)) ∈ trace := by
        rw [← mem_view, shape]
        exact List.mem_cons_self
      have owned := (recorded.looked i session.userId given read).2.2 old inHeld sameId
      exact renewed_genuine pkg _ rest session at_ issued old (recorded.genuine old inHeld) owned

theorem looked_kept (trace : Trace sig) (store : Store) (i : Nat) (http : HttpRequest) (cmd : Cmd AuthField)
    (allowed : mayAsk pkg http (view i trace) (.auths cmd)) (choice : Choice)
    (userId : Option String) (doc : Doc AuthField) (named : owner doc.row = userId) (old : doc.id < store.auths.next)
    (same : ∀ auth ∈ store.auths.docs, auth.id = doc.id → owner auth.row = userId) :
    owner doc.row = userId ∧ doc.id < (exec pkg.castQuery cmd choice store.auths).2.next ∧
      ∀ auth ∈ (exec pkg.castQuery cmd choice store.auths).2.docs, auth.id = doc.id → owner auth.row = userId := by
  have done := exec_executed pkg.castQuery cmd choice store.auths
  have grows := executed_next _ _ _ cmd _ done
  refine ⟨named, by omega, ?_⟩
  intro auth member sameId
  rcases auth_origin pkg http _ cmd allowed _ _ _ done auth member with ⟨before, inHeld, kept, owned⟩ | ⟨new, _⟩
  · rw [owned]
    exact same before inHeld (kept.trans sameId)
  · omega

theorem recorded_other (trace : Trace sig) (auths : Collection AuthField none) (i : Nat) (note : Note sig)
    (other : ∀ cmd ans, note ≠ .asked (.auths cmd) ans) (recorded : Recorded pkg trace auths) :
    Recorded pkg ((i, note) :: trace) auths := by
  refine ⟨recorded.genuine, ?_⟩
  intro j userId doc member
  rcases List.mem_cons.mp member with same | older
  · exact absurd (Prod.mk.inj same).2.symm (other _ _)
  · exact recorded.looked j userId doc older

include strings nulls

theorem recorded_asked (trace : Trace sig) (store : Store) (i : Nat) (http : HttpRequest) (cmd : Cmd AuthField) (choice : Choice)
    (recorded : Recorded pkg trace store.auths) (allowed : mayAsk pkg http (view i trace) (.auths cmd)) :
    Recorded pkg ((i, .asked (.auths cmd) (exec pkg.castQuery cmd choice store.auths).1) :: trace)
      (exec pkg.castQuery cmd choice store.auths).2 := by
  constructor
  · intro auth member
    have done := exec_executed pkg.castQuery cmd choice store.auths
    rcases executed_docs _ _ _ cmd _ done auth member with old | written
    · exact recorded.genuine auth old
    · exact written_genuine pkg trace store recorded i http cmd allowed auth written
  · intro j userId doc member
    rcases List.mem_cons.mp member with same | older
    · obtain ⟨rfl, found⟩ := noted_executed pkg cmd _ choice store.auths _ (Prod.mk.inj same).2.symm
      obtain ⟨inHeld, condition, seen, holds⟩ := executed_found _ _ _ _ _ doc found
      have named := (genuine_matches pkg strings nulls doc (recorded.genuine doc inHeld) userId condition seen).mp holds
      refine looked_kept pkg trace store i http _ allowed choice userId doc named (store.auths.fresh doc inHeld) ?_
      intro auth inStore sameId
      rw [same_id_same_doc store.auths auth doc inStore inHeld sameId]
      exact named
    · obtain ⟨named, old, same⟩ := recorded.looked j userId doc older
      exact looked_kept pkg trace store i http cmd allowed choice userId doc named old same

theorem recorded_reached (labels : List (Label (server pkg))) (store : Store) (empty : store.auths.docs = []) (cell : Body) :
    Recorded pkg (run labels (World.initial (server pkg) store cell)).trace
    (run labels (World.initial (server pkg) store cell)).store.auths := by
  have rule := auth_event_rule pkg unguarded (Recorded pkg) (recorded_other pkg)
    (fun trace store i http cmd choice recorded allowed _ =>
        recorded_asked pkg strings nulls trace store i http cmd choice recorded allowed)
  apply rule.runs (app_contract pkg) labels _ (initial_tracked _ store cell)
  exact ⟨by simp [World.initial, empty], by simp [World.initial]⟩

end Rule

end Planner
