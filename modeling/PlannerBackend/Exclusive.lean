import PlannerBackend.Answers
import PlannerBackend.Records

set_option autoImplicit false

namespace Planner

open Docs Resume

-- The request has looked for an auth record of this user, found none, and is
-- about to save a new one.
def Pending (userId : Option String) (h : History sig) : Prop := ∃ rest, h = lookupByUserId userId none :: rest

def uncontended (pkg : Packages) : Guard (server pkg) := fun trace _ i op =>
  ∀ userId, op = .auths (.findOne .userId (LogInUser.idScalar userId).value) → ∀ j, j ≠ i → ¬ Pending userId (view j trace)

def removal (userId : Option String) (doc : Doc AuthField) : Note sig :=
  .asked (.auths (.findOneAndRemove .userId (LogInUser.idScalar userId).value)) (.ok (some doc))

def Opens (userId : Option String) : Note sig → Prop
  | .asked (.auths (.insert (.ok row))) _ => owner row = userId
  | _ => False

structure Exclusive (trace : Trace sig) (auths : Collection AuthField none) : Prop where
  single : OnePer auths owner
  reserved : ∀ j userId, Pending userId (view j trace) → ∀ auth ∈ auths.docs, owner auth.row ≠ userId
  apart : ∀ j k userId, Pending userId (view j trace) → Pending userId (view k trace) → j = k
  revoked : ∀ newer i userId doc older, trace = newer ++ (i, removal userId doc) :: older →
    (∀ entry ∈ newer, ¬ Opens userId entry.2) → ∀ auth ∈ auths.docs, owner auth.row ≠ userId

def awaiting (trace : Trace sig) (j : Nat) (userId : Option String) : Prop := Pending userId (view j trace)

theorem exclusive_reserving (trace : Trace sig) (auths : Collection AuthField none) (exclusive : Exclusive trace auths) :
    Reserving auths owner (awaiting trace) :=
  ⟨exclusive.single, exclusive.reserved, exclusive.apart⟩

theorem pending_cons (i j : Nat) (note : Note sig) (trace : Trace sig) (userId : Option String)
    (pending : Pending userId (view j ((i, note) :: trace))) :
    j = i ∧ note = lookupByUserId userId none ∨ j ≠ i ∧ Pending userId (view j trace) := by
  by_cases same : i = j
  · subst same
    obtain ⟨rest, shape⟩ := pending
    rw [view_cons_own] at shape
    exact .inl ⟨rfl, (List.cons.inj shape).1⟩
  · rw [view_cons_other j i note trace same] at pending
    exact .inr ⟨Ne.symm same, pending⟩

section Rule

variable (pkg : Packages) (strings : StringQueries pkg) (nulls : NullQueries pkg) (trace : Trace sig) (store : Store) (i : Nat)
  (http : HttpRequest) (cmd : Cmd AuthField) (choice : Choice) (recorded : Recorded pkg trace store.auths)
  (exclusive : Exclusive trace store.auths) (allowed : mayAsk pkg http (view i trace) (.auths cmd))

include exclusive allowed

include strings nulls recorded

theorem reserving_kept (free : uncontended pkg trace store i (.auths cmd)) :
    Reserving (exec pkg.castQuery cmd choice store.auths).2 owner
      (awaiting ((i, .asked (.auths cmd) (exec pkg.castQuery cmd choice store.auths).1) :: trace)) := by
  have reserving := exclusive_reserving trace store.auths exclusive
  have done := exec_executed pkg.castQuery cmd choice store.auths
  have looked : Reserving store.auths owner
      (awaiting ((i, .asked (.auths cmd) (exec pkg.castQuery cmd choice store.auths).1) :: trace)) := by
    apply reserving_looked _ _ _ _ reserving i
      (.asked (.auths cmd) (exec pkg.castQuery cmd choice store.auths).1 = lookupByUserId · none)
    · intro userId same auth member named
      obtain ⟨rfl, missed⟩ := noted_executed pkg cmd _ choice store.auths _ same
      obtain ⟨condition, seen, absent⟩ := executed_missing _ _ _ _ _ missed
      have holds := (genuine_matches pkg strings nulls auth (recorded.genuine auth member) userId condition seen).mpr named
      rw [absent auth member] at holds
      cases holds
    · intro j userId same different
      exact free userId (by rw [(noted_executed pkg cmd _ choice store.auths _ same).1]) j different
    · exact fun j userId => pending_cons i j _ trace userId
  generalize (exec pkg.castQuery cmd choice store.auths).1 = ans at done looked ⊢
  generalize (exec pkg.castQuery cmd choice store.auths).2 = next at done ⊢
  cases done with
  | error | missing | found | listedAll | listed | unremoved | skipped | unmatched => exact looked
  | updated => cases allowed
  | removed => exact reserving_remove _ _ _ looked _
  | inserted row ok =>
      obtain ⟨_, session, at_, rest, same, shape, _⟩ := allowed
      cases same
      apply reserving_push _ _ _ _ reserving i _ ok
      · rw [show owner (LogInUser.newAuth session at_) = session.userId from text_id_scalar _]
        exact ⟨rest, shape⟩
      · intro j userId pending
        rcases pending_cons i j _ trace userId pending with ⟨_, isLookup⟩ | before
        · cases isLookup
        · exact before
  | resaved doc paths stored member same ok =>
      obtain ⟨_, session, at_, rest, rfl, _⟩ := allowed
      exact reserving_replace _ _ _ looked stored member _ ok rfl

theorem revoked_kept (newer : Trace sig) (k : Nat) (userId : Option String) (doc : Doc AuthField) (older : Trace sig)
    (split : (i, .asked (.auths cmd) (exec pkg.castQuery cmd choice store.auths).1) :: trace =
      newer ++ (k, removal userId doc) :: older)
    (closed : ∀ entry ∈ newer, ¬ Opens userId entry.2) (auth : Doc AuthField)
    (member : auth ∈ (exec pkg.castQuery cmd choice store.auths).2.docs) : owner auth.row ≠ userId := by
  have done := exec_executed pkg.castQuery cmd choice store.auths
  rcases split_cons _ trace newer older _ split with ⟨rfl, same, _⟩ | ⟨rest, rfl, before⟩
  · obtain ⟨rfl, taken⟩ := noted_executed pkg cmd _ choice store.auths _ (Prod.mk.inj same).2
    obtain ⟨inHeld, ⟨condition, seen, holds⟩, after⟩ := executed_removed _ _ _ _ _ doc taken
    rw [after] at member
    obtain ⟨old, other⟩ := (mem_remove _ _ auth).mp member
    rw [← (genuine_matches pkg strings nulls doc (recorded.genuine doc inHeld) userId condition seen).mp holds]
    exact other_key _ _ exclusive.single doc inHeld auth old other
  · rcases auth_origin pkg http _ cmd allowed _ _ _ done auth member
      with ⟨old, inHeld, _, owned⟩ | ⟨_, session, at_, past, isInsert, _⟩
    · rw [owned]
      exact exclusive.revoked rest k userId doc older before
        (fun entry inRest => closed entry (List.mem_cons_of_mem _ inRest)) old inHeld
    · subst isInsert
      exact closed _ List.mem_cons_self

end Rule

theorem exclusive_rule (pkg : Packages) (strings : StringQueries pkg) (nulls : NullQueries pkg) :
    EventRule (m := server pkg) (contract pkg) (uncontended pkg)
      (fun _ trace store => Recorded pkg trace store.auths ∧ Exclusive trace store.auths) := by
  apply auth_event_rule pkg (uncontended pkg) (fun trace auths => Recorded pkg trace auths ∧ Exclusive trace auths)
  · intro trace auths i note other holds
    obtain ⟨recorded, exclusive⟩ := holds
    have fewer := reserving_fewer _ _ _ (awaiting ((i, note) :: trace)) (exclusive_reserving trace auths exclusive) (by
      intro j userId pending
      rcases pending_cons i j note trace userId pending with ⟨_, same⟩ | ⟨_, before⟩
      · exact absurd same (other _ _)
      · exact before)
    refine ⟨recorded_other pkg trace auths i note other recorded, fewer.single, fewer.reserved, fewer.apart, ?_⟩
    intro newer k userId doc older split closed
    rcases split_cons _ trace newer older _ split with ⟨_, same, _⟩ | ⟨rest, rfl, before⟩
    · exact absurd (Prod.mk.inj same).2 (other _ _)
    · exact exclusive.revoked rest k userId doc older before (fun entry inRest => closed entry (List.mem_cons_of_mem _ inRest))
  · intro trace store i http cmd choice holds allowed free
    obtain ⟨recorded, exclusive⟩ := holds
    have kept := reserving_kept pkg strings nulls trace store i http cmd choice recorded exclusive allowed free
    exact ⟨recorded_asked pkg strings nulls trace store i http cmd choice recorded allowed, kept.single,
      kept.reserved, kept.apart, revoked_kept pkg strings nulls trace store i http cmd choice recorded exclusive allowed⟩

end Planner
