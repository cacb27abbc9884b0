import Mathlib.Logic.Function.Basic
import PlannerBackend.Effects

set_option autoImplicit false

namespace Docs

variable {F κ ν : Type} {key : Option F}

def OnePer (held : Collection F key) (keyOf : Row F → κ) : Prop :=
  ∀ a ∈ held.docs, ∀ b ∈ held.docs, keyOf a.row = keyOf b.row → a = b

-- A collection with at most one document for each key is a finite map.
structure Represents (held : Collection F key) (keyOf : Row F → κ) (valueOf : Row F → Option ν) (map : κ → Option ν) : Prop where
  unique : OnePer held keyOf
  maps : ∀ k v, map k = some v ↔ ∃ doc ∈ held.docs, keyOf doc.row = k ∧ valueOf doc.row = some v

variable (held : Collection F key) (keyOf : Row F → κ) (valueOf : Row F → Option ν) (map : κ → Option ν)

theorem one_per_push (unique : OnePer held keyOf) (row : Row F) (ok : admits held row .none = true)
    (fresh : ∀ doc ∈ held.docs, keyOf doc.row ≠ keyOf row) : OnePer (held.push row ok) keyOf := by
  intro a inA b inB same
  rcases (mem_push held row ok a).mp inA with oldA | rfl <;> rcases (mem_push held row ok b).mp inB with oldB | rfl
  · exact unique a oldA b oldB same
  · exact absurd same (fresh a oldA)
  · exact absurd same.symm (fresh b oldB)
  · rfl

theorem other_key (unique : OnePer held keyOf) (doc : Doc F) (member : doc ∈ held.docs) (other : Doc F)
    (inOther : other ∈ held.docs) (different : other.id ≠ doc.id) : keyOf other.row ≠ keyOf doc.row :=
  fun named => different (congrArg Doc.id (unique other inOther doc member named))

theorem one_per_replace (unique : OnePer held keyOf) (doc : Doc F) (member : doc ∈ held.docs) (row : Row F)
    (ok : admits held row (some doc.id) = true) (same : keyOf row = keyOf doc.row) :
    OnePer (held.replace doc.id row ok) keyOf := by
  intro a inA b inB named
  rcases (mem_replace held doc.id row ok a).mp inA with ⟨oldA, otherA⟩ | ⟨rfl, _⟩ <;>
    rcases (mem_replace held doc.id row ok b).mp inB with ⟨oldB, otherB⟩ | ⟨rfl, _⟩
  · exact unique a oldA b oldB named
  · exact absurd (named.trans same) (other_key held keyOf unique doc member a oldA otherA)
  · exact absurd (named.symm.trans same) (other_key held keyOf unique doc member b oldB otherB)
  · rfl

theorem one_per_remove (unique : OnePer held keyOf) (id : Nat) : OnePer (held.remove id) keyOf := by
  intro a inA b inB named
  exact unique a ((mem_remove held id a).mp inA).1 b ((mem_remove held id b).mp inB).1 named

-- Look first, insert later: whoever found no document under a key holds the
-- key until its own insertion.
structure Reserving (pending : Nat → κ → Prop) : Prop where
  single : OnePer held keyOf
  reserved : ∀ i k, pending i k → ∀ doc ∈ held.docs, keyOf doc.row ≠ k
  apart : ∀ i j k, pending i k → pending j k → i = j

section Reserving

variable (pending later : Nat → κ → Prop) (reserving : Reserving held keyOf pending)

include reserving

theorem reserving_fewer (fewer : ∀ j k, later j k → pending j k) : Reserving held keyOf later where
  single := reserving.single
  reserved := fun j k waits => reserving.reserved j k (fewer j k waits)
  apart := fun i j k first second => reserving.apart i j k (fewer i k first) (fewer j k second)

theorem reserving_looked (i : Nat) (looked : κ → Prop) (absent : ∀ k, looked k → ∀ doc ∈ held.docs, keyOf doc.row ≠ k)
    (free : ∀ j k, looked k → j ≠ i → ¬ pending j k) (grows : ∀ j k, later j k → j = i ∧ looked k ∨ j ≠ i ∧ pending j k) :
    Reserving held keyOf later where
  single := reserving.single
  reserved := by
    intro j k waits
    rcases grows j k waits with ⟨_, here⟩ | ⟨_, before⟩
    · exact absent k here
    · exact reserving.reserved j k before
  apart := by
    intro a b k first second
    rcases grows a k first with ⟨ownA, hereA⟩ | ⟨otherA, beforeA⟩ <;> rcases grows b k second
      with ⟨ownB, hereB⟩ | ⟨otherB, beforeB⟩
    · exact ownA.trans ownB.symm
    · exact absurd beforeB (free b k hereA otherB)
    · exact absurd beforeA (free a k hereB otherA)
    · exact reserving.apart a b k beforeA beforeB

theorem reserving_remove (id : Nat) : Reserving (held.remove id) keyOf pending where
  single := one_per_remove held keyOf reserving.single id
  reserved := fun j k waits doc member => reserving.reserved j k waits doc ((mem_remove held id doc).mp member).1
  apart := reserving.apart

theorem reserving_replace (doc : Doc F) (member : doc ∈ held.docs) (row : Row F) (ok : admits held row (some doc.id) = true)
    (same : keyOf row = keyOf doc.row) : Reserving (held.replace doc.id row ok) keyOf pending where
  single := one_per_replace held keyOf reserving.single doc member row ok same
  reserved := by
    intro j k waits other inNext
    rcases (mem_replace held doc.id row ok other).mp inNext with ⟨old, _⟩ | ⟨rfl, _⟩
    · exact reserving.reserved j k waits other old
    · rw [same]
      exact reserving.reserved j k waits doc member
  apart := reserving.apart

theorem reserving_push (i : Nat) (row : Row F) (ok : admits held row .none = true) (own : pending i (keyOf row))
    (moved : ∀ j l, later j l → j ≠ i ∧ pending j l) : Reserving (held.push row ok) keyOf later where
  single := one_per_push held keyOf reserving.single row ok (reserving.reserved i _ own)
  reserved := by
    intro j l waits doc member
    obtain ⟨other, before⟩ := moved j l waits
    rcases (mem_push held row ok doc).mp member with old | rfl
    · exact reserving.reserved j l before doc old
    · intro same
      exact other (reserving.apart j i l before (same ▸ own))
  apart := fun a b l first second => reserving.apart a b l (moved a l first).2 (moved b l second).2

end Reserving

theorem represents_empty (empty : held.docs = []) : Represents held keyOf valueOf (fun _ => none) :=
  ⟨by simp [OnePer, empty], by simp [empty]⟩

section Update

variable [DecidableEq κ] (represents : Represents held keyOf valueOf map)

include represents

theorem represents_push (row : Row F) (ok : admits held row .none = true) (fresh : ∀ doc ∈ held.docs, keyOf doc.row ≠ keyOf row) :
    Represents (held.push row ok) keyOf valueOf (Function.update map (keyOf row) (valueOf row)) := by
  refine ⟨one_per_push held keyOf represents.unique row ok fresh, ?_⟩
  intro k v
  by_cases here : k = keyOf row
  · subst here
    rw [Function.update_self]
    constructor
    · intro value
      exact ⟨⟨held.next, row⟩, (mem_push held row ok _).mpr (.inr rfl), rfl, value⟩
    · intro present
      obtain ⟨doc, member, same, value⟩ := present
      rcases (mem_push held row ok doc).mp member with old | rfl
      · exact absurd same (fresh doc old)
      · exact value
  · rw [Function.update_of_ne here, represents.maps]
    constructor
    · intro present
      obtain ⟨doc, member, named, value⟩ := present
      exact ⟨doc, (mem_push held row ok doc).mpr (.inl member), named, value⟩
    · intro present
      obtain ⟨doc, member, named, value⟩ := present
      rcases (mem_push held row ok doc).mp member with old | rfl
      · exact ⟨doc, old, named, value⟩
      · exact absurd named.symm here

theorem represents_replace (doc : Doc F) (member : doc ∈ held.docs) (row : Row F) (ok : admits held row (some doc.id) = true)
    (same : keyOf row = keyOf doc.row) :
    Represents (held.replace doc.id row ok) keyOf valueOf (Function.update map (keyOf row) (valueOf row)) := by
  refine ⟨one_per_replace held keyOf represents.unique doc member row ok same, ?_⟩
  intro k v
  by_cases here : k = keyOf row
  · subst here
    rw [Function.update_self]
    constructor
    · intro value
      exact ⟨⟨doc.id, row⟩, (mem_replace held doc.id row ok _).mpr (.inr ⟨rfl, doc, member, rfl⟩), rfl, value⟩
    · intro present
      obtain ⟨found, inNew, named, value⟩ := present
      rcases (mem_replace held doc.id row ok found).mp inNew with ⟨old, other⟩ | ⟨rfl, _⟩
      · exact absurd (named.trans same) (other_key held keyOf represents.unique doc member found old other)
      · exact value
  · rw [Function.update_of_ne here, represents.maps]
    constructor
    · intro present
      obtain ⟨found, old, named, value⟩ := present
      refine ⟨found, (mem_replace held doc.id row ok found).mpr (.inl ⟨old, ?_⟩), named, value⟩
      intro sameId
      rw [same_id_same_doc held found doc old member sameId] at named
      exact here (named.symm.trans same.symm)
    · intro present
      obtain ⟨found, inNew, named, value⟩ := present
      rcases (mem_replace held doc.id row ok found).mp inNew with ⟨old, _⟩ | ⟨rfl, _⟩
      · exact ⟨found, old, named, value⟩
      · exact absurd named.symm here

theorem represents_remove (doc : Doc F) (member : doc ∈ held.docs) :
    Represents (held.remove doc.id) keyOf valueOf (Function.update map (keyOf doc.row) none) := by
  refine ⟨one_per_remove held keyOf represents.unique doc.id, ?_⟩
  intro k v
  by_cases here : k = keyOf doc.row
  · subst here
    rw [Function.update_self]
    constructor
    · intro absurdity
      cases absurdity
    · intro present
      obtain ⟨found, inNew, named, _⟩ := present
      obtain ⟨old, other⟩ := (mem_remove held doc.id found).mp inNew
      exact absurd named (other_key held keyOf represents.unique doc member found old other)
  · rw [Function.update_of_ne here, represents.maps]
    constructor
    · intro present
      obtain ⟨found, old, named, value⟩ := present
      refine ⟨found, (mem_remove held doc.id found).mpr ⟨old, ?_⟩, named, value⟩
      intro sameId
      rw [same_id_same_doc held found doc old member sameId] at named
      exact here named.symm
    · intro present
      obtain ⟨found, inNew, named, value⟩ := present
      exact ⟨found, ((mem_remove held doc.id found).mp inNew).1, named, value⟩

end Update

end Docs
