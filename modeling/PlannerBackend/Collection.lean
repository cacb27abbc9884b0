import PlannerBackend.JsValue

set_option autoImplicit false

namespace Docs

inductive Scalar where
  | null
  | str (s : String)
  | num (text : String)
  | date (ms : Int)
deriving DecidableEq, Repr

def Scalar.value : Scalar → Js.Value
  | .null => .null
  | .str s => .str s
  | .num text => .num text
  | .date ms => .host (toString ms)

-- The paths of a schema; none marks a path absent from the stored document.
abbrev Row (F : Type) := F → Option Scalar

structure Doc (F : Type) where
  id : Nat
  row : Row F

class Paths (F : Type) where
  all : List F
  label : F → String
  plain : ∀ path, label path ≠ "toString" ∧ label path ≠ "length"

variable {F : Type}

def overlay (upper lower : Row F) : Row F := fun path => (upper path).or (lower path)

def without [DecidableEq F] (row : Row F) (paths : List F) : Row F := fun path => if path ∈ paths then none else row path

def text : Option Scalar → Option String
  | some (.str s) => some s
  | _ => none

-- A missing path and null share one index entry.
def indexEntry (stored : Option Scalar) : Scalar := stored.getD .null

structure Collection (F : Type) (key : Option F) where
  docs : List (Doc F)
  next : Nat
  fresh : ∀ doc ∈ docs, doc.id < next
  distinct : (docs.map Doc.id).Nodup
  indexed : ∀ path, key = some path → (docs.map fun doc => indexEntry (doc.row path)).Nodup

variable {key : Option F}

def Collection.none : Collection F key :=
  ⟨[], 0, by simp, List.nodup_nil, by simp⟩

def admits (held : Collection F key) (row : Row F) (replacing : Option Nat) : Bool :=
  match key with
  | .none => true
  | some path => held.docs.all fun doc => some doc.id == replacing || indexEntry (doc.row path) != indexEntry (row path)

theorem admits_index (held : Collection F key) (row : Row F) (replacing : Option Nat) (path : F) (here : key = some path)
    (ok : admits held row replacing = true) (doc : Doc F) (member : doc ∈ held.docs) (other : some doc.id ≠ replacing) :
    indexEntry (doc.row path) ≠ indexEntry (row path) := by
  subst here
  have all := List.all_eq_true.mp ok doc member
  simpa [other] using all

def Collection.push (held : Collection F key) (row : Row F) (ok : admits held row .none = true) : Collection F key where
  docs := held.docs ++ [⟨held.next, row⟩]
  next := held.next + 1
  fresh := by
    intro doc member
    rcases List.mem_append.mp member with old | new
    · exact Nat.lt_succ_of_lt (held.fresh doc old)
    · simp [List.mem_singleton.mp new]
  distinct := by
    rw [List.map_append, List.nodup_append]
    refine ⟨held.distinct, by simp, ?_⟩
    intro a inOld b inNew same
    obtain ⟨doc, member, rfl⟩ := List.mem_map.mp inOld
    have bound := held.fresh doc member
    have eq : b = held.next := by simpa using inNew
    omega
  indexed := by
    intro path here
    rw [List.map_append, List.nodup_append]
    refine ⟨held.indexed path here, by simp, ?_⟩
    intro a inOld b inNew same
    obtain ⟨doc, member, rfl⟩ := List.mem_map.mp inOld
    have eq : b = indexEntry (row path) := by simpa using inNew
    exact admits_index held row .none path here ok doc member (by simp) (same.trans eq)

theorem map_replace_ids (docs : List (Doc F)) (id : Nat) (row : Row F) :
    (docs.map fun doc => if doc.id = id then ⟨id, row⟩ else doc).map Doc.id = docs.map Doc.id := by
  rw [List.map_map]
  apply List.map_congr_left
  intro doc _
  by_cases same : doc.id = id <;> simp [same]

def Collection.replace (held : Collection F key) (id : Nat) (row : Row F) (ok : admits held row (some id) = true) :
    Collection F key where
  docs := held.docs.map fun doc => if doc.id = id then ⟨id, row⟩ else doc
  next := held.next
  fresh := by
    intro doc member
    obtain ⟨old, oldMember, eq⟩ := List.mem_map.mp member
    have bound := held.fresh old oldMember
    by_cases same : old.id = id
    · simp only [if_pos same] at eq
      rw [← eq, ← same]
      exact bound
    · simp only [if_neg same] at eq
      exact eq ▸ bound
  distinct := by
    rw [map_replace_ids]
    exact held.distinct
  indexed := by
    intro path here
    have pairs : held.docs.Pairwise fun a b => a.id ≠ b.id := List.pairwise_map.mp held.distinct
    have entries : held.docs.Pairwise fun a b => indexEntry (a.row path) ≠ indexEntry (b.row path) :=
      List.pairwise_map.mp (held.indexed path here)
    rw [List.Nodup, List.pairwise_map, List.pairwise_map]
    refine (List.Pairwise.and pairs entries).imp_of_mem ?_
    intro a b inA inB apart
    by_cases atA : a.id = id
    · have atB : ¬ b.id = id := fun same => apart.1 (atA.trans same.symm)
      have free := admits_index held row (some id) path here ok b inB (by simpa using atB)
      simp only [if_pos atA, if_neg atB]
      exact Ne.symm free
    · by_cases atB : b.id = id
      · have free := admits_index held row (some id) path here ok a inA (by simpa using atA)
        simp only [if_neg atA, if_pos atB]
        exact free
      · simp only [if_neg atA, if_neg atB]
        exact apart.2

def Collection.remove (held : Collection F key) (id : Nat) : Collection F key where
  docs := held.docs.filter fun doc => doc.id != id
  next := held.next
  fresh := fun doc member => held.fresh doc (List.mem_filter.mp member).1
  distinct := (List.filter_sublist.map Doc.id).nodup held.distinct
  indexed := fun path here => (List.filter_sublist.map _).nodup (held.indexed path here)

-- The condition a query value is cast to, on one path.
abbrev Condition := Option Scalar → Bool

inductive Change (F : Type) where
  | rejected (message : String)
  | empty
  | apply (effect : Row F → Row F)

inductive Cmd (F : Type) where
  | findOne (path : F) (value : Js.Value)
  | find (condition : Option (F × Js.Value))
  | insert (row : Except String (Row F))
  | resave (doc : Doc F) (paths : Row F)
  | findOneAndRemove (path : F) (value : Js.Value)
  | update (path : F) (value : Js.Value) (change : Change F)

structure UpdateReply where
  n : Nat
  nModified : Nat
  ok : Nat
deriving DecidableEq, Repr

abbrev Ans : Cmd F → Type
  | .findOne _ _ => Except String (Option (Doc F))
  | .find _ => Except String (List (Doc F))
  | .insert _ => Except String (Doc F)
  | .resave _ _ => Except String (Doc F)
  | .findOneAndRemove _ _ => Except String (Option (Doc F))
  | .update _ _ _ => Except String UpdateReply

inductive Choice where
  | fail (message : String)
  | pick (n : Nat)

def failed : (cmd : Cmd F) → String → Ans cmd
  | .findOne _ _, message => .error message
  | .find _, message => .error message
  | .insert _, message => .error message
  | .resave _ _, message => .error message
  | .findOneAndRemove _ _, message => .error message
  | .update _ _ _, message => .error message

def choose {α : Type} (n : Nat) (candidates : List α) : Option α := candidates[n % candidates.length]?

def matching (held : Collection F key) (path : F) (condition : Condition) : List (Doc F) :=
  held.docs.filter fun doc => condition (doc.row path)

def duplicateKey : String := "E11000 duplicate key error"

def documentNotFound : String := "No document found for query"

section Exec

variable [Paths F] (cast : Js.Value → Except String Condition)

def sameRow (a b : Row F) : Bool := (Paths.all : List F).all fun path => a path == b path

-- The database is not part of the source: Honours has what is assumed of it,
-- and this is the loosest database for which that holds, with any failure and
-- any choice among the matching documents. A command that reports an error
-- leaves the collection as it was. An update whose body names no path of the
-- schema is not sent at all.
def exec : (cmd : Cmd F) → Choice → Collection F key → Ans cmd × Collection F key
  | cmd, .fail message, held => (failed cmd message, held)
  | .findOne path value, .pick n, held =>
      match cast value with
      | .error message => (.error message, held)
      | .ok condition => (.ok (choose n (matching held path condition)), held)
  | .find .none, .pick _, held => (.ok held.docs, held)
  | .find (some (path, value)), .pick _, held =>
      match cast value with
      | .error message => (.error message, held)
      | .ok condition => (.ok (matching held path condition), held)
  | .insert (.error message), .pick _, held => (.error message, held)
  | .insert (.ok row), .pick _, held =>
      if ok : admits held row .none = true then (.ok ⟨held.next, row⟩, held.push row ok)
      else (.error duplicateKey, held)
  | .resave doc paths, .pick _, held =>
      match held.docs.find? fun stored => stored.id == doc.id with
      | .none => (.error documentNotFound, held)
      | some stored =>
          if ok : admits held (overlay paths stored.row) (some stored.id) = true then
            (.ok ⟨doc.id, overlay paths doc.row⟩, held.replace stored.id (overlay paths stored.row) ok)
          else (.error duplicateKey, held)
  | .findOneAndRemove path value, .pick n, held =>
      match cast value with
      | .error message => (.error message, held)
      | .ok condition =>
          match choose n (matching held path condition) with
          | .none => (.ok .none, held)
          | some doc => (.ok (some doc), held.remove doc.id)
  | .update _ _ (.rejected message), .pick _, held => (.error message, held)
  | .update _ value .empty, .pick _, held =>
      match cast value with
      | .error message => (.error message, held)
      | .ok _ => (.ok ⟨0, 0, 0⟩, held)
  | .update path value (.apply effect), .pick n, held =>
      match cast value with
      | .error message => (.error message, held)
      | .ok condition =>
          match choose n (matching held path condition) with
          | .none => (.ok ⟨0, 0, 1⟩, held)
          | some doc =>
              if ok : admits held (effect doc.row) (some doc.id) = true then
                (.ok ⟨1, if sameRow doc.row (effect doc.row) then 0 else 1, 1⟩, held.replace doc.id (effect doc.row) ok)
              else (.error duplicateKey, held)

end Exec

end Docs
