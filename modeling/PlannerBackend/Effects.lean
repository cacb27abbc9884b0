import PlannerBackend.Collection

set_option autoImplicit false

namespace Docs

variable {F : Type} {key : Option F}

-- Whether the command is one that writes, whatever comes of it.
def isWrite : Cmd F → Bool
  | .findOne _ _ => false
  | .find _ => false
  | .insert _ => true
  | .resave _ _ => true
  | .findOneAndRemove _ _ => true
  | .update _ _ _ => true

-- Whether the command leaves every stored document as it is.
def keeps : Cmd F → Bool
  | .findOne _ _ => true
  | .find _ => true
  | .insert _ => true
  | .resave _ _ => false
  | .findOneAndRemove _ _ => false
  | .update _ _ _ => false

-- A write that went through: an acknowledged update counts even when its
-- filter matched nothing, a removal only when it found a document.
def performed : (cmd : Cmd F) → Ans cmd → Bool
  | .findOne _ _, _ => false
  | .find _, _ => false
  | .insert _, .ok _ => true
  | .insert _, .error _ => false
  | .resave _ _, .ok _ => true
  | .resave _ _, .error _ => false
  | .findOneAndRemove _ _, .ok (some _) => true
  | .findOneAndRemove _ _, .ok .none => false
  | .findOneAndRemove _ _, .error _ => false
  | .update _ _ _, .ok _ => true
  | .update _ _ _, .error _ => false

def affected : (cmd : Cmd F) → Ans cmd → Nat
  | .insert _, .ok _ => 1
  | .resave _ _, .ok _ => 1
  | .findOneAndRemove _ _, .ok (some _) => 1
  | .update _ _ _, .ok reply => reply.n
  | _, _ => 0

-- The number of documents inserted, matched or removed on the way from one
-- collection to the next.
inductive Touched (held : Collection F key) : Collection F key → Nat → Prop where
  | same : Touched held held 0
  | pushed (row : Row F) (ok : admits held row .none = true) : Touched held (held.push row ok) 1
  | replaced (doc : Doc F) (row : Row F) (ok : admits held row (some doc.id) = true) (member : doc ∈ held.docs) :
      Touched held (held.replace doc.id row ok) 1
  | removed (doc : Doc F) (member : doc ∈ held.docs) : Touched held (held.remove doc.id) 1

theorem choose_none {α : Type} (n : Nat) (candidates : List α) : choose n candidates = none ↔ candidates = [] := by
  cases candidates with
  | nil => simp [choose]
  | cons head tail =>
      have bound : n % (tail.length + 1) < tail.length + 1 := Nat.mod_lt _ (Nat.succ_pos _)
      simp [choose, bound]

theorem choose_mem {α : Type} (n : Nat) (candidates : List α) (chosen : α) (eq : choose n candidates = some chosen) :
    chosen ∈ candidates :=
  List.mem_of_getElem? eq

theorem matching_mem (held : Collection F key) (path : F) (condition : Condition) (doc : Doc F) :
    doc ∈ matching held path condition ↔ doc ∈ held.docs ∧ condition (doc.row path) = true := List.mem_filter

theorem matching_none (held : Collection F key) (path : F) (condition : Condition) (none : matching held path condition = [])
    (doc : Doc F) (member : doc ∈ held.docs) : condition (doc.row path) = false := by
  have absent : doc ∉ matching held path condition := by simp [none]
  by_cases holds : condition (doc.row path) = true
  · exact absurd ((matching_mem held path condition doc).mpr ⟨member, holds⟩) absent
  · simpa using holds

theorem mem_replace (held : Collection F key) (id : Nat) (row : Row F) (ok : admits held row (some id) = true) (doc : Doc F) :
    doc ∈ (held.replace id row ok).docs ↔
      doc ∈ held.docs ∧ doc.id ≠ id ∨ doc = ⟨id, row⟩ ∧ ∃ old ∈ held.docs, old.id = id := by
  constructor
  · intro member
    obtain ⟨old, oldMember, eq⟩ := List.mem_map.mp member
    by_cases same : old.id = id
    · simp only [if_pos same] at eq
      exact .inr ⟨eq.symm, old, oldMember, same⟩
    · simp only [if_neg same] at eq
      exact .inl (eq ▸ ⟨oldMember, same⟩)
  · intro origin
    rcases origin with ⟨member, other⟩ | ⟨rfl, old, member, same⟩
    · exact List.mem_map.mpr ⟨doc, member, by simp [other]⟩
    · exact List.mem_map.mpr ⟨old, member, by simp [same]⟩

theorem mem_remove (held : Collection F key) (id : Nat) (doc : Doc F) :
    doc ∈ (held.remove id).docs ↔ doc ∈ held.docs ∧ doc.id ≠ id := by
  simp [Collection.remove]

theorem mem_push (held : Collection F key) (row : Row F) (ok : admits held row .none = true) (doc : Doc F) :
    doc ∈ (held.push row ok).docs ↔ doc ∈ held.docs ∨ doc = ⟨held.next, row⟩ := by
  simp [Collection.push]

theorem distinct_images {α β : Type} (f : α → β) (xs : List α) (distinct : (xs.map f).Nodup) (a b : α) (inA : a ∈ xs)
    (inB : b ∈ xs) (same : f a = f b) : a = b := by
  have apart : xs.Pairwise fun x y => f x ≠ f y := List.pairwise_map.mp distinct
  obtain ⟨i, boundI, atI⟩ := List.getElem_of_mem inA
  obtain ⟨j, boundJ, atJ⟩ := List.getElem_of_mem inB
  rcases Nat.lt_trichotomy i j with less | equal | more
  · exact absurd (atI ▸ atJ ▸ same) (List.pairwise_iff_getElem.mp apart i j boundI boundJ less)
  · subst equal
    exact atI.symm.trans atJ
  · exact absurd (atI ▸ atJ ▸ same.symm) (List.pairwise_iff_getElem.mp apart j i boundJ boundI more)

theorem same_id_same_doc (held : Collection F key) (a b : Doc F) (inA : a ∈ held.docs) (inB : b ∈ held.docs)
    (same : a.id = b.id) : a = b :=
  distinct_images Doc.id held.docs held.distinct a b inA inB same

theorem same_index_same_doc (held : Collection F key) (path : F) (here : key = some path) (a b : Doc F) (inA : a ∈ held.docs)
    (inB : b ∈ held.docs) (same : a.row path = b.row path) : a = b :=
  distinct_images (fun doc => indexEntry (doc.row path)) held.docs (held.indexed path here) a b inA inB (congrArg indexEntry same)

-- Everything a command can do: its reply and the collection it leaves.
inductive Executed (cast : Js.Value → Except String Condition) (held : Collection F key) :
    (cmd : Cmd F) → Ans cmd → Collection F key → Prop where
  | error (cmd : Cmd F) (message : String) : Executed cast held cmd (failed cmd message) held
  | missing (path : F) (value : Js.Value) (condition : Condition) (seen : cast value = .ok condition)
      (absent : ∀ doc ∈ held.docs, condition (doc.row path) = false) :
      Executed cast held (.findOne path value) (.ok none) held
  | found (path : F) (value : Js.Value) (condition : Condition) (doc : Doc F) (seen : cast value = .ok condition)
      (member : doc ∈ held.docs) (holds : condition (doc.row path) = true) :
      Executed cast held (.findOne path value) (.ok (some doc)) held
  | listedAll : Executed cast held (.find none) (.ok held.docs) held
  | listed (path : F) (value : Js.Value) (condition : Condition) (seen : cast value = .ok condition) :
      Executed cast held (.find (some (path, value))) (.ok (matching held path condition)) held
  | inserted (row : Row F) (ok : admits held row .none = true) :
      Executed cast held (.insert (.ok row)) (.ok ⟨held.next, row⟩) (held.push row ok)
  | resaved (doc : Doc F) (paths : Row F) (stored : Doc F) (member : stored ∈ held.docs) (same : stored.id = doc.id)
      (ok : admits held (overlay paths stored.row) (some stored.id) = true) :
      Executed cast held (.resave doc paths) (.ok ⟨doc.id, overlay paths doc.row⟩)
        (held.replace stored.id (overlay paths stored.row) ok)
  | unremoved (path : F) (value : Js.Value) (condition : Condition) (seen : cast value = .ok condition)
      (absent : ∀ doc ∈ held.docs, condition (doc.row path) = false) :
      Executed cast held (.findOneAndRemove path value) (.ok none) held
  | removed (path : F) (value : Js.Value) (condition : Condition) (doc : Doc F) (seen : cast value = .ok condition)
      (member : doc ∈ held.docs) (holds : condition (doc.row path) = true) :
      Executed cast held (.findOneAndRemove path value) (.ok (some doc)) (held.remove doc.id)
  | skipped (path : F) (value : Js.Value) (condition : Condition) (seen : cast value = .ok condition) :
      Executed cast held (.update path value .empty) (.ok ⟨0, 0, 0⟩) held
  | unmatched (path : F) (value : Js.Value) (effect : Row F → Row F) (condition : Condition)
      (seen : cast value = .ok condition) (absent : ∀ doc ∈ held.docs, condition (doc.row path) = false) :
      Executed cast held (.update path value (.apply effect)) (.ok ⟨0, 0, 1⟩) held
  | updated (path : F) (value : Js.Value) (effect : Row F → Row F) (condition : Condition) (doc : Doc F) (changed : Nat)
      (seen : cast value = .ok condition) (member : doc ∈ held.docs) (holds : condition (doc.row path) = true)
      (ok : admits held (effect doc.row) (some doc.id) = true) :
      Executed cast held (.update path value (.apply effect)) (.ok ⟨1, changed, 1⟩) (held.replace doc.id (effect doc.row) ok)

theorem choose_cases (n : Nat) (held : Collection F key) (path : F) (condition : Condition) :
    choose n (matching held path condition) = none ∧ (∀ doc ∈ held.docs, condition (doc.row path) = false) ∨
      ∃ doc ∈ held.docs, choose n (matching held path condition) = some doc ∧ condition (doc.row path) = true := by
  cases picked : choose n (matching held path condition) with
  | none => exact .inl ⟨rfl, matching_none held path condition ((choose_none _ _).mp picked)⟩
  | some doc =>
      obtain ⟨member, holds⟩ := (matching_mem held path condition doc).mp (choose_mem _ _ _ picked)
      exact .inr ⟨doc, member, rfl, holds⟩

section Commands

variable [Paths F] (cast : Js.Value → Except String Condition) (n : Nat) (held : Collection F key)

theorem find_one_executed (path : F) (value : Js.Value) :
    Executed cast held (.findOne path value) (exec cast (.findOne path value) (.pick n) held).1
      (exec cast (.findOne path value) (.pick n) held).2 := by
  cases seen : cast value with
  | error message =>
      simp only [exec, seen]
      exact .error _ message
  | ok condition =>
      simp only [exec, seen]
      rcases choose_cases n held path condition with ⟨picked, absent⟩ | ⟨doc, member, picked, holds⟩
      · rw [picked]
        exact .missing path value condition seen absent
      · rw [picked]
        exact .found path value condition doc seen member holds

theorem find_executed (condition : Option (F × Js.Value)) :
    Executed cast held (.find condition) (exec cast (.find condition) (.pick n) held).1
    (exec cast (.find condition) (.pick n) held).2 := by
  cases condition with
  | none => exact .listedAll
  | some pair =>
      obtain ⟨path, value⟩ := pair
      cases seen : cast value with
      | error message =>
          simp only [exec, seen]
          exact .error _ message
      | ok condition =>
          simp only [exec, seen]
          exact .listed path value condition seen

theorem insert_executed (row : Except String (Row F)) :
    Executed cast held (.insert row) (exec cast (.insert row) (.pick n) held).1 (exec cast (.insert row) (.pick n) held).2 := by
  cases row with
  | error message => exact .error _ message
  | ok row =>
      by_cases ok : admits held row .none = true
      · simp only [exec, dif_pos ok]
        exact .inserted row ok
      · simp only [exec, dif_neg ok]
        exact .error _ duplicateKey

theorem resave_executed (doc : Doc F) (paths : Row F) :
    Executed cast held (.resave doc paths) (exec cast (.resave doc paths) (.pick n) held).1
      (exec cast (.resave doc paths) (.pick n) held).2 := by
  cases seen : held.docs.find? fun stored => stored.id == doc.id with
  | none =>
      simp only [exec, seen]
      exact .error _ documentNotFound
  | some stored =>
      have named : stored.id = doc.id := by simpa using List.find?_some seen
      by_cases ok : admits held (overlay paths stored.row) (some stored.id) = true
      · simp only [exec, seen, dif_pos ok]
        exact .resaved doc paths stored (List.mem_of_find?_eq_some seen) named ok
      · simp only [exec, seen, dif_neg ok]
        exact .error _ duplicateKey

theorem remove_executed (path : F) (value : Js.Value) :
    Executed cast held (.findOneAndRemove path value) (exec cast (.findOneAndRemove path value) (.pick n) held).1
      (exec cast (.findOneAndRemove path value) (.pick n) held).2 := by
  cases seen : cast value with
  | error message =>
      simp only [exec, seen]
      exact .error _ message
  | ok condition =>
      rcases choose_cases n held path condition with ⟨picked, absent⟩ | ⟨doc, member, picked, holds⟩
      · simp only [exec, seen, picked]
        exact .unremoved path value condition seen absent
      · simp only [exec, seen, picked]
        exact .removed path value condition doc seen member holds

theorem update_executed (path : F) (value : Js.Value) (change : Change F) :
    Executed cast held (.update path value change) (exec cast (.update path value change) (.pick n) held).1
      (exec cast (.update path value change) (.pick n) held).2 := by
  cases change with
  | rejected message => exact .error _ message
  | empty =>
      cases seen : cast value with
      | error message =>
          simp only [exec, seen]
          exact .error _ message
      | ok condition =>
          simp only [exec, seen]
          exact .skipped path value condition seen
  | apply effect =>
      cases seen : cast value with
      | error message =>
          simp only [exec, seen]
          exact .error _ message
      | ok condition =>
          rcases choose_cases n held path condition with ⟨picked, absent⟩ | ⟨doc, member, picked, holds⟩
          · simp only [exec, seen, picked]
            exact .unmatched path value effect condition seen absent
          · by_cases ok : admits held (effect doc.row) (some doc.id) = true
            · simp only [exec, seen, picked, dif_pos ok]
              exact .updated path value effect condition doc _ seen member holds ok
            · simp only [exec, seen, picked, dif_neg ok]
              exact .error _ duplicateKey

end Commands

theorem exec_executed [Paths F] (cast : Js.Value → Except String Condition) (cmd : Cmd F) (choice : Choice)
    (held : Collection F key) :
    Executed cast held cmd (exec cast cmd choice held).1 (exec cast cmd choice held).2 := by
  cases choice with
  | fail message => cases cmd <;> exact .error _ message
  | pick n =>
      cases cmd with
      | findOne path value => exact find_one_executed cast n held path value
      | find condition => exact find_executed cast n held condition
      | insert row => exact insert_executed cast n held row
      | resave doc paths => exact resave_executed cast n held doc paths
      | findOneAndRemove path value => exact remove_executed cast n held path value
      | update path value change => exact update_executed cast n held path value change

section Facts

variable (cast : Js.Value → Except String Condition) (held next : Collection F key)

theorem failed_affected (cmd : Cmd F) (message : String) : affected cmd (failed cmd message) = 0 := by
  cases cmd <;> rfl

theorem failed_performed (cmd : Cmd F) (message : String) : performed cmd (failed cmd message) = false := by
  cases cmd <;> rfl

theorem executed_touched (cmd : Cmd F) (ans : Ans cmd) (done : Executed cast held cmd ans next) :
    Touched held next (affected cmd ans) := by
  cases done with
  | error cmd message =>
      rw [failed_affected]
      exact .same
  | missing | found | listedAll | listed | unremoved | skipped | unmatched => exact .same
  | inserted row ok => exact .pushed row ok
  | resaved doc paths stored member same ok => exact .replaced stored _ ok member
  | removed path value condition doc seen member holds => exact .removed doc member
  | updated path value effect condition doc changed seen member holds ok => exact .replaced doc _ ok member

-- An update reaches a document if it changes a path at all and its filter
-- selects one; any other command that goes through has reached its document.
def Matched : Cmd F → Prop
  | .update path value change =>
      (∃ effect, change = .apply effect) ∧ ∃ condition, cast value = .ok condition ∧
        ∃ doc ∈ held.docs, condition (doc.row path) = true
  | _ => True

theorem executed_matched (cmd : Cmd F) (ans : Ans cmd) (done : Executed cast held cmd ans next)
    (went : performed cmd ans = true) :
    affected cmd ans = 1 ↔ Matched cast held cmd := by
  cases done with
  | error cmd message =>
      rw [failed_performed] at went
      cases went
  | missing | found | listedAll | listed | unremoved => cases went
  | inserted | resaved | removed => exact ⟨fun _ => trivial, fun _ => rfl⟩
  | skipped path value condition seen =>
      refine ⟨fun one => absurd one (by simp [affected]), ?_⟩
      intro matched
      obtain ⟨⟨effect, same⟩, _⟩ := matched
      cases same
  | unmatched path value effect condition seen absent =>
      refine ⟨fun one => absurd one (by simp [affected]), ?_⟩
      intro matched
      obtain ⟨_, other, alsoSeen, doc, member, holds⟩ := matched
      cases seen.symm.trans alsoSeen
      rw [absent doc member] at holds
      cases holds
  | updated path value effect condition doc changed seen member holds ok =>
      exact ⟨fun _ => ⟨⟨effect, rfl⟩, condition, seen, doc, member, holds⟩, fun _ => rfl⟩

theorem executed_idle (cmd : Cmd F) (ans : Ans cmd) (done : Executed cast held cmd ans next)
    (idle : performed cmd ans = false) : next = held := by
  cases done with
  | error | missing | found | listedAll | listed | unremoved | skipped | unmatched => rfl
  | inserted | resaved | removed | updated => cases idle

theorem read_idle (cmd : Cmd F) (ans : Ans cmd) (reads : isWrite cmd = false) : performed cmd ans = false := by
  cases cmd with
  | findOne | find => rfl
  | insert | resave | findOneAndRemove | update => cases reads

theorem executed_keeps (cmd : Cmd F) (ans : Ans cmd) (done : Executed cast held cmd ans next) (kept : keeps cmd = true)
    (doc : Doc F) (member : doc ∈ held.docs) : doc ∈ next.docs := by
  cases done with
  | error | missing | found | listedAll | listed => exact member
  | inserted row ok => exact List.mem_append_left _ member
  | resaved | unremoved | removed | skipped | unmatched | updated => cases kept

theorem executed_next (cmd : Cmd F) (ans : Ans cmd) (done : Executed cast held cmd ans next) : held.next ≤ next.next := by
  cases done with
  | inserted row ok => exact Nat.le_succ held.next
  | _ => exact Nat.le_refl held.next

theorem executed_found (path : F) (value : Js.Value) (doc : Doc F)
    (done : Executed cast held (.findOne path value) (.ok (some doc)) next) :
    doc ∈ held.docs ∧ ∃ condition, cast value = .ok condition ∧ condition (doc.row path) = true := by
  cases done with
  | found _ _ condition _ seen member holds => exact ⟨member, condition, seen, holds⟩

theorem executed_missing (path : F) (value : Js.Value) (done : Executed cast held (.findOne path value) (.ok none) next) :
    ∃ condition, cast value = .ok condition ∧ ∀ doc ∈ held.docs, condition (doc.row path) = false := by
  cases done with
  | missing _ _ condition seen absent => exact ⟨condition, seen, absent⟩

theorem executed_inserted (row : Except String (Row F)) (doc : Doc F) (done : Executed cast held (.insert row) (.ok doc) next) :
    ∃ given, ∃ ok : admits held given .none = true, row = .ok given ∧ doc = ⟨held.next, given⟩ ∧ next = held.push given ok := by
  cases done with
  | inserted given ok => exact ⟨given, ok, rfl, rfl, rfl⟩

theorem executed_resaved (given doc : Doc F) (paths : Row F) (done : Executed cast held (.resave given paths) (.ok doc) next) :
    ∃ stored ∈ held.docs, ∃ ok : admits held (overlay paths stored.row) (some stored.id) = true, stored.id = given.id ∧
      doc = ⟨given.id, overlay paths given.row⟩ ∧ next = held.replace stored.id (overlay paths stored.row) ok := by
  cases done with
  | resaved _ _ stored member same ok => exact ⟨stored, member, ok, same, rfl, rfl⟩

theorem executed_removed (path : F) (value : Js.Value) (doc : Doc F)
    (done : Executed cast held (.findOneAndRemove path value) (.ok (some doc)) next) :
    doc ∈ held.docs ∧ (∃ condition, cast value = .ok condition ∧ condition (doc.row path) = true) ∧
    next = held.remove doc.id := by
  cases done with
  | removed _ _ condition _ seen member holds => exact ⟨member, ⟨condition, seen, holds⟩, rfl⟩

theorem find_one_found [Paths F] (path : F) (value : Js.Value) (choice : Choice) (doc : Doc F)
    (found : (exec cast (.findOne path value) choice held).1 = .ok (some doc)) :
    doc ∈ held.docs ∧ ∃ condition, cast value = .ok condition ∧ condition (doc.row path) = true := by
  have done := exec_executed cast (.findOne path value) choice held
  rw [found] at done
  exact executed_found cast held _ path value doc done

theorem find_one_reaches [Paths F] (path : F) (value : Js.Value) (condition : Condition) (doc : Doc F)
    (seen : cast value = .ok condition) (member : doc ∈ held.docs) (holds : condition (doc.row path) = true) :
    ∃ n, (exec cast (.findOne path value) (.pick n) held).1 = .ok (some doc) := by
  obtain ⟨n, bound, here⟩ := List.getElem_of_mem ((matching_mem held path condition doc).mpr ⟨member, holds⟩)
  refine ⟨n, ?_⟩
  simp only [exec, seen, choose, Nat.mod_eq_of_lt bound, List.getElem?_eq_getElem bound, here]

theorem find_one_some [Paths F] (path : F) (value : Js.Value) (condition : Condition) (doc : Doc F) (n : Nat)
    (seen : cast value = .ok condition) (member : doc ∈ held.docs) (holds : condition (doc.row path) = true) :
    ∃ other, (exec cast (.findOne path value) (.pick n) held).1 = .ok (some other) := by
  simp only [exec, seen]
  cases picked : choose n (matching held path condition) with
  | some other => exact ⟨other, rfl⟩
  | none =>
      have absent := matching_none held path condition ((choose_none _ _).mp picked) doc member
      rw [absent] at holds
      cases holds

theorem insert_unindexed [Paths F] (n : Nat) (held : Collection F none) (row : Row F) :
    ∃ after, exec cast (.insert (.ok row)) (.pick n) held = (.ok ⟨held.next, row⟩, after) :=
  ⟨held.push row rfl, by simp [exec, admits]⟩

theorem resave_unindexed [Paths F] (n : Nat) (held : Collection F none) (doc : Doc F) (member : doc ∈ held.docs) (paths : Row F) :
    ∃ after, exec cast (.resave doc paths) (.pick n) held = (.ok ⟨doc.id, overlay paths doc.row⟩, after) := by
  cases seen : held.docs.find? fun stored => stored.id == doc.id with
  | none => simpa using List.find?_eq_none.mp seen doc member
  | some stored =>
      refine ⟨held.replace stored.id (overlay paths stored.row) rfl, ?_⟩
      simp [exec, seen, admits]

def inserted : (cmd : Cmd F) → Ans cmd → Bool
  | .insert _, .ok _ => true
  | _, _ => false

def removed : (cmd : Cmd F) → Ans cmd → Bool
  | .findOneAndRemove _ _, .ok (some _) => true
  | _, _ => false

theorem idle_inserted (cmd : Cmd F) (ans : Ans cmd) (idle : performed cmd ans = false) : inserted cmd ans = false := by
  cases cmd with
  | insert row => cases ans <;> first | rfl | cases idle
  | _ => rfl

theorem idle_removed (cmd : Cmd F) (ans : Ans cmd) (idle : performed cmd ans = false) : removed cmd ans = false := by
  cases cmd with
  | findOneAndRemove path value => rcases ans with _ | _ | _ <;> first | rfl | cases idle
  | _ => rfl

theorem remove_length (doc : Doc F) (member : doc ∈ held.docs) : (held.remove doc.id).docs.length + 1 = held.docs.length := by
  have apart : held.docs.Pairwise fun x y => x.id ≠ y.id := List.pairwise_map.mp held.distinct
  obtain ⟨before, after, split⟩ := List.append_of_mem member
  rw [split, List.pairwise_append, List.pairwise_cons] at apart
  have left : before.filter (fun other => other.id != doc.id) = before :=
    List.filter_eq_self.mpr fun other inBefore => by simpa using apart.2.2 other inBefore doc List.mem_cons_self
  have right : after.filter (fun other => other.id != doc.id) = after :=
    List.filter_eq_self.mpr fun other inAfter => by simpa using Ne.symm (apart.2.1.1 other inAfter)
  simp [Collection.remove, split, left, right]
  omega

theorem executed_length (cmd : Cmd F) (ans : Ans cmd) (done : Executed cast held cmd ans next) :
    next.docs.length + (removed cmd ans).toNat = held.docs.length + (inserted cmd ans).toNat := by
  cases done with
  | error cmd message => cases cmd <;> rfl
  | missing | found | listedAll | listed | unremoved | skipped | unmatched => rfl
  | inserted row ok => simp [Collection.push, removed, inserted]
  | removed path value condition doc seen member holds => exact remove_length held doc member
  | resaved | updated => simp [Collection.replace, removed, inserted]

-- The documents a command can leave behind that were not there before.
def Written (doc : Doc F) : Cmd F → Prop
  | .insert (.ok row) => doc = ⟨held.next, row⟩
  | .resave given paths => ∃ old ∈ held.docs, old.id = given.id ∧ doc = ⟨old.id, overlay paths old.row⟩
  | .update _ _ (.apply effect) => ∃ old ∈ held.docs, doc = ⟨old.id, effect old.row⟩
  | _ => False

theorem executed_docs (cmd : Cmd F) (ans : Ans cmd) (done : Executed cast held cmd ans next) (doc : Doc F)
    (member : doc ∈ next.docs) : doc ∈ held.docs ∨ Written held doc cmd := by
  cases done with
  | error | missing | found | listedAll | listed | unremoved | skipped | unmatched => exact .inl member
  | inserted row ok => exact (mem_push held row ok doc).mp member
  | resaved given paths stored here same ok =>
      rcases (mem_replace held _ _ ok doc).mp member with old | new
      · exact .inl old.1
      · exact .inr ⟨stored, here, same, new.1⟩
  | removed path value condition found seen here holds => exact .inl ((mem_remove held found.id doc).mp member).1
  | updated path value effect condition found changed seen here holds ok =>
      rcases (mem_replace held _ _ ok doc).mp member with old | new
      · exact .inl old.1
      · exact .inr ⟨found, here, new.1⟩

end Facts

end Docs
