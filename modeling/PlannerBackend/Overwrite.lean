import Mathlib.Data.List.Pairwise
import PlannerBackend.Effects

set_option autoImplicit false

namespace Docs

variable {F : Type} {key : Option F}

-- A JSON object without operators.
def Plain (body : Js.Value) : Prop := ∃ fields, body = .obj fields ∧ ∀ entry ∈ fields, entry.1.toList.head? ≠ some '$'

section Bodies

variable [Paths F] (cast : F → Js.Value → Except String Scalar)

def Names (body : Js.Value) (path : F) : Prop := Js.isUndefined (body.get (Paths.label path)) = false

instance (body : Js.Value) (path : F) : Decidable (Names body path) :=
  inferInstanceAs (Decidable (Js.isUndefined (body.get (Paths.label path)) = false))

def valuesOf (body : Js.Value) : Row F := fun path =>
  if Js.isUndefined (body.get (Paths.label path)) then none else (cast path (body.get (Paths.label path))).toOption

theorem unnamed_unset (body : Js.Value) (path : F) (unnamed : ¬ Names body path) : valuesOf cast body path = none := by
  have undefined : Js.isUndefined (body.get (Paths.label path)) = true := by simpa [Names] using unnamed
  simp [valuesOf, undefined]

-- Mongoose sets exactly the paths that a plain body names, to its values cast
-- to their types, or rejects the update.
inductive Sets (body : Js.Value) : Change F → Prop where
  | rejected (message : String) : Sets body (.rejected message)
  | empty (unnamed : ∀ path : F, ¬ Names body path) : Sets body .empty
  | apply (fits : ∀ path : F, Names body path → ∃ scalar, cast path (body.get (Paths.label path)) = .ok scalar) :
      Sets body (.apply (overlay (valuesOf cast body)))

def UpdatesBy (change : Js.Value → Change F) : Prop := ∀ body, Plain body → Sets cast body (change body)

theorem applied_values (change : Js.Value → Change F) (updates : UpdatesBy cast change) (body : Js.Value) (plain : Plain body)
    (effect : Row F → Row F) (applied : change body = .apply effect) : effect = overlay (valuesOf cast body) := by
  have sets := updates body plain
  rw [applied] at sets
  cases sets
  rfl

end Bodies

-- A condition on rows, path by path.
def Fits (ok : F → Option Scalar → Prop) (row : Row F) : Prop := ∀ path, ok path (row path)

def FitsWhereSet (ok : F → Option Scalar → Prop) (row : Row F) : Prop := ∀ path, row path = none ∨ ok path (row path)

theorem fits_overlay (ok : F → Option Scalar → Prop) (upper lower : Row F) (set : FitsWhereSet ok upper) (fits : Fits ok lower) :
    Fits ok (overlay upper lower) := by
  intro path
  rcases set path with unset | good
  · simpa [overlay, unset] using fits path
  · cases here : upper path with
    | none => simpa [overlay, here] using fits path
    | some scalar => simpa [overlay, here] using good

-- The commands that leave only rows of the kind behind.
def Preserves (kind : Row F → Prop) : Cmd F → Prop
  | .insert (.ok row) => kind row
  | .resave _ paths => ∀ row, kind row → kind (overlay paths row)
  | .update _ _ (.apply effect) => ∀ row, kind row → kind (effect row)
  | _ => True

theorem executed_preserves (kind : Row F → Prop) (cast : Js.Value → Except String Condition) (held next : Collection F key)
    (cmd : Cmd F) (ans : Ans cmd) (done : Executed cast held cmd ans next) (preserves : Preserves kind cmd)
    (all : ∀ doc ∈ held.docs, kind doc.row) (doc : Doc F) (member : doc ∈ next.docs) : kind doc.row := by
  rcases executed_docs cast held next cmd ans done doc member with old | written
  · exact all doc old
  · cases cmd with
    | findOne | find | findOneAndRemove => cases written
    | insert row =>
        cases row with
        | error message => cases written
        | ok row =>
            obtain rfl := written
            exact preserves
    | resave given paths =>
        obtain ⟨old, inHeld, _, rfl⟩ := written
        exact preserves old.row (all old inHeld)
    | update path value change =>
        cases change with
        | rejected | empty => cases written
        | apply effect =>
            obtain ⟨old, inHeld, rfl⟩ := written
            exact preserves old.row (all old inHeld)

section Replay

def Change.on : Change F → Row F → Row F
  | .apply effect, row => effect row
  | _, row => row

-- Changes newest first.
def replay (changes : List (Change F)) (row : Row F) : Row F := changes.foldr Change.on row

def rewritten (docs : List (Doc F)) (id : Nat) (row : Row F) : List (Doc F) :=
  docs.map fun doc => if doc.id = id then ⟨id, row⟩ else doc

theorem rewritten_twice (docs : List (Doc F)) (id : Nat) (first second : Row F) :
    rewritten (rewritten docs id first) id second = rewritten docs id second := by
  simp only [rewritten, List.map_map]
  apply List.map_congr_left
  intro doc _
  by_cases same : doc.id = id <;> simp [same]

theorem rewritten_self (held : Collection F key) (doc : Doc F) (member : doc ∈ held.docs) :
    rewritten held.docs doc.id doc.row = held.docs := by
  refine Eq.trans (List.map_congr_left ?_) (List.map_id held.docs)
  intro other inHeld
  by_cases same : other.id = doc.id
  · rw [if_pos same, same_id_same_doc held other doc inHeld member same]
    rfl
  · rw [if_neg same]
    rfl

theorem mem_rewritten (docs : List (Doc F)) (doc : Doc F) (member : doc ∈ docs) (row : Row F) :
    ⟨doc.id, row⟩ ∈ rewritten docs doc.id row :=
  List.mem_map.mpr ⟨doc, member, by simp⟩

theorem rewritten_injective (docs : List (Doc F)) (doc : Doc F) (member : doc ∈ docs) (first second : Row F)
    (same : rewritten docs doc.id first = rewritten docs doc.id second) : first = second := by
  have here := mem_rewritten docs doc member first
  rw [same] at here
  obtain ⟨other, _, written⟩ := List.mem_map.mp here
  by_cases named : other.id = doc.id
  · rw [if_pos named] at written
    cases written
    rfl
  · rw [if_neg named] at written
    subst written
    exact absurd rfl named

def acknowledgedChange : (cmd : Cmd F) → Ans cmd → Option (Change F)
  | .update _ _ change, .ok _ => some change
  | _, _ => none

theorem idle_unchanged (cmd : Cmd F) (ans : Ans cmd) (idle : performed cmd ans = false) : acknowledgedChange cmd ans = none := by
  cases cmd with
  | update path value change => cases ans <;> first | rfl | cases idle
  | _ => rfl

theorem acknowledged_update (cmd : Cmd F) (ans : Ans cmd) (change : Change F) (made : acknowledgedChange cmd ans = some change) :
    ∃ path value, cmd = .update path value change := by
  cases cmd with
  | update path value given =>
      cases ans with
      | error => cases made
      | ok =>
          cases made
          exact ⟨path, value, rfl⟩
  | _ => cases made

theorem executed_accepted (cast : Js.Value → Except String Condition) (held next : Collection F key) (cmd : Cmd F) (ans : Ans cmd)
    (done : Executed cast held cmd ans next) (change : Change F)
    (made : acknowledgedChange cmd ans = some change) (message : String) :
    change ≠ .rejected message := by
  intro rejected
  subst rejected
  cases done with
  | error cmd message => cases cmd <;> cases made
  | missing | found | listedAll | listed | inserted | resaved | unremoved | removed | skipped | unmatched | updated => cases made

section Bodies

variable [Paths F] (cast : F → Js.Value → Except String Scalar) (body : Js.Value) (change : Change F)
  (sets : Sets cast body change)

include sets

theorem unnamed_kept (path : F) (unnamed : ¬ Names body path) (row : Row F) : change.on row path = row path := by
  cases sets with
  | rejected | empty => rfl
  | apply fits => simp [Change.on, overlay, unnamed_unset cast body path unnamed]

theorem accepted_overlays (accepted : ∀ message, change ≠ .rejected message) (row : Row F) :
    change.on row = overlay (valuesOf cast body) row := by
  cases sets with
  | rejected message => exact absurd rfl (accepted message)
  | apply fits => rfl
  | empty unnamed =>
      funext path
      simp [Change.on, overlay, unnamed_unset cast body path (unnamed path)]

end Bodies

theorem overlay_comm (a b base : Row F) (apart : ∀ path, a path = none ∨ b path = none) :
    overlay a (overlay b base) = overlay b (overlay a base) := by
  funext path
  rcases apart path with unset | unset <;> simp [overlay, unset]

-- Steps that commute pairwise may be taken in any order.
theorem foldr_perm {α β : Type} (f : α → β → β) (xs ys : List α) (commute : ys.Pairwise fun a b => ∀ z, f a (f b z) = f b (f a z))
    (same : xs.Perm ys) (z : β) : xs.foldr f z = ys.foldr f z := by
  have symmetric : Std.Symm fun a b => ∀ z, f a (f b z) = f b (f a z) := ⟨fun _ _ swap z => (swap z).symm⟩
  apply same.foldr_eq'
  intro a inA b inB
  exact commute.forall_of_forall (fun _ _ _ => rfl) (same.mem_iff.mp inB) (same.mem_iff.mp inA)

-- Updates that name no path in common leave the row overwritten by all their
-- bodies, in whatever order they were made.
theorem replay_disjoint [Paths F] (cast : F → Js.Value → Except String Scalar) (change : Js.Value → Change F)
    (updates : UpdatesBy cast change) (bodies : List Js.Value) (plain : ∀ body ∈ bodies, Plain body)
    (accepted : ∀ body ∈ bodies, ∀ message, change body ≠ .rejected message)
    (apart : bodies.Pairwise fun a b => ∀ path : F, ¬ (Names a path ∧ Names b path)) (changes : List (Change F))
    (made : changes.Perm (bodies.map change)) (order : List Js.Value) (reordered : order.Perm bodies) (row : Row F) :
    replay changes row = (order.map (valuesOf cast)).foldr overlay row := by
  have overlays : ∀ body ∈ bodies, ∀ row, (change body).on row = overlay (valuesOf cast body) row := by
    intro body member
    exact accepted_overlays cast body _ (updates body (plain body member)) (accepted body member)
  have commute : bodies.Pairwise fun a b => ∀ row, (change a).on ((change b).on row) = (change b).on ((change a).on row) := by
    refine apart.imp_of_mem ?_
    intro a b inA inB disjoint row
    rw [overlays a inA, overlays b inB, overlays b inB, overlays a inA]
    apply overlay_comm
    intro path
    by_cases named : Names a path
    · exact .inr (unnamed_unset cast b path fun also => disjoint path ⟨named, also⟩)
    · exact .inl (unnamed_unset cast a path named)
  have replayed : replay changes row = (order.map change).foldr Change.on row := by
    rw [replay, foldr_perm Change.on changes _ (List.pairwise_map.mpr commute) made]
    exact (foldr_perm Change.on _ _ (List.pairwise_map.mpr commute) (reordered.map change) row).symm
  rw [replayed, List.foldr_map, List.foldr_map]
  have within : ∀ body ∈ order, body ∈ bodies := fun body member => reordered.mem_iff.mp member
  clear replayed reordered
  induction order with
  | nil => rfl
  | cons body rest ih =>
      rw [List.foldr_cons, List.foldr_cons, ih fun other member => within other (List.mem_cons_of_mem _ member)]
      exact overlays body (within body List.mem_cons_self) _

variable (cast : Js.Value → Except String Condition) (path : F) (held next : Collection F (some path)) (base : List (Doc F))
  (doc : Doc F) (row : Row F) (name : String) (docs : held.docs = rewritten base doc.id row) (member : doc ∈ base)
      (named : row path = some (.str name))

include docs member named

-- An update under the unique key of a record reaches that record and no other.
theorem update_rewrites (condition : Condition) (seen : cast (.str name) = .ok condition)
    (exact_ : ∀ stored, condition stored = true ↔ stored = some (.str name)) (change : Change F)
    (ans : Ans (.update path (.str name) change)) (done : Executed cast held (.update path (.str name) change) ans next) :
    next.docs = rewritten base doc.id (replay (acknowledgedChange _ ans).toList row) := by
  have here : ⟨doc.id, row⟩ ∈ held.docs := by
    rw [docs]
    exact mem_rewritten base doc member row
  cases done with
  | error _ message => exact docs
  | skipped => exact docs
  | unmatched _ _ effect other alsoSeen absent =>
      cases seen.symm.trans alsoSeen
      have holds := (exact_ _).mpr named
      rw [absent _ here] at holds
      cases holds
  | updated _ _ effect other found changed alsoSeen inHeld holds ok =>
      cases seen.symm.trans alsoSeen
      obtain rfl := same_index_same_doc held path rfl found ⟨doc.id, row⟩ inHeld here (((exact_ _).mp holds).trans named.symm)
      change rewritten held.docs doc.id (effect row) = _
      rw [docs, rewritten_twice]
      rfl

-- An update that writes the unique key of a record, under a filter that
-- selects it, reaches that record or fails.
theorem keyed_rewrites (filter : F) (value : Js.Value) (condition : Condition) (seen : cast value = .ok condition)
    (selects : condition (row filter) = true) (effect : Row F → Row F) (writes : ∀ other, effect other path = some (.str name))
    (ans : Ans (.update filter value (.apply effect)))
    (done : Executed cast held (.update filter value (.apply effect)) ans next) :
    next.docs = rewritten base doc.id (replay (acknowledgedChange _ ans).toList row) := by
  have here : ⟨doc.id, row⟩ ∈ held.docs := by
    rw [docs]
    exact mem_rewritten base doc member row
  cases done with
  | error _ message => exact docs
  | unmatched _ _ _ other alsoSeen absent =>
      cases seen.symm.trans alsoSeen
      rw [absent _ here] at selects
      cases selects
  | updated _ _ _ other found changed alsoSeen inHeld holds ok =>
      have same : found = ⟨doc.id, row⟩ := by
        apply same_id_same_doc held found _ inHeld here
        apply Classical.byContradiction
        intro different
        apply admits_index held _ _ path rfl ok _ here (by simpa using Ne.symm different)
        exact congrArg indexEntry (named.trans (writes found.row).symm)
      subst same
      change rewritten held.docs doc.id (effect row) = _
      rw [docs, rewritten_twice]
      rfl

theorem executed_rewrites (condition : Condition) (seen : cast (.str name) = .ok condition)
    (exact_ : ∀ stored, condition stored = true ↔ stored = some (.str name)) (cmd : Cmd F) (ans : Ans cmd)
    (done : Executed cast held cmd ans next) (only : isWrite cmd = false ∨ ∃ change, cmd = .update path (.str name) change) :
    next.docs = rewritten base doc.id (replay (acknowledgedChange cmd ans).toList row) := by
  rcases only with reads | ⟨change, rfl⟩
  · rw [executed_idle cast held next cmd ans done (read_idle cmd ans reads)]
    cases cmd with
    | findOne | find => exact docs
    | _ => cases reads
  · exact update_rewrites cast path held next base doc row name docs member named condition seen exact_ change ans done

end Replay

section InPlace

variable (held : Collection F key) (doc : Doc F) (member : doc ∈ held.docs) (row : Row F)

theorem choose_map {α β : Type} (f : α → β) (n : Nat) (xs : List α) : choose n (xs.map f) = (choose n xs).map f := by
  simp [choose]

include member

-- A record may be overwritten by any row with its own key.
theorem admits_in_place (same : ∀ path, key = some path → row path = doc.row path) : admits held row (some doc.id) = true := by
  unfold admits
  cases key with
  | none => rfl
  | some path =>
      apply List.all_eq_true.mpr
      intro other inside
      by_cases own : other.id = doc.id
      · simp [own]
      · have apart : indexEntry (other.row path) ≠ indexEntry (doc.row path) := by
          intro equal
          exact own (congrArg Doc.id (distinct_images _ held.docs (held.indexed path rfl) other doc inside member equal))
        simp [same path rfl, apart]

-- It is then selected where it was selected before.
theorem matching_in_place (ok : admits held row (some doc.id) = true) (path : F) (condition : Condition)
    (same : row path = doc.row path) :
    matching (held.replace doc.id row ok) path condition =
      (matching held path condition).map fun other => if other.id = doc.id then ⟨doc.id, row⟩ else other := by
  change (held.docs.map fun other => if other.id = doc.id then ⟨doc.id, row⟩ else other).filter _ = _
  rw [List.filter_map]
  apply congrArg (List.map _)
  apply List.filter_congr
  intro other inside
  by_cases own : other.id = doc.id
  · obtain rfl := same_id_same_doc held other doc inside member own
    simp [same]
  · simp [own]

end InPlace

end Docs
