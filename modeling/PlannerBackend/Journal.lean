import Mathlib.Logic.Function.Basic
import PlannerBackend.Effects

set_option autoImplicit false

namespace Docs

variable {F : Type} {path : F}

-- A collection seen as a map from the entries of its unique index to rows.
abbrev Rows (F : Type) := Scalar → Option (Row F)

def contents (held : Collection F (some path)) : Rows F := fun entry =>
  (held.docs.find? fun doc => indexEntry (doc.row path) == entry).map Doc.row

theorem same_entry_same_doc (held : Collection F (some path)) (a b : Doc F) (inA : a ∈ held.docs) (inB : b ∈ held.docs)
    (same : indexEntry (a.row path) = indexEntry (b.row path)) : a = b :=
  distinct_images (fun doc => indexEntry (doc.row path)) held.docs (held.indexed path rfl) a b inA inB same

theorem contents_some (held : Collection F (some path)) (entry : Scalar) (row : Row F) :
    contents held entry = some row ↔ ∃ doc ∈ held.docs, indexEntry (doc.row path) = entry ∧ doc.row = row := by
  constructor
  · intro there
    obtain ⟨doc, found, rfl⟩ := Option.map_eq_some_iff.mp there
    exact ⟨doc, List.mem_of_find?_eq_some found, by simpa using List.find?_some found, rfl⟩
  · rintro ⟨doc, member, named, rfl⟩
    cases found : held.docs.find? fun doc => indexEntry (doc.row path) == entry with
    | none => exact absurd named (by simpa using List.find?_eq_none.mp found doc member)
    | some other =>
        have there : indexEntry (other.row path) = entry := by simpa using List.find?_some found
        rw [contents, found, same_entry_same_doc held other doc (List.mem_of_find?_eq_some found) member (there.trans named.symm)]
        rfl

theorem contents_none (held : Collection F (some path)) (entry : Scalar) :
    contents held entry = none ↔ ∀ doc ∈ held.docs, indexEntry (doc.row path) ≠ entry := by
  simp [contents]

theorem contents_member (held : Collection F (some path)) (doc : Doc F) (member : doc ∈ held.docs) :
    contents held (indexEntry (doc.row path)) = some doc.row :=
  (contents_some held _ _).mpr ⟨doc, member, rfl, rfl⟩

-- Two maps that hold the same rows under the same entries.
theorem contents_ext (held : Collection F (some path)) (rows : Rows F)
    (same : ∀ entry row, rows entry = some row ↔ ∃ doc ∈ held.docs, indexEntry (doc.row path) = entry ∧ doc.row = row) :
    contents held = rows := by
  funext entry
  apply Option.ext
  intro row
  rw [contents_some, same]

theorem contents_push (held : Collection F (some path)) (row : Row F) (ok : admits held row none = true) :
    contents (held.push row ok) = Function.update (contents held) (indexEntry (row path)) (some row) := by
  apply contents_ext
  intro entry other
  by_cases here : entry = indexEntry (row path)
  · subst here
    rw [Function.update_self]
    constructor
    · rintro ⟨⟩
      exact ⟨⟨held.next, row⟩, (mem_push held row ok _).mpr (.inr rfl), rfl, rfl⟩
    · rintro ⟨doc, member, named, rfl⟩
      rcases (mem_push held row ok doc).mp member with old | rfl
      · exact absurd named (admits_index held row none path rfl ok doc old (by simp))
      · rfl
  · rw [Function.update_of_ne here, contents_some]
    constructor
    · rintro ⟨doc, member, named, rfl⟩
      exact ⟨doc, (mem_push held row ok doc).mpr (.inl member), named, rfl⟩
    · rintro ⟨doc, member, named, rfl⟩
      rcases (mem_push held row ok doc).mp member with old | rfl
      · exact ⟨doc, old, named, rfl⟩
      · exact absurd named.symm here

theorem contents_remove (held : Collection F (some path)) (doc : Doc F) (member : doc ∈ held.docs) :
    contents (held.remove doc.id) = Function.update (contents held) (indexEntry (doc.row path)) none := by
  apply contents_ext
  intro entry row
  by_cases here : entry = indexEntry (doc.row path)
  · subst here
    rw [Function.update_self]
    constructor
    · intro there
      cases there
    · rintro ⟨other, inNext, named, rfl⟩
      obtain ⟨old, different⟩ := (mem_remove held doc.id other).mp inNext
      exact absurd (congrArg Doc.id (same_entry_same_doc held other doc old member named)) different
  · rw [Function.update_of_ne here, contents_some]
    constructor
    · rintro ⟨other, old, named, rfl⟩
      refine ⟨other, (mem_remove held doc.id other).mpr ⟨old, ?_⟩, named, rfl⟩
      intro same
      exact here (named.symm.trans (by rw [same_id_same_doc held other doc old member same]))
    · rintro ⟨other, inNext, named, rfl⟩
      exact ⟨other, ((mem_remove held doc.id other).mp inNext).1, named, rfl⟩

-- The row under one entry is rewritten, and moves if its own entry changes.
def Rows.rewrite (rows : Rows F) (path : F) (entry : Scalar) (effect : Row F → Row F) : Rows F :=
  match rows entry with
  | none => rows
  | some row => Function.update (Function.update rows entry none) (indexEntry (effect row path)) (some (effect row))

theorem contents_replace (held : Collection F (some path)) (doc : Doc F) (member : doc ∈ held.docs) (effect : Row F → Row F)
    (ok : admits held (effect doc.row) (some doc.id) = true) :
    contents (held.replace doc.id (effect doc.row) ok) = (contents held).rewrite path (indexEntry (doc.row path)) effect := by
  simp only [Rows.rewrite, contents_member held doc member]
  apply contents_ext
  intro entry row
  have others : ∀ other ∈ held.docs, other.id ≠ doc.id → indexEntry (other.row path) ≠ indexEntry (doc.row path) :=
    fun other old different same => different (congrArg Doc.id (same_entry_same_doc held other doc old member same))
  have free : ∀ other ∈ held.docs, other.id ≠ doc.id → indexEntry (other.row path) ≠ indexEntry (effect doc.row path) :=
    fun other old different => admits_index held _ _ path rfl ok other old (by simpa using different)
  by_cases here : entry = indexEntry (effect doc.row path)
  · subst here
    rw [Function.update_self]
    constructor
    · rintro ⟨⟩
      exact ⟨⟨doc.id, effect doc.row⟩, (mem_replace held doc.id _ ok _).mpr (.inr ⟨rfl, doc, member, rfl⟩), rfl, rfl⟩
    · rintro ⟨other, inNext, named, rfl⟩
      rcases (mem_replace held doc.id _ ok other).mp inNext with ⟨old, different⟩ | ⟨rfl, _⟩
      · exact absurd named (free other old different)
      · rfl
  · rw [Function.update_of_ne here]
    by_cases there : entry = indexEntry (doc.row path)
    · subst there
      rw [Function.update_self]
      constructor
      · intro absurdity
        cases absurdity
      · rintro ⟨other, inNext, named, rfl⟩
        rcases (mem_replace held doc.id _ ok other).mp inNext with ⟨old, different⟩ | ⟨rfl, _⟩
        · exact absurd named (others other old different)
        · exact absurd named.symm here
    · rw [Function.update_of_ne there, contents_some]
      constructor
      · rintro ⟨other, old, named, rfl⟩
        refine ⟨other, (mem_replace held doc.id _ ok other).mpr (.inl ⟨old, ?_⟩), named, rfl⟩
        intro same
        exact there (named.symm.trans (by rw [same_id_same_doc held other doc old member same]))
      · rintro ⟨other, inNext, named, rfl⟩
        rcases (mem_replace held doc.id _ ok other).mp inNext with ⟨old, _⟩ | ⟨rfl, _⟩
        · exact ⟨other, old, named, rfl⟩
        · exact absurd named.symm here

-- A query by a string finds the rows that have exactly this string.
def ByString (cast : Js.Value → Except String Condition) (s : String) : Prop :=
  ∃ condition, cast (.str s) = .ok condition ∧ ∀ stored, condition stored = true ↔ stored = some (.str s)

section Executed

variable (cast : Js.Value → Except String Condition) (held next : Collection F (some path))

theorem inserted_contents (row : Except String (Row F)) (doc : Doc F) (done : Executed cast held (.insert row) (.ok doc) next) :
    contents held (indexEntry (doc.row path)) = none := by
  cases done with
  | inserted row ok =>
      exact (contents_none held _).mpr fun other old => admits_index held row none path rfl ok other old (by simp)

variable (s : String) (byString : ByString cast s)

include byString

theorem by_string_holds (condition : Condition) (seen : cast (.str s) = .ok condition) (doc : Doc F) (member : doc ∈ held.docs)
    (holds : condition (doc.row path) = true) : some doc.row = contents held (.str s) := by
  obtain ⟨_, same, iff⟩ := byString
  cases seen.symm.trans same
  have entry : indexEntry (doc.row path) = .str s := by rw [(iff _).mp holds]; rfl
  rw [← entry, contents_member held doc member]

theorem by_string_absent (condition : Condition) (seen : cast (.str s) = .ok condition)
    (absent : ∀ doc ∈ held.docs, condition (doc.row path) = false) : none = contents held (.str s) := by
  obtain ⟨_, same, iff⟩ := byString
  cases seen.symm.trans same
  symm
  rw [contents_none]
  intro doc member named
  have stored : doc.row path = some (.str s) := by
    cases value : doc.row path with
    | none => simp [indexEntry, value] at named
    | some scalar => simpa [indexEntry, value] using named
  have holds := (iff _).mpr stored
  rw [absent doc member] at holds
  cases holds

theorem found_contents (found : Option (Doc F)) (done : Executed cast held (.findOne path (.str s)) (.ok found) next) :
    found.map Doc.row = contents held (.str s) := by
  cases done with
  | missing _ _ condition seen absent => exact by_string_absent cast held s byString condition seen absent
  | found _ _ condition doc seen member holds => exact by_string_holds cast held s byString condition seen doc member holds

theorem listed_contents (other : F) (docs : List (Doc F))
    (done : Executed cast held (.find (some (other, .str s))) (.ok docs) next) (row : Row F) :
    row ∈ docs.map Doc.row ↔ (∃ entry, contents held entry = some row) ∧ row other = some (.str s) := by
  obtain ⟨_, same, iff⟩ := byString
  cases done with
  | listed _ _ condition seen =>
      cases seen.symm.trans same
      constructor
      · intro listed
        obtain ⟨doc, member, rfl⟩ := List.mem_map.mp listed
        obtain ⟨old, holds⟩ := (matching_mem held other _ doc).mp member
        exact ⟨⟨_, contents_member held doc old⟩, (iff _).mp holds⟩
      · rintro ⟨⟨entry, there⟩, named⟩
        obtain ⟨doc, member, _, rfl⟩ := (contents_some held entry row).mp there
        exact List.mem_map.mpr ⟨doc, (matching_mem held other _ doc).mpr ⟨member, (iff _).mpr named⟩, rfl⟩

end Executed

-- The command does not touch the document, whatever else it does.
def Spares (cast : Js.Value → Except String Condition) (doc : Doc F) : Cmd F → Prop
  | .findOneAndRemove path value => ∀ condition, cast value = .ok condition → condition (doc.row path) = false
  | .update path value _ => ∀ condition, cast value = .ok condition → condition (doc.row path) = false
  | .resave given _ => given.id ≠ doc.id
  | _ => True

theorem executed_spares {key : Option F} (cast : Js.Value → Except String Condition) (held next : Collection F key) (cmd : Cmd F)
    (ans : Ans cmd) (done : Executed cast held cmd ans next) (doc : Doc F) (spares : Spares cast doc cmd)
    (member : doc ∈ held.docs) :
    doc ∈ next.docs := by
  cases done with
  | inserted row ok => exact (mem_push held row ok doc).mpr (.inl member)
  | resaved given paths stored inHeld same ok =>
      exact (mem_replace held stored.id _ ok doc).mpr (.inl ⟨member, fun own => spares (same.symm.trans own.symm)⟩)
  | removed path value condition found seen inHeld holds =>
      refine (mem_remove held found.id doc).mpr ⟨member, ?_⟩
      intro own
      rw [← same_id_same_doc held doc found member inHeld own, spares condition seen] at holds
      cases holds
  | updated path value effect condition found changed seen inHeld holds ok =>
      refine (mem_replace held found.id _ ok doc).mpr (.inl ⟨member, ?_⟩)
      intro own
      rw [← same_id_same_doc held doc found member inHeld own, spares condition seen] at holds
      cases holds
  | _ => exact member

def Rows.count (rows : Rows F) (entry : Scalar) : Nat := if (rows entry).isSome then 1 else 0

def insertedAt (path : F) (entry : Scalar) : (cmd : Cmd F) → Ans cmd → Bool
  | .insert _, .ok doc => indexEntry (doc.row path) == entry
  | _, _ => false

def removedAt (path : F) (entry : Scalar) : (cmd : Cmd F) → Ans cmd → Bool
  | .findOneAndRemove _ _, .ok (some doc) => indexEntry (doc.row path) == entry
  | _, _ => false

-- The command renames nothing: what it rewrites keeps its index entry.
def KeepsEntry (path : F) : Cmd F → Prop
  | .update _ _ (.apply effect) => ∀ row : Row F, effect row path = row path
  | .resave _ paths => paths path = none
  | _ => True

theorem count_update (rows : Rows F) (here entry : Scalar) (value : Option (Row F)) :
    Rows.count (Function.update rows here value) entry = if entry = here then (if value.isSome then 1 else 0)
    else rows.count entry := by
  by_cases same : entry = here
  · subst same
    simp [Rows.count]
  · simp [Rows.count, same]

theorem count_replace (held : Collection F (some path)) (doc : Doc F) (member : doc ∈ held.docs) (row : Row F)
    (ok : admits held row (some doc.id) = true) (same : row path = doc.row path) (entry : Scalar) :
    (contents (held.replace doc.id row ok)).count entry = (contents held).count entry := by
  rw [contents_replace held doc member (fun _ => row) ok]
  simp only [Rows.rewrite, contents_member held doc member, same, count_update]
  by_cases here : entry = indexEntry (doc.row path)
  · subst here
    simp [Rows.count, contents_member held doc member]
  · simp [here]

-- An entry of the index is taken by one insertion and freed by one removal.
theorem executed_count (cast : Js.Value → Except String Condition) (held next : Collection F (some path)) (cmd : Cmd F)
    (ans : Ans cmd) (done : Executed cast held cmd ans next) (keeps : KeepsEntry path cmd) (entry : Scalar) :
    (contents next).count entry + (removedAt path entry cmd ans).toNat =
    (contents held).count entry + (insertedAt path entry cmd ans).toNat := by
  cases done with
  | error cmd message => cases cmd <;> rfl
  | inserted row ok =>
      have free := inserted_contents cast held _ (.ok row) _ (.inserted row ok)
      rw [contents_push, count_update]
      by_cases here : entry = indexEntry (row path)
      · subst here
        simp [Rows.count, free, removedAt, insertedAt]
      · simp [here, removedAt, insertedAt, Ne.symm here]
  | removed named value condition doc seen member holds =>
      rw [contents_remove held doc member, count_update]
      by_cases here : entry = indexEntry (doc.row path)
      · subst here
        simp [Rows.count, contents_member held doc member, removedAt, insertedAt]
      · simp [here, removedAt, insertedAt, Ne.symm here]
  | resaved doc paths stored member same ok =>
      rw [count_replace held stored member _ ok (by simp [overlay, show paths path = none from keeps])]
      rfl
  | updated named value effect condition doc changed seen member holds ok =>
      rw [count_replace held doc member _ ok (keeps doc.row)]
      rfl
  | _ => rfl

end Docs
