import PlannerBackend.Stores
import PlannerBackend.Effects
import PlannerBackend.Reference

set_option autoImplicit false

namespace Docs

variable {F : Type} {key : Option F}

def Selects (held : Collection F key) (path : F) (condition : Condition) : Option (Doc F) → Prop
  | none => ∀ doc ∈ held.docs, condition (doc.row path) = false
  | some doc => doc ∈ held.docs ∧ condition (doc.row path) = true

theorem selects_choose (held : Collection F key) (path : F) (condition : Condition) (found : Option (Doc F))
    (selects : Selects held path condition found) : ∃ n, choose n (matching held path condition) = found := by
  cases found with
  | none =>
      refine ⟨0, (choose_none 0 _).mpr (List.filter_eq_nil_iff.mpr ?_)⟩
      intro doc member
      rw [selects doc member]
      exact Bool.false_ne_true
  | some doc =>
      obtain ⟨n, bound, here⟩ := List.getElem_of_mem ((matching_mem held path condition doc).mpr selects)
      exact ⟨n, by rw [choose, Nat.mod_eq_of_lt bound, List.getElem?_eq_getElem bound, here]⟩

theorem stored_found (held : Collection F key) (id : Nat) (stored : Doc F) (member : stored ∈ held.docs) (same : stored.id = id) :
    held.docs.find? (fun other => other.id == id) = some stored := by
  cases found : held.docs.find? fun other => other.id == id with
  | none => exact absurd (List.find?_eq_none.mp found stored member) (by simp [same])
  | some other =>
      have alike : other.id = id := by simpa using List.find?_some found
      rw [same_id_same_doc held other stored (List.mem_of_find?_eq_some found) member (alike.trans same.symm)]

variable [Paths F]

inductive Updates (held : Collection F key) (path : F) (condition : Condition) :
    Change F → UpdateReply → Collection F key → Prop where
  | skipped : Updates held path condition .empty ⟨0, 0, 0⟩ held
  | unmatched (effect : Row F → Row F) (absent : Selects held path condition none) :
      Updates held path condition (.apply effect) ⟨0, 0, 1⟩ held
  | updated (effect : Row F → Row F) (doc : Doc F) (selected : Selects held path condition (some doc))
      (ok : admits held (effect doc.row) (some doc.id) = true) :
      Updates held path condition (.apply effect) ⟨1, if sameRow doc.row (effect doc.row) then 0 else 1, 1⟩
        (held.replace doc.id (effect doc.row) ok)

-- What is assumed of the database: content is the collection a state of it
-- stands for, and reply relates the states before and after a command.
structure Honours {S : Type} (cast : Js.Value → Except String Condition) (content : S → Collection F key)
    (reply : (cmd : Cmd F) → Ans cmd → S → S → Prop) : Prop where
  failing : ∀ cmd message before after, reply cmd (failed cmd message) before after → content after = content before
  finding : ∀ path value found before after, reply (.findOne path value) (.ok found) before after →
    content after = content before ∧ ∃ condition, cast value = .ok condition ∧ Selects (content before) path condition found
  listingAll : ∀ docs before after, reply (.find none) (.ok docs) before after →
    content after = content before ∧ docs = (content before).docs
  listing : ∀ path value docs before after, reply (.find (some (path, value))) (.ok docs) before after →
    content after = content before ∧ ∃ condition, cast value = .ok condition ∧ docs = matching (content before) path condition
  inserting : ∀ row doc before after, reply (.insert row) (.ok doc) before after →
    ∃ values ok, row = .ok values ∧ doc = ⟨(content before).next, values⟩ ∧ content after = (content before).push values ok
  resaving : ∀ doc paths saved before after, reply (.resave doc paths) (.ok saved) before after →
    ∃ stored ∈ (content before).docs, ∃ ok, stored.id = doc.id ∧ saved = ⟨doc.id, overlay paths doc.row⟩ ∧
      content after = (content before).replace stored.id (overlay paths stored.row) ok
  removing : ∀ path value found before after, reply (.findOneAndRemove path value) (.ok found) before after →
    ∃ condition, cast value = .ok condition ∧ Selects (content before) path condition found ∧
      content after = found.elim (content before) fun doc => (content before).remove doc.id
  updating : ∀ path value change result before after, reply (.update path value change) (.ok result) before after →
    ∃ condition, cast value = .ok condition ∧ Updates (content before) path condition change result (content after)

section Honoured

variable {S : Type} {cast : Js.Value → Except String Condition} {content : S → Collection F key}
  {reply : (cmd : Cmd F) → Ans cmd → S → S → Prop} (honours : Honours cast content reply) (before after : S)

include honours

theorem honoured_update (path : F) (value : Js.Value) (change : Change F) (result : UpdateReply)
    (replied : reply (.update path value change) (.ok result) before after) :
    ∃ n, exec cast (.update path value change) (.pick n) (content before) = (.ok result, content after) := by
  obtain ⟨condition, seen, updates⟩ := honours.updating path value change result before after replied
  generalize content after = next at updates
  cases updates with
  | skipped => exact ⟨0, by simp only [exec, seen]⟩
  | unmatched effect absent =>
      obtain ⟨n, none⟩ := selects_choose _ path condition _ absent
      exact ⟨n, by simp only [exec, seen, none]⟩
  | updated effect doc selected ok =>
      obtain ⟨n, picked⟩ := selects_choose _ path condition _ selected
      exact ⟨n, by simp only [exec, seen, picked, dif_pos ok]⟩

-- The model's database can give every reply that an honest one gives.
theorem honoured_reply (cmd : Cmd F) (ans : Ans cmd) (replied : reply cmd ans before after) :
    ∃ choice, exec cast cmd choice (content before) = (ans, content after) := by
  have fails : ∀ message, ans = failed cmd message → ∃ choice, exec cast cmd choice (content before) = (ans, content after) := by
    intro message same
    subst same
    refine ⟨.fail message, ?_⟩
    rw [honours.failing cmd message before after replied]
    cases cmd <;> rfl
  cases cmd with
  | findOne path value =>
      cases ans with
      | error message => exact fails message rfl
      | ok found =>
          obtain ⟨same, condition, seen, selects⟩ := honours.finding path value found before after replied
          obtain ⟨n, picked⟩ := selects_choose _ path condition found selects
          exact ⟨.pick n, by simp only [exec, seen, picked, same]⟩
  | find condition =>
      cases ans with
      | error message => exact fails message rfl
      | ok docs =>
          cases condition with
          | none =>
              obtain ⟨same, rfl⟩ := honours.listingAll docs before after replied
              exact ⟨.pick 0, by simp only [exec, same]⟩
          | some query =>
              obtain ⟨same, condition, seen, rfl⟩ := honours.listing query.1 query.2 docs before after replied
              exact ⟨.pick 0, by simp only [exec, seen, same]⟩
  | insert row =>
      cases ans with
      | error message => exact fails message rfl
      | ok doc =>
          obtain ⟨values, ok, rfl, rfl, pushed⟩ := honours.inserting row doc before after replied
          exact ⟨.pick 0, by simp only [exec, dif_pos ok, pushed]⟩
  | resave doc paths =>
      cases ans with
      | error message => exact fails message rfl
      | ok saved =>
          obtain ⟨stored, member, ok, same, rfl, replaced⟩ := honours.resaving doc paths saved before after replied
          exact ⟨.pick 0, by simp only [exec, stored_found _ _ stored member same, dif_pos ok, replaced]⟩
  | findOneAndRemove path value =>
      cases ans with
      | error message => exact fails message rfl
      | ok found =>
          obtain ⟨condition, seen, selects, removed⟩ := honours.removing path value found before after replied
          obtain ⟨n, picked⟩ := selects_choose _ path condition found selects
          refine ⟨.pick n, ?_⟩
          cases found with
          | none => simp only [exec, seen, picked, removed, Option.elim_none]
          | some doc => simp only [exec, seen, picked, removed, Option.elim_some]
  | update path value change =>
      cases ans with
      | error message => exact fails message rfl
      | ok result =>
          obtain ⟨n, done⟩ := honoured_update honours before after path value change result replied
          exact ⟨.pick n, done⟩

end Honoured

theorem updates_exec (cast : Js.Value → Except String Condition) (held next : Collection F key) (path : F) (value : Js.Value)
    (change : Change F) (result : UpdateReply) (choice : Choice)
    (done : exec cast (.update path value change) choice held = (.ok result, next)) :
    ∃ condition, cast value = .ok condition ∧ Updates held path condition change result next := by
  cases choice with
  | fail message => cases done
  | pick n =>
      cases change with
      | rejected message => cases done
      | empty =>
          cases seen : cast value with
          | error message => simp [exec, seen] at done
          | ok condition =>
              simp only [exec, seen] at done
              cases done
              exact ⟨condition, rfl, .skipped⟩
      | apply effect =>
          cases seen : cast value with
          | error message => simp [exec, seen] at done
          | ok condition =>
              refine ⟨condition, rfl, ?_⟩
              simp only [exec, seen] at done
              rcases choose_cases n held path condition with ⟨none, absent⟩ | ⟨doc, member, picked, holds⟩
              · simp only [none] at done
                cases done
                exact .unmatched effect absent
              · simp only [picked] at done
                split at done
                · cases done
                  exact .updated effect doc ⟨member, holds⟩ _
                · cases done

-- Conversely the assumptions hold of every database that the model's imitates.
theorem honours_exec {S : Type} (cast : Js.Value → Except String Condition) (content : S → Collection F key)
    (reply : (cmd : Cmd F) → Ans cmd → S → S → Prop)
    (imitated : ∀ cmd ans before after, reply cmd ans before after →
      ∃ choice, exec cast cmd choice (content before) = (ans, content after)) : Honours cast content reply := by
  have executed : ∀ cmd ans before after, reply cmd ans before after →
      Executed cast (content before) cmd ans (content after) := by
    intro cmd ans before after replied
    obtain ⟨choice, done⟩ := imitated cmd ans before after replied
    have executed := exec_executed cast cmd choice (content before)
    rwa [done] at executed
  constructor
  case failing =>
    intro cmd message before after replied
    exact executed_idle cast _ _ cmd _ (executed _ _ _ _ replied) (failed_performed cmd message)
  case finding =>
    intro path value found before after replied
    have done := executed _ _ _ _ replied
    generalize content after = next at done
    cases done with
    | missing _ _ condition seen absent => exact ⟨rfl, condition, seen, absent⟩
    | found _ _ condition doc seen member holds => exact ⟨rfl, condition, seen, member, holds⟩
  case listingAll =>
    intro docs before after replied
    have done := executed _ _ _ _ replied
    generalize content after = next at done
    cases done
    exact ⟨rfl, rfl⟩
  case listing =>
    intro path value docs before after replied
    have done := executed _ _ _ _ replied
    generalize content after = next at done
    cases done with
    | listed _ _ condition seen => exact ⟨rfl, condition, seen, rfl⟩
  case inserting =>
    intro row doc before after replied
    exact executed_inserted cast _ _ row doc (executed _ _ _ _ replied)
  case resaving =>
    intro doc paths saved before after replied
    exact executed_resaved cast _ _ doc saved paths (executed _ _ _ _ replied)
  case removing =>
    intro path value found before after replied
    have done := executed _ _ _ _ replied
    generalize content after = next at done
    cases done with
    | unremoved _ _ condition seen absent => exact ⟨condition, seen, absent, rfl⟩
    | removed _ _ condition doc seen member holds => exact ⟨condition, seen, ⟨member, holds⟩, rfl⟩
  case updating =>
    intro path value change result before after replied
    obtain ⟨choice, done⟩ := imitated _ _ before after replied
    exact updates_exec cast (content before) (content after) path value change result choice done

end Docs

namespace Planner

open Docs Resume

-- MongoDB and bcrypt as the handlers meet them: S are their states, C what
-- decides between the replies they may give, and content the collections that
-- a state stands for.
structure Services (S C : Type) where
  reply : (op : Op) → C → S → Answer op × S
  content : S → Store

section Honest

variable {S C : Type} (pkg : Packages) (services : Services S C)

structure Honest : Prop where
  users : Honours pkg.castQuery (fun state => (services.content state).users) fun cmd ans before after =>
    ∃ chance, services.reply (.users cmd) chance before = (ans, after)
  usersOnly : ∀ cmd chance state, services.content (services.reply (.users cmd) chance state).2 =
    { services.content state with users := (services.content (services.reply (.users cmd) chance state).2).users }
  auths : Honours pkg.castQuery (fun state => (services.content state).auths) fun cmd ans before after =>
    ∃ chance, services.reply (.auths cmd) chance before = (ans, after)
  authsOnly : ∀ cmd chance state, services.content (services.reply (.auths cmd) chance state).2 =
    { services.content state with auths := (services.content (services.reply (.auths cmd) chance state).2).auths }
  meetings : Honours pkg.castQuery (fun state => (services.content state).meetings) fun cmd ans before after =>
    ∃ chance, services.reply (.meetings cmd) chance before = (ans, after)
  meetingsOnly : ∀ cmd chance state, services.content (services.reply (.meetings cmd) chance state).2 =
    { services.content state with meetings := (services.content (services.reply (.meetings cmd) chance state).2).meetings }
  comparing : ∀ password hash chance state verdict, (services.reply (.compare password hash) chance state).1 = .ok verdict →
    compareHashes pkg password hash = .ok verdict
  comparingOnly : ∀ password hash chance state,
    services.content (services.reply (.compare password hash) chance state).2 = services.content state

theorem honest_imitates (honest : Honest pkg services) : Imitates (m := server pkg) services.reply services.content := by
  intro op chance state
  cases op with
  | users cmd =>
      obtain ⟨choice, done⟩ := honoured_reply honest.users state _ cmd _ ⟨chance, rfl⟩
      refine ⟨choice, ?_⟩
      rw [honest.usersOnly cmd chance state]
      simp only [execute, done]
  | auths cmd =>
      obtain ⟨choice, done⟩ := honoured_reply honest.auths state _ cmd _ ⟨chance, rfl⟩
      refine ⟨choice, ?_⟩
      rw [honest.authsOnly cmd chance state]
      simp only [execute, done]
  | meetings cmd =>
      obtain ⟨choice, done⟩ := honoured_reply honest.meetings state _ cmd _ ⟨chance, rfl⟩
      refine ⟨choice, ?_⟩
      rw [honest.meetingsOnly cmd chance state]
      simp only [execute, done]
  | compare password hash =>
      rw [honest.comparingOnly password hash chance state]
      cases replied : (services.reply (.compare password hash) chance state).1 with
      | error message => exact ⟨.fail message, rfl⟩
      | ok verdict =>
          have same := honest.comparing password hash chance state verdict replied
          exact ⟨.pick 0, by simp only [execute, same]⟩

-- Behind any honest services the handlers do what they do in the model, note
-- for note: what holds of all lives of the model holds of theirs.
theorem any_database_is_modelled (honest : Honest pkg services) (start : S) (cell : Body)
    (labels : List (Label ((server pkg).over S C services.reply))) :
    ∃ moves : List (Label (server pkg)), startedJobs moves = startedJobs labels ∧
      (live labels (World.initial ((server pkg).over S C services.reply) start cell)).under services.reply services.content =
        live moves (World.initial (server pkg) (services.content start) cell) :=
  live_under (m := server pkg) services.reply services.content (honest_imitates pkg services honest) (Choice.pick 0) labels
    (World.initial _ start cell)

end Honest

-- A database that keeps a journal of the commands it is sent.
def Reference.journaled : Services (List Op × Store) Choice where
  reply := fun op choice state =>
    ((execute Reference.packages op choice state.2).1, (op :: state.1, (execute Reference.packages op choice state.2).2))
  content := fun state => state.2

theorem reference_journaled_honest : Honest Reference.packages Reference.journaled where
  users := by
    apply honours_exec
    intro cmd ans before after replied
    obtain ⟨choice, same⟩ := replied
    exact ⟨choice, by cases same; rfl⟩
  usersOnly := fun _ _ _ => rfl
  auths := by
    apply honours_exec
    intro cmd ans before after replied
    obtain ⟨choice, same⟩ := replied
    exact ⟨choice, by cases same; rfl⟩
  authsOnly := fun _ _ _ => rfl
  meetings := by
    apply honours_exec
    intro cmd ans before after replied
    obtain ⟨choice, same⟩ := replied
    exact ⟨choice, by cases same; rfl⟩
  meetingsOnly := fun _ _ _ => rfl
  comparing := by
    intro password hash choice state verdict replied
    cases choice with
    | fail message => cases replied
    | pick n => exact replied
  comparingOnly := by
    intro password hash choice state
    cases choice with
    | fail message => rfl
    | pick n => rfl

def Reference.journaledLogin : List (Label ((server Reference.packages).over _ _ Reference.journaled.reply)) :=
  .start Reference.logInRequest (Reference.ambient 5000) ::
    List.replicate 8 (.resume 0 (Choice.pick 0) (Reference.ambient 5000))

theorem reference_any_database_is_modelled :
    ∃ world, world = live Reference.journaledLogin
        (World.initial ((server Reference.packages).over _ _ Reference.journaled.reply) ([], Reference.oneUser) (.thrown "")) ∧
      world.store.1.length = 4 ∧
      ∃ moves : List (Label (server Reference.packages)), startedJobs moves = [Reference.logInRequest] ∧
        world.under Reference.journaled.reply Reference.journaled.content =
          live moves (World.initial (server Reference.packages) Reference.oneUser (.thrown "")) :=
  ⟨_, rfl, by decide +kernel,
    any_database_is_modelled Reference.packages Reference.journaled reference_journaled_honest ([], Reference.oneUser)
      (.thrown "") Reference.journaledLogin⟩

end Planner
