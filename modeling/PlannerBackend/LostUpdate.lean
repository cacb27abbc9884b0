import PlannerBackend.Commuting
import PlannerBackend.Spelling

set_option autoImplicit false

namespace Planner

open Docs Resume

-- The requests of a run that edits and recovers one user, and what a recovery
-- has found.
structure Involved (user : Doc UserField) (id : String) (known : List HttpRequest) (trace : Trace sig) : Prop where
  each : ∀ http ∈ known, Edits .editUser "userId" UserField.userId id http ∧ ¬ Names http.body UserField.email ∨
    endpointOf http = some .recoverForgotPassword
  found : ∀ i http, known[i]? = some http → endpointOf http = some .recoverForgotPassword →
    ∀ value doc, (i, foundUser .email value doc) ∈ trace → doc.id = user.id

-- The row is the user's up to the fields that such a run may change.
structure SameUser (user : Doc UserField) (id : String) (row : Row UserField) : Prop where
  userId : row .userId = some (.str id)
  email : row .email = user.row .email

structure Recovering (pkg : Packages) (base : List (Doc UserField)) (user : Doc UserField) (id : String) (trace : Trace sig)
    (docs : List (Doc UserField)) : Prop where
  stored : docs = rewritten base user.id (replay (changesIn userUpdate trace) user.row)
  same : SameUser user id (replay (changesIn userUpdate trace) user.row)
  reads : ∀ newer i path value doc older, trace = newer ++ (i, foundUser path value doc) :: older → doc.id = user.id →
    doc.row = replay (changesIn userUpdate older) user.row ∧ SameUser user id doc.row ∧
      ∃ condition, pkg.castQuery value = .ok condition ∧ condition (doc.row path) = true
  accepted : ∀ update ∈ changesIn userUpdate trace, ∀ message, update ≠ .rejected message

section Rule

variable (pkg : Packages) (strings : StringQueries pkg) (updates : UpdatesBy (userCast pkg) pkg.userChange)
  (base : List (Doc UserField)) (user : Doc UserField) (member : user ∈ base) (id : String)

theorem involved_before (known : List HttpRequest) (trace : Trace sig) (entry : Nat × Note sig)
    (involved : Involved user id known (entry :: trace)) : Involved user id known trace where
  each := involved.each
  found := fun i http here recovers value doc there =>
      involved.found i http here recovers value doc (List.mem_cons_of_mem _ there)

theorem reads_cons (i : Nat) (note : Note sig) (trace : Trace sig) (docs : List (Doc UserField))
    (recovering : Recovering pkg base user id trace docs)
    (fresh : ∀ path value doc, note = foundUser path value doc → doc ∈ docs ∧
      ∃ condition, pkg.castQuery value = .ok condition ∧ condition (doc.row path) = true)
    (distinct : (docs.map Doc.id).Nodup) (inBase : user ∈ base)
    (newer : Trace sig) (j : Nat) (path : UserField) (value : Js.Value) (doc : Doc UserField) (older : Trace sig)
    (split : (i, note) :: trace = newer ++ (j, foundUser path value doc) :: older) (named : doc.id = user.id) :
    doc.row = replay (changesIn userUpdate older) user.row ∧ SameUser user id doc.row ∧
      ∃ condition, pkg.castQuery value = .ok condition ∧ condition (doc.row path) = true := by
  rcases split_cons _ trace newer older _ split with ⟨_, here, rfl⟩ | ⟨rest, _, earlier⟩
  · obtain ⟨stored, holds⟩ := fresh path value doc (Prod.mk.inj here).2
    have current : ⟨user.id, replay (changesIn userUpdate trace) user.row⟩ ∈ docs := by
      rw [recovering.stored]
      exact mem_rewritten base user inBase _
    obtain rfl := distinct_images Doc.id docs distinct doc _ stored current named
    exact ⟨rfl, recovering.same, holds⟩
  · exact recovering.reads rest j path value doc older earlier named

include member

theorem recovery_step (http : HttpRequest) (trace : Trace sig) (i : Nat) (op : Op) (choice : Choice) (store : Store)
    (recovering : Recovering pkg base user id trace store.users.docs) (recovers : endpointOf http = some .recoverForgotPassword)
    (found : ∀ value doc, (i, foundUser .email value doc) ∈ trace → doc.id = user.id)
    (allowed : mayWrite pkg http (view i trace) op) :
    (execute pkg op choice store).2.users.docs = rewritten base user.id
      (replay (userUpdate (.asked op (execute pkg op choice store).1)).toList (replay (changesIn userUpdate trace) user.row)) ∧
    ∀ update, userUpdate (.asked op (execute pkg op choice store).1) = some update →
      SameUser user id (update.on (replay (changesIn userUpdate trace) user.row)) := by
  obtain ⟨stored, same, reads, _⟩ := recovering
  cases op with
  | meetings | auths => exact ⟨stored, fun _ made => by cases made⟩
  | compare => cases choice <;> exact ⟨stored, fun _ made => by cases made⟩
  | users cmd =>
      have done := exec_executed pkg.castQuery cmd choice store.users
      cases cmd with
      | findOne | find =>
          refine ⟨?_, fun _ made => by cases made⟩
          rw [← executed_idle _ _ _ _ _ done (read_idle _ _ rfl)] at stored
          exact stored
      | insert | findOneAndRemove => cases recovers.symm.trans allowed.1
      | resave => cases allowed
      | update path value change =>
          rcases allowed with ⟨edits, _⟩ | ⟨_, rfl, _, doc, password, salt, rfl, shape⟩
          · cases recovers.symm.trans edits
          · have seen : (i, foundUser .email value doc) ∈ trace := (mem_view i _ trace).mp (by simp [shape, foundUser])
            obtain ⟨newer, older, split⟩ := List.append_of_mem seen
            obtain ⟨_, sameDoc, condition, cast, holds⟩ := reads newer i .email value doc older split (found value doc seen)
            have written : ∀ row, overlay (recoveredRow pkg doc password salt) row .userId = some (.str id) := by
              intro row
              exact congrArg (Option.or · (row .userId)) sameDoc.userId
            constructor
            · apply keyed_rewrites pkg.castQuery .userId store.users _ base user _ id stored member same.userId .email value
                condition cast _ _ written _ done
              rw [same.email, ← sameDoc.email]
              exact holds
            · intro update made
              obtain ⟨_, _, sameCmd⟩ := acknowledged_update _ _ update made
              cases sameCmd
              refine ⟨written _, ?_⟩
              have emails : (doc.row .email).or (replay (changesIn userUpdate trace) user.row .email) = user.row .email := by
                rw [sameDoc.email, same.email, Option.or_self]
              exact emails

include strings updates

theorem edit_step (http : HttpRequest) (h : History sig) (op : Op) (choice : Choice) (store : Store) (row : Row UserField)
    (docs : store.users.docs = rewritten base user.id row) (same : SameUser user id row)
    (edit : Edits .editUser "userId" UserField.userId id http) (keepsEmail : ¬ Names http.body UserField.email)
    (allowed : mayWrite pkg http h op) :
    (execute pkg op choice store).2.users.docs =
      rewritten base user.id (replay (userUpdate (.asked op (execute pkg op choice store).1)).toList row) ∧
    ∀ update, userUpdate (.asked op (execute pkg op choice store).1) = some update → SameUser user id (update.on row) := by
  have editing := user_editing pkg strings id
  refine ⟨editing.rewrites http h op choice store base user row edit allowed docs member same.userId, ?_⟩
  intro update made
  obtain ⟨rfl, _⟩ := editing.made http h op choice store update edit allowed made
  have sets := updates http.body edit.plain
  exact ⟨(unnamed_kept _ _ _ sets _ edit.unnamed row).trans same.userId,
    (unnamed_kept _ _ _ sets _ keepsEmail row).trans same.email⟩

theorem recovering_rule :
    EventRule (m := server pkg) (accounted pkg) unguarded (fun known trace store =>
      Involved user id known trace → Recovering pkg base user id trace store.users.docs) where
  born := by
    intro known trace store job holds involved
    refine holds ⟨fun http there => involved.each http (List.mem_append_left _ there), fun i http here => ?_⟩
    apply involved.found i http
    rw [List.getElem?_append_left (List.getElem?_eq_some_iff.mp here).1]
    exact here
  told := by
    intro known trace store i http out holds _ _ involved
    have recovering := holds (involved_before user id known trace _ involved)
    exact ⟨recovering.stored, recovering.same,
      reads_cons pkg base user id i _ trace _ recovering (fun _ _ _ other => by cases other) store.users.distinct member,
        recovering.accepted⟩
  asked := by
    intro known trace store i http op choice holds here allowed _ involved
    have before := involved_before user id known trace _ involved
    have recovering := holds before
    have stepped : (execute pkg op choice store).2.users.docs = rewritten base user.id
        (replay (userUpdate (.asked op (execute pkg op choice store).1)).toList (replay (changesIn userUpdate trace) user.row)) ∧
        ∀ update, userUpdate (.asked op (execute pkg op choice store).1) = some update →
          SameUser user id (update.on (replay (changesIn userUpdate trace) user.row)) := by
      rcases before.each http (List.mem_of_getElem? here) with ⟨edit, keepsEmail⟩ | recovers
      · exact edit_step pkg strings updates base user member id http _ op choice store _ recovering.stored recovering.same
          edit keepsEmail allowed.2
      · exact recovery_step pkg base user member id http trace i op choice store recovering recovers
          (before.found i http here recovers) allowed.2
    refine ⟨?_, ?_, ?_, ?_⟩
    · rw [replay_cons]
      exact stepped.1
    · rw [replay_cons]
      cases made : userUpdate (.asked op (execute pkg op choice store).1) with
      | none => exact recovering.same
      | some update => exact stepped.2 update made
    · exact reads_cons pkg base user id i _ trace _ recovering (asked_found pkg store op choice) store.users.distinct member
    · apply accepted_cons _ _ _ _ _ recovering.accepted
      intro update made
      cases op with
      | meetings | auths | compare => cases made
      | users cmd => exact executed_accepted _ _ _ cmd _ (exec_executed pkg.castQuery cmd choice store.users) update made

end Rule

section Rows

variable (values row : Row UserField) (hash : String)

-- A write-back of the row as it was loses none of these values.
def Harmless : Prop := ∀ path scalar, values path = some scalar → row path = none ∨ row path = some scalar

theorem write_back_self : overlay (RecoverForgotPassword.withPassword row hash) row =
    RecoverForgotPassword.withPassword row hash := by
  funext path
  cases path <;> simp [overlay, RecoverForgotPassword.withPassword]

theorem with_password_overlay (unset : values .password = none) :
    RecoverForgotPassword.withPassword (overlay values row) hash =
    overlay values (RecoverForgotPassword.withPassword row hash) := by
  funext path
  cases path <;> simp [overlay, RecoverForgotPassword.withPassword, unset]

theorem write_back_stale (unset : values .password = none) (harmless : Harmless values row) :
    overlay (RecoverForgotPassword.withPassword row hash) (overlay values row) =
      overlay values (RecoverForgotPassword.withPassword row hash) := by
  have kept : ∀ path, (row path).or ((values path).or (row path)) = (values path).or (row path) := by
    intro path
    cases set : values path with
    | none => simp
    | some scalar =>
        rcases harmless path scalar set with absent | same
        · simp [absent]
        · simp [same]
  funext path
  cases path with
  | password => simp [overlay, RecoverForgotPassword.withPassword, unset]
  | _ => exact kept _

theorem write_back_loses (other : String) (unset : values .password = none)
    (same : overlay (RecoverForgotPassword.withPassword row hash) (overlay values row) =
      overlay values (RecoverForgotPassword.withPassword row other)) : Harmless values row := by
  intro path scalar set
  have here := congrFun same path
  cases path with
  | password => rw [unset] at set; cases set
  | _ =>
      simp only [overlay, RecoverForgotPassword.withPassword, set, Option.some_or] at here
      revert here
      cases row _ <;> simp

end Rows

theorem changes_of_task {F : Type} (select : Note sig → Option (Change F)) (d : Nat) (trace : Trace sig)
    (others : ∀ entry ∈ trace, entry.1 = d ∨ select entry.2 = none) :
    changesIn select trace = (view d trace).filterMap select := by
  induction trace with
  | nil => rfl
  | cons entry rest ih =>
      obtain ⟨i, note⟩ := entry
      have rested := ih fun other member => others other (List.mem_cons_of_mem _ member)
      by_cases own : i = d
      · subst own
        rw [changes_cons, view_cons_own, rested]
        cases seen : select note <;> simp [seen]
      · have silent := (others (i, note) List.mem_cons_self).resolve_left own
        rw [changes_cons, view_cons_other d i note rest own, rested, silent]
        rfl

-- The edit is written after the recovery has read the record and before it
-- writes it back.
def Between (r d : Nat) (trace : Trace sig) : Prop :=
  ∃ newer write middle path value doc older,
    trace = newer ++ (r, write) :: (middle ++ (r, foundUser path value doc) :: older) ∧ (userUpdate write).isSome = true ∧
      ∃ edit, (d, edit) ∈ middle ∧ (userUpdate edit).isSome = true

section Order

variable (r d : Nat) (trace : Trace sig) (sent mailed saved : Note sig) (value : Js.Value) (doc : Doc UserField)
  (write change : Change UserField) (silentSent : userUpdate sent = none) (silentMailed : userUpdate mailed = none)
  (saves : userUpdate saved = some write) (recovery : view r trace = [sent, mailed, saved, foundUser .email value doc])
  (edit : (view d trace).filterMap userUpdate = [change]) (apart : r ≠ d) (two : ∀ entry ∈ trace, entry.1 = r ∨ entry.1 = d)
  (newer middle older : Trace sig) (note read : Note sig) (split : trace = newer ++ (r, note) :: (middle ++ (r, read) :: older))
  (writes : (userUpdate note).isSome = true)

include silentSent silentMailed recovery split writes

-- The recovery's write and its read are where they stand in its own history.
theorem recovery_segments :
    view r newer = [sent, mailed] ∧ note = saved ∧ view r middle = [] ∧
    read = foundUser .email value doc ∧ view r older = [] := by
  rw [split, view_append, view_cons_own, view_append, view_cons_own] at recovery
  generalize view r newer = xs at recovery
  generalize view r middle = ys at recovery
  generalize view r older = zs at recovery
  rcases xs with _ | ⟨x, _ | ⟨y, _ | ⟨z, rest⟩⟩⟩
  · cases (List.cons.inj recovery).1
    rw [silentSent] at writes
    cases writes
  · cases (List.cons.inj (List.cons.inj recovery).2).1
    rw [silentMailed] at writes
    cases writes
  · rcases ys with _ | ⟨first, more⟩
    · cases recovery
      exact ⟨rfl, rfl, rfl, rfl, rfl⟩
    · simp at recovery
  · have short := congrArg List.length recovery
    simp at short
    omega

include saves edit apart two

theorem recovery_changes :
    changesIn userUpdate trace =
    changesIn userUpdate newer ++ write :: (changesIn userUpdate middle ++ changesIn userUpdate older) ∧
    changesIn userUpdate newer ++ (changesIn userUpdate middle ++ changesIn userUpdate older) = [change] := by
  obtain ⟨seenNewer, rfl, seenMiddle, rfl, seenOlder⟩ :=
    recovery_segments r trace sent mailed saved value doc silentSent silentMailed recovery
      newer middle older note read split writes
  have whole : changesIn userUpdate trace =
      changesIn userUpdate newer ++ write :: (changesIn userUpdate middle ++ changesIn userUpdate older) := by
    rw [split, changes_append, changes_cons, changes_append, changes_cons, saves]
    rfl
  refine ⟨whole, ?_⟩
  have own : ∀ part : Trace sig, (∀ entry ∈ part, entry ∈ trace) → (∀ other ∈ view r part, userUpdate other = none) →
      changesIn userUpdate part = (view d part).filterMap userUpdate := by
    intro part within silent
    apply changes_of_task
    intro entry member
    rcases two entry (within entry member) with rfl | mine
    · exact .inr (silent entry.2 ((mem_view entry.1 entry.2 part).mpr member))
    · exact .inl mine
  rw [own newer (by simp +contextual [split]) (by simp [seenNewer, silentSent, silentMailed]),
    own middle (by simp +contextual [split]) (by simp [seenMiddle]),
      own older (by simp +contextual [split]) (by simp [seenOlder]),
    ← edit, split, view_append, view_cons_other d r _ _ apart, view_append, view_cons_other d r _ _ apart, List.filterMap_append,
    List.filterMap_append]

-- The record at the end, by whether the edit fell between read and write-back.
theorem recovery_outcome (user : Doc UserField) (hash : String) (values : Row UserField) (unset : values .password = none)
    (writesBack : write = .apply (overlay (RecoverForgotPassword.withPassword doc.row hash)))
    (edited : ∀ row, change.on row = overlay values row) (readThen : doc.row = replay (changesIn userUpdate older) user.row) :
    replay (changesIn userUpdate trace) user.row =
      if changesIn userUpdate middle = [] then overlay values (RecoverForgotPassword.withPassword user.row hash)
      else overlay (RecoverForgotPassword.withPassword user.row hash) (overlay values user.row) := by
  obtain ⟨whole, parts⟩ :=
    recovery_changes r d trace sent mailed saved value doc write change silentSent silentMailed saves recovery edit
    apart two newer middle older note read split writes
  have wrote : ∀ row, write.on row = overlay (RecoverForgotPassword.withPassword doc.row hash) row := by
    intro row
    rw [writesBack]
    rfl
  have replayed : ∀ (a b : Change UserField) row, replay [a, b] row = a.on (b.on row) := fun _ _ _ => rfl
  rcases List.append_eq_singleton_iff.mp parts with ⟨noneNewer, parts⟩ | ⟨newest, parts⟩
  · rcases List.append_eq_singleton_iff.mp parts with ⟨noneMiddle, oldest⟩ | ⟨between, noneOlder⟩
    · have read : doc.row = overlay values user.row := by
        rw [readThen, oldest]
        exact edited user.row
      rw [whole, noneNewer, noneMiddle, oldest, if_pos rfl, List.nil_append, List.nil_append, replayed, edited, wrote, read,
        write_back_self, with_password_overlay values user.row hash unset]
    · have read : doc.row = user.row := by
        rw [readThen, noneOlder]
        rfl
      rw [whole, noneNewer, between, noneOlder, if_neg (by simp), List.nil_append, List.append_nil, replayed, edited, wrote, read]
  · obtain ⟨noneMiddle, noneOlder⟩ := List.append_eq_nil_iff.mp parts
    have read : doc.row = user.row := by
      rw [readThen, noneOlder]
      rfl
    rw [whole, newest, noneMiddle, noneOlder, if_pos rfl, List.nil_append, List.singleton_append, replayed,
      edited, wrote, read, write_back_self]

end Order

section Outcome

variable (pkg : Packages) (store : Store) (cell : Body) (labels : List (Label (server pkg))) (world : World (server pkg))
  (reached : world = run labels (World.initial (server pkg) store cell))

include reached

theorem recovery_view (r : Nat) (http : HttpRequest) (here : (jobs world)[r]? = some http)
    (recovers : endpointOf http = some .recoverForgotPassword) (succeeded : r ∈ successes world.trace) :
    ∃ status response doc password salt reply, view r world.trace =
      [.said (.send status (.api response)),
        .said (.mail (RecoverForgotPassword.mail pkg (requestOf http) (recoveredRow pkg doc password salt) password)),
        .asked (.users (.update .email ((requestOf http).param "email") (.apply (overlay (recoveredRow pkg doc password salt)))))
        (.ok reply),
        foundUser .email ((requestOf http).param "email") doc] := by
  obtain ⟨status, response, past, shape, effect⟩ := success_effect pkg store cell labels world reached r http here succeeded
  have lawful := run_lawful (m := server pkg) (accounted pkg) (app_accounted pkg) labels store cell
  rw [← reached] at lawful
  cases effect with
  | recovered doc password hash reply rest route clean =>
      obtain ⟨job, sameJob, allowed⟩ := lawful_viewed (m := server pkg) _ _ _ lawful r [_] _ _ shape
      cases here.symm.trans sameJob
      obtain ⟨found, fresh, salt, reply, mail, before⟩ := allowed.2 recovers
      exact ⟨status, _, found, fresh, salt, reply, by rw [shape, mail, before]; rfl⟩
  | shown endpoint _ message data other reading clean =>
      cases recovers.symm.trans other
      cases reading
  | _ => cases recovers.symm.trans ‹endpointOf http = some _›

theorem edit_view (d : Nat) (http : HttpRequest) (here : (jobs world)[d]? = some http) (edits : endpointOf http = some .editUser)
    (succeeded : d ∈ successes world.trace) : (view d world.trace).filterMap userUpdate = [pkg.userChange http.body] := by
  obtain ⟨status, response, past, shape, effect⟩ := success_effect pkg store cell labels world reached d http here succeeded
  rw [shape, List.filterMap_cons_none rfl]
  exact edit_effect pkg http past response edits effect

end Outcome

-- One recovery and one edit of the same user, both answered with success.
structure Race (pkg : Packages) (world : World (server pkg)) (user : Doc UserField) (id : String) (r d : Nat)
    (recover edit : HttpRequest) :
    Prop where
  two : (jobs world).length = 2
  recoverHere : (jobs world)[r]? = some recover
  editHere : (jobs world)[d]? = some edit
  recovers : endpointOf recover = some .recoverForgotPassword
  onUser : ∀ value doc, (r, foundUser .email value doc) ∈ world.trace → doc.id = user.id
  edits : Edits .editUser "userId" UserField.userId id edit
  sparesPassword : ¬ Names edit.body UserField.password
  sparesEmail : ¬ Names edit.body UserField.email
  recovered : r ∈ successes world.trace
  edited : d ∈ successes world.trace

section Race

variable (pkg : Packages) (world : World (server pkg)) (user : Doc UserField) (id : String) (r d : Nat)
  (recover edit : HttpRequest) (race : Race pkg world user id r d recover edit)

include race

theorem race_apart : r ≠ d := by
  intro same
  subst same
  cases race.recoverHere.symm.trans race.editHere
  cases race.recovers.symm.trans race.edits.route

theorem race_jobs (i : Nat) (http : HttpRequest) (here : (jobs world)[i]? = some http) :
    i = r ∧ http = recover ∨ i = d ∧ http = edit := by
  have apart := race_apart pkg world user id r d recover edit race
  have two := race.two
  have boundI := (List.getElem?_eq_some_iff.mp here).1
  have boundR := (List.getElem?_eq_some_iff.mp race.recoverHere).1
  have boundD := (List.getElem?_eq_some_iff.mp race.editHere).1
  have which : i = r ∨ i = d := by omega
  rcases which with rfl | rfl
  · exact .inl ⟨rfl, Option.some.inj (here.symm.trans race.recoverHere)⟩
  · exact .inr ⟨rfl, Option.some.inj (here.symm.trans race.editHere)⟩

theorem race_involved : Involved user id (jobs world) world.trace where
  each := by
    intro http member
    obtain ⟨i, here⟩ := List.getElem?_of_mem member
    rcases race_jobs pkg world user id r d recover edit race i http here with ⟨_, rfl⟩ | ⟨_, rfl⟩
    · exact .inr race.recovers
    · exact .inl ⟨race.edits, race.sparesEmail⟩
  found := by
    intro i http here recovers
    rcases race_jobs pkg world user id r d recover edit race i http here with ⟨rfl, _⟩ | ⟨_, rfl⟩
    · exact race.onUser
    · cases recovers.symm.trans race.edits.route

section Reached

variable (strings : StringQueries pkg) (updates : UpdatesBy (userCast pkg) pkg.userChange) (store : Store) (cell : Body)
  (labels : List (Label (server pkg))) (reached : world = run labels (World.initial (server pkg) store cell))

include reached

theorem race_tasks (entry : Nat × Note sig) (present : entry ∈ world.trace) : entry.1 = r ∨ entry.1 = d := by
  have tracked := run_tracked (accounted pkg) (app_accounted pkg) labels _
    (initial_tracked (m := server pkg) (accounted pkg) store cell)
  rw [← reached] at tracked
  have bound : entry.1 < (jobs world).length := by simpa [jobs] using tracked_bounded _ _ tracked entry present
  rcases race_jobs pkg world user id r d recover edit race entry.1 _ (List.getElem?_eq_getElem bound) with ⟨own, _⟩ | ⟨own, _⟩
  · exact .inl own
  · exact .inr own

theorem race_edited : pkg.userChange edit.body ∈ changesIn userUpdate world.trace := by
  have edited := edit_view pkg store cell labels world reached d edit race.editHere race.edits.route race.edited
  have inView : pkg.userChange edit.body ∈ (view d world.trace).filterMap userUpdate := by simp [edited]
  obtain ⟨update, present, same⟩ := List.mem_filterMap.mp inView
  exact List.mem_filterMap.mpr ⟨(d, update), (mem_view d update _).mp present, same⟩

include strings updates

theorem race_recovering (member : user ∈ store.users.docs) (named : user.row .userId = some (.str id)) :
    Recovering pkg store.users.docs user id world.trace world.store.users.docs := by
  subst reached
  exact (recovering_rule pkg strings updates store.users.docs user member id).runs (app_accounted pkg) labels _
    (initial_tracked (m := server pkg) (accounted pkg) store cell)
    (fun _ => ⟨(rewritten_self store.users user member).symm, ⟨named, rfl⟩,
      by simp [World.initial], by simp [World.initial, changesIn]⟩)
    (race_involved pkg _ user id r d recover edit race)

-- Wherever the recovery's read and write stand, they decide the final record.
theorem race_outcome (member : user ∈ store.users.docs) (named : user.row .userId = some (.str id)) :
    ∃ doc password salt,
      (r, .said (.mail (RecoverForgotPassword.mail pkg (requestOf recover) (recoveredRow pkg doc password salt) password))) ∈
      world.trace ∧
      (∃ newer note middle path value found older, world.trace =
        newer ++ (r, note) :: (middle ++ (r, foundUser path value found) :: older) ∧
        (userUpdate note).isSome = true) ∧
      ∀ newer note middle read older, world.trace = newer ++ (r, note) :: (middle ++ (r, read) :: older) →
      (userUpdate note).isSome = true →
        (∀ entry ∈ middle, entry.1 = d) ∧
        world.store.users.docs = rewritten store.users.docs user.id
          (if changesIn userUpdate middle = [] then overlay (valuesOf (userCast pkg) edit.body)
              (RecoverForgotPassword.withPassword user.row (pkg.bcryptHash password salt))
            else overlay (RecoverForgotPassword.withPassword user.row (pkg.bcryptHash password salt))
              (overlay (valuesOf (userCast pkg) edit.body) user.row)) := by
  have apart := race_apart pkg world user id r d recover edit race
  have tasks := race_tasks pkg world user id r d recover edit race store cell labels reached
  have recovering := race_recovering pkg world user id r d recover edit race strings updates
    store cell labels reached member named
  obtain ⟨status, response, doc, password, salt, reply, shape⟩ :=
    recovery_view pkg store cell labels world reached r recover race.recoverHere race.recovers race.recovered
  have edited := edit_view pkg store cell labels world reached d edit race.editHere race.edits.route race.edited
  refine ⟨doc, password, salt, (mem_view r _ world.trace).mp (by simp [shape]), ?_, ?_⟩
  · obtain ⟨newer, rest, split, _, seen⟩ := view_split r world.trace [_, _] [_] _ shape
    obtain ⟨middle, older, rfl, _, _⟩ := view_split r rest [] [] _ seen
    exact ⟨newer, _, middle, _, _, _, older, split, rfl⟩
  · intro newer note middle read older split writes
    obtain ⟨_, _, seenMiddle, sameRead, _⟩ :=
      recovery_segments r world.trace _ _ _ _ doc rfl rfl shape newer middle older note read split writes
    subst sameRead
    constructor
    · intro entry present
      rcases tasks entry (by rw [split]; simp [present]) with own | own
      · have seen := (mem_view r entry.2 middle).mpr (own ▸ present)
        rw [seenMiddle] at seen
        cases seen
      · exact own
    · have made := race_edited pkg world user id r d recover edit race store cell labels reached
      have sets := updates edit.body race.edits.plain
      have unset := unnamed_unset (userCast pkg) edit.body UserField.password race.sparesPassword
      have present : (r, foundUser .email ((requestOf recover).param "email") doc) ∈ world.trace := by simp [split]
      have readThen := (recovering.reads (newer ++ (r, note) :: middle) r .email ((requestOf recover).param "email") doc older
        (by rw [split]; simp) (race.onUser _ doc present)).1
      rw [recovering.stored,
        recovery_outcome r d world.trace _ _ _ _ doc _ _ rfl rfl rfl shape edited apart tasks newer middle older note _ split
        writes user _ _ unset rfl (accepted_overlays _ _ _ sets (recovering.accepted _ made)) readThen]

end Reached

end Race

theorem recovery_keeps_edit_iff (pkg : Packages) (strings : StringQueries pkg) (updates : UpdatesBy (userCast pkg) pkg.userChange)
    (store : Store) (cell : Body) (labels : List (Label (server pkg))) (world : World (server pkg))
    (reached : world = run labels (World.initial (server pkg) store cell))
    (user : Doc UserField) (member : user ∈ store.users.docs) (id : String) (named : user.row .userId = some (.str id))
    (r d : Nat) (recover edit : HttpRequest) (race : Race pkg world user id r d recover edit) :
    (∃ doc password salt,
      (r, .said (.mail (RecoverForgotPassword.mail pkg (requestOf recover) (recoveredRow pkg doc password salt) password))) ∈
      world.trace ∧
      world.store.users.docs = rewritten store.users.docs user.id (overlay (valuesOf (userCast pkg) edit.body)
        (RecoverForgotPassword.withPassword user.row (pkg.bcryptHash password salt)))) ↔
    ¬ Between r d world.trace ∨ Harmless (valuesOf (userCast pkg) edit.body) user.row := by
  have unset := unnamed_unset (userCast pkg) edit.body UserField.password race.sparesPassword
  obtain ⟨doc, password, salt, mailed, ⟨newer, note, middle, path, value, found, older, split, writes⟩, outcome⟩ :=
    race_outcome pkg world user id r d recover edit race strings updates store cell labels reached member named
  constructor
  · intro kept
    obtain ⟨_, fresh, grain, _, final⟩ := kept
    by_cases between : Between r d world.trace
    · obtain ⟨newer, note, middle, path, value, found, older, split, writes, change, present, changes⟩ := between
      have some_ : changesIn userUpdate middle ≠ [] := by
        intro none_
        rw [List.filterMap_eq_nil_iff.mp none_ _ present] at changes
        cases changes
      have stored := (outcome newer note middle _ older split writes).2
      rw [if_neg some_, final] at stored
      exact .inr (write_back_loses _ _ _ _ unset (rewritten_injective store.users.docs user member _ _ stored).symm)
    · exact .inl between
  · intro condition
    obtain ⟨ownMiddle, stored⟩ := outcome newer note middle _ older split writes
    refine ⟨doc, password, salt, mailed, ?_⟩
    by_cases none_ : changesIn userUpdate middle = []
    · rw [stored, if_pos none_]
    · rw [stored, if_neg none_]
      rcases condition with apart | harmless
      · obtain ⟨update, present⟩ := List.exists_mem_of_ne_nil _ none_
        obtain ⟨entry, inMiddle, made⟩ := List.mem_filterMap.mp present
        exact absurd ⟨newer, note, middle, path, value, found, older, split, writes, entry.2, ownMiddle entry inMiddle ▸ inMiddle,
          by rw [made]; rfl⟩ apart
      · rw [write_back_stale _ _ _ unset harmless]

-- The records that look-ups of users have found.
def foundIds (trace : Trace sig) : List (Nat × Nat) :=
  trace.filterMap fun
    | (i, .asked (.users (.findOne _ _)) (.ok (some doc))) => some (i, doc.id)
    | _ => none

theorem mem_found_ids (trace : Trace sig) (i : Nat) (path : UserField) (value : Js.Value) (doc : Doc UserField)
    (member : (i, foundUser path value doc) ∈ trace) : (i, doc.id) ∈ foundIds trace :=
  List.mem_filterMap.mpr ⟨_, member, rfl⟩

-- The recovery reads the record, the edit runs, the recovery goes on.
def Reference.raced : List (Label (server Reference.packages)) :=
  .start (Reference.recoverRequest "a@b.co") (Reference.ambient 6000) ::
    .start (Reference.editRequest "u1") (Reference.ambient 6000) ::
    Reference.turns 0 2 6000 ++ Reference.turns 1 2 6000 ++ Reference.turns 0 3 6000

theorem reference_recovery_keeps_edit :
    ∃ password salt, (run Reference.raced
      (World.initial (server Reference.packages) Reference.oneOfEach (.thrown ""))).store.users.docs =
      rewritten [Reference.account] 0 (overlay (valuesOf (userCast Reference.packages) (.obj [("firstName", .str "x")]))
        (RecoverForgotPassword.withPassword Reference.account.row (Reference.packages.bcryptHash password salt))) := by
  have facts : (let trace :=
      (run Reference.raced (World.initial (server Reference.packages) Reference.oneOfEach (.thrown ""))).trace
      foundIds trace = [(0, 0)] ∧ 0 ∈ successes trace ∧ 1 ∈ successes trace) := by decide +kernel
  obtain ⟨ids, recovered, edited⟩ := facts
  obtain ⟨_, password, salt, _, stored⟩ :=
    (recovery_keeps_edit_iff Reference.packages reference_string_queries reference_user_updates
    Reference.oneOfEach (.thrown "") Reference.raced _ rfl Reference.account (List.mem_singleton.mpr rfl) "u1" rfl 0 1
    (Reference.recoverRequest "a@b.co") (Reference.editRequest "u1") {
      two := by rw [run_jobs]; rfl
      recoverHere := by rw [run_jobs]; rfl
      editHere := by rw [run_jobs]; rfl
      recovers := by decide +kernel
      onUser := by
        intro value doc member
        have found := mem_found_ids _ 0 .email value doc member
        rw [ids] at found
        exact (Prod.mk.inj (List.mem_singleton.mp found)).2
      edits := ⟨by decide +kernel, rfl, ⟨_, rfl, by decide⟩, by decide⟩
      sparesPassword := by decide
      sparesEmail := by decide
      recovered := recovered
      edited := edited }).mpr (.inr (by
        intro path scalar set
        cases path with
        | firstName => exact .inl rfl
        | _ => cases set))
  exact ⟨password, salt, stored⟩

def Reference.namedAccount : Doc UserField where
  id := 0
  row := fun
    | .firstName => some (.str "old")
    | path => Reference.account.row path

def Reference.namedUser : Store :=
  { Reference.oneOfEach with users := ⟨[Reference.namedAccount], 1, by simp [Reference.namedAccount], by simp, by simp⟩ }

theorem recovery_loses_edit :
    let world := run Reference.raced (World.initial (server Reference.packages) Reference.namedUser (.thrown ""))
    (Reference.editRequest "u1").body.get "firstName" = .str "x" ∧ 0 ∈ successes world.trace ∧ 1 ∈ successes world.trace ∧
      world.store.users.docs.map (fun user => user.row .firstName) = [some (.str "old")] :=
  ⟨rfl, by decide +kernel⟩

end Planner
