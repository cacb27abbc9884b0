import PlannerBackend.Success
import PlannerBackend.WellFormed

set_option autoImplicit false

namespace Planner

open Docs Resume

def userUpdate : Note sig → Option (Change UserField)
  | .asked (.users cmd) ans => acknowledgedChange cmd ans
  | _ => none

def meetingUpdate : Note sig → Option (Change MeetingField)
  | .asked (.meetings cmd) ans => acknowledgedChange cmd ans
  | _ => none

section Updates

variable {F : Type} (select : Note sig → Option (Change F))

-- The updates on record, newest first.
def changesIn (trace : Trace sig) : List (Change F) := trace.filterMap fun entry => select entry.2

-- The requests whose update was carried out.
def carriedOut (requests : List HttpRequest) (trace : Trace sig) : List HttpRequest :=
  (requests.zipIdx.filter fun entry => !((view entry.2 trace).filterMap select).isEmpty).map Prod.fst

theorem changes_cons (i : Nat) (note : Note sig) (trace : Trace sig) :
    changesIn select ((i, note) :: trace) = (select note).toList ++ changesIn select trace := by
  cases seen : select note <;> simp [changesIn, seen]

theorem changes_append (newer older : Trace sig) :
    changesIn select (newer ++ older) = changesIn select newer ++ changesIn select older :=
  List.filterMap_append

theorem replay_cons (i : Nat) (note : Note sig) (trace : Trace sig) (row : Row F) :
    replay (changesIn select ((i, note) :: trace)) row = replay (select note).toList (replay (changesIn select trace) row) := by
  rw [changes_cons, replay, List.foldr_append]
  rfl

theorem accepted_cons (i : Nat) (note : Note sig) (trace : Trace sig)
    (newest : ∀ update, select note = some update → ∀ message, update ≠ .rejected message)
    (accepted : ∀ update ∈ changesIn select trace, ∀ message, update ≠ .rejected message) (update : Change F)
    (present : update ∈ changesIn select ((i, note) :: trace)) : ∀ message, update ≠ .rejected message := by
  rw [changes_cons] at present
  rcases List.mem_append.mp present with new | old
  · exact newest update (Option.mem_toList.mp new)
  · exact accepted update old

theorem carried_sublist (requests : List HttpRequest) (trace : Trace sig) :
    (carriedOut select requests trace).Sublist requests := by
  have kept : ((requests.zipIdx.filter _).map Prod.fst).Sublist (requests.zipIdx.map Prod.fst) :=
    (List.filter_sublist (p := fun entry => !((view entry.2 trace).filterMap select).isEmpty)).map Prod.fst
  rwa [List.zipIdx_map_fst] at kept

theorem carried_all (requests : List HttpRequest) (trace : Trace sig)
    (all : ∀ i http, requests[i]? = some http → (view i trace).filterMap select ≠ []) :
    carriedOut select requests trace = requests := by
  have kept : requests.zipIdx.filter (fun entry => !((view entry.2 trace).filterMap select).isEmpty) = requests.zipIdx := by
    apply List.filter_eq_self.mpr
    intro entry member
    simpa using all entry.2 entry.1 (List.mem_zipIdx_iff_getElem?.mp member)
  rw [carriedOut, kept, List.zipIdx_map_fst]

theorem flatMap_filter {α β : Type} (p : α → Bool) (f : α → β) (g : α → List β) (xs : List α)
    (each : ∀ x ∈ xs, g x = if p x then [f x] else []) : xs.flatMap g = (xs.filter p).map f := by
  induction xs with
  | nil => rfl
  | cons x rest ih =>
      rw [List.flatMap_cons, ih fun other member => each other (List.mem_cons_of_mem _ member), each x List.mem_cons_self]
      cases kept : p x <;> simp [kept]

-- When no request updates twice, the updates on record are those of the
-- requests carried out.
theorem changes_perm (change : Js.Value → Change F) (requests : List HttpRequest) (trace : Trace sig)
    (bounded : ∀ entry ∈ trace, entry.1 < requests.length)
    (once : ∀ i, (view i trace).filterMap select = [] ∨
      ∃ http, requests[i]? = some http ∧ (view i trace).filterMap select = [change http.body]) :
    (changesIn select trace).Perm (((carriedOut select requests trace).map HttpRequest.body).map change) := by
  have split := (notes_perm requests.length trace bounded).filterMap select
  rw [List.filterMap_map, List.filterMap_flatMap, List.range_eq_range',
    ← List.zipIdx_map_snd 0 requests, List.flatMap_map] at split
  refine split.trans (.of_eq ?_)
  rw [carriedOut, List.map_map, List.map_map]
  apply flatMap_filter
  intro entry member
  rcases once entry.2 with none_ | ⟨http, here, one⟩
  · simp [none_]
  · cases here.symm.trans (List.mem_zipIdx_iff_getElem?.mp member)
    simp [one]

theorem clean_unchanged (silent : ∀ out, select (.said out) = none)
    (idle : ∀ op ans, wrote op ans = false → select (.asked op ans) = none) (h : History sig) (clean : Clean h) :
    h.filterMap select = [] := by
  rw [List.filterMap_eq_nil_iff]
  intro note member
  cases note with
  | said out => exact silent out
  | asked op ans => exact idle op ans (clean _ member).2.2

end Updates

theorem idle_user_update (op : Op) (ans : Answer op) (idle : wrote op ans = false) : userUpdate (.asked op ans) = none := by
  cases op with
  | users cmd => exact idle_unchanged cmd ans idle
  | meetings | auths | compare => rfl

theorem idle_meeting_update (op : Op) (ans : Answer op) (idle : wrote op ans = false) : meetingUpdate (.asked op ans) = none := by
  cases op with
  | meetings cmd => exact idle_unchanged cmd ans idle
  | users | auths | compare => rfl

section Edits

variable {F : Type} [Paths F] (endpoint : Endpoint) (param : String) (key : F) (name : String)

-- An update of the record of that name, by a body that does not rename it.
structure Edits (http : HttpRequest) : Prop where
  route : endpointOf http = some endpoint
  target : (requestOf http).param param = .str name
  plain : Plain http.body
  unnamed : ¬ Names http.body key

structure DisjointEdits (requests : List HttpRequest) : Prop where
  edits : ∀ http ∈ requests, Edits endpoint param key name http
  apart : (requests.map HttpRequest.body).Pairwise fun a b => ∀ path : F, ¬ (Names a path ∧ Names b path)

variable (pkg : Packages) (cast : F → Js.Value → Except String Scalar) (change : Js.Value → Change F)
  (select : Note sig → Option (Change F)) (docsOf : Store → List (Doc F))

-- What one event does to a record while only edits of it are under way.
structure Editing : Prop where
  silent : ∀ out, select (.said out) = none
  idle : ∀ op ans, wrote op ans = false → select (.asked op ans) = none
  made : ∀ http h op choice store update, Edits endpoint param key name http → mayWrite pkg http h op →
    select (.asked op (execute pkg op choice store).1) = some update → update = change http.body ∧
      ∀ message, update ≠ .rejected message
  rewrites : ∀ http h op choice store base doc row, Edits endpoint param key name http → mayWrite pkg http h op →
    docsOf store = rewritten base doc.id row → doc ∈ base → row key = some (.str name) →
    docsOf (execute pkg op choice store).2 =
      rewritten base doc.id (replay (select (.asked op (execute pkg op choice store).1)).toList row)

structure Edited (base : List (Doc F)) (doc : Doc F) (known : List HttpRequest) (trace : Trace sig)
    (docs : List (Doc F)) : Prop where
  stored : docs = rewritten base doc.id (replay (changesIn select trace) doc.row)
  named : replay (changesIn select trace) doc.row key = some (.str name)
  once : ∀ i, (view i trace).filterMap select = [] ∨
    ∃ http, known[i]? = some http ∧ (view i trace).filterMap select = [change http.body]
  accepted : ∀ update ∈ changesIn select trace, ∀ message, update ≠ .rejected message

omit [Paths F] in
-- One more event, with at most one update in it: its request's own.
theorem edited_cons (base : List (Doc F)) (doc : Doc F) (known : List HttpRequest) (trace : Trace sig) (docs next : List (Doc F))
    (edited : Edited key name change select base doc known trace docs) (i : Nat) (http : HttpRequest)
    (here : known[i]? = some http) (note : Note sig)
    (stored : next = rewritten base doc.id (replay (select note).toList (replay (changesIn select trace) doc.row)))
    (named : replay (select note).toList (replay (changesIn select trace) doc.row) key = some (.str name))
    (made : ∀ update, select note = some update →
      (update = change http.body ∧ ∀ message, update ≠ .rejected message) ∧ (view i trace).filterMap select = []) :
    Edited key name change select base doc known ((i, note) :: trace) next where
  stored := by
    rw [replay_cons]
    exact stored
  named := by
    rw [replay_cons]
    exact named
  once := by
    intro j
    by_cases own : i = j
    · subst own
      rw [view_cons_own]
      cases seen : select note with
      | none =>
          rw [List.filterMap_cons_none seen]
          exact edited.once i
      | some update =>
          obtain ⟨⟨rfl, _⟩, unedited⟩ := made update seen
          rw [List.filterMap_cons_some seen, unedited]
          exact .inr ⟨http, here, rfl⟩
    · rw [view_cons_other j i _ _ own]
      exact edited.once j
  accepted := accepted_cons select i note trace (fun update seen => (made update seen).1.2) edited.accepted

variable (editing : Editing endpoint param key name pkg change select docsOf)

include editing

theorem edited_rule (updates : UpdatesBy cast change) (base : List (Doc F)) (doc : Doc F) (member : doc ∈ base) :
    EventRule (m := server pkg) (accounted pkg) unguarded (fun known trace store =>
      (∀ http ∈ known, Edits endpoint param key name http) →
      Edited key name change select base doc known trace (docsOf store)) where
  born := by
    intro known trace store job holds edits
    obtain ⟨stored, named, once, accepted⟩ := holds fun http there => edits http (List.mem_append_left _ there)
    refine ⟨stored, named, fun i => ?_, accepted⟩
    rcases once i with none_ | ⟨http, here, one⟩
    · exact .inl none_
    · exact .inr ⟨http, by rw [List.getElem?_append_left (List.getElem?_eq_some_iff.mp here).1]; exact here, one⟩
  told := by
    intro known trace store i http out holds here _ edits
    have edited := holds edits
    apply edited_cons _ _ _ _ _ _ _ _ _ _ edited i http here
    all_goals rw [editing.silent out]
    · exact edited.stored
    · exact edited.named
    · intro update none_
      cases none_
  asked := by
    intro known trace store i http op choice holds here allowed _ edits
    have edited := holds edits
    have edit := edits http (List.mem_of_getElem? here)
    have made := fun update => editing.made http _ op choice store update edit allowed.2
    apply edited_cons _ _ _ _ _ _ _ _ _ _ edited i http here
    · exact editing.rewrites http _ op choice store base doc _ edit allowed.2 edited.stored member edited.named
    · cases seen : select (.asked op (execute pkg op choice store).1) with
      | none => exact edited.named
      | some update =>
          obtain ⟨rfl, _⟩ := made update seen
          exact (unnamed_kept cast http.body _ (updates http.body edit.plain) key edit.unnamed _).trans edited.named
    · intro update seen
      exact ⟨made update seen, clean_unchanged select editing.silent editing.idle _ allowed.1.1⟩

theorem edits_commute (updates : UpdatesBy cast change) (store : Store) (cell : Body) (labels : List (Label (server pkg)))
    (world : World (server pkg)) (reached : world = run labels (World.initial (server pkg) store cell)) (doc : Doc F)
    (member : doc ∈ docsOf store) (self : rewritten (docsOf store) doc.id doc.row = docsOf store)
    (named : doc.row key = some (.str name)) (edits : DisjointEdits endpoint param key name (jobs world)) (order : List Js.Value)
    (reordered : order.Perm ((carriedOut select (jobs world) world.trace).map HttpRequest.body)) :
    docsOf world.store = rewritten (docsOf store) doc.id ((order.map (valuesOf cast)).foldr overlay doc.row) := by
  subst reached
  have edited := (edited_rule endpoint param key name pkg cast change select docsOf editing updates
    (docsOf store) doc member).runs (app_accounted pkg) labels _ (initial_tracked (m := server pkg) (accounted pkg) store cell)
    (fun _ => ⟨self.symm, named, fun _ => .inl rfl, fun _ none_ => by cases none_⟩) edits.edits
  have bounded := tracked_bounded _ _ (run_tracked (accounted pkg) (app_accounted pkg) labels _ (initial_tracked _ store cell))
  have made := changes_perm select change (jobs (run labels (World.initial (server pkg) store cell)))
    (run labels (World.initial (server pkg) store cell)).trace (by simpa [jobs] using bounded) edited.once
  have within := (carried_sublist select (jobs (run labels (World.initial (server pkg) store cell)))
    (run labels (World.initial (server pkg) store cell)).trace).map HttpRequest.body
  rw [edited.stored]
  congr 1
  apply replay_disjoint cast change updates _ _ _ (edits.apart.sublist within) _ made order reordered
  · intro body carried
    obtain ⟨http, there, rfl⟩ := List.mem_map.mp (within.subset carried)
    exact (edits.edits http there).plain
  · intro body carried
    exact edited.accepted _ (made.mem_iff.mpr (List.mem_map_of_mem carried))

end Edits

section Kinds

variable (pkg : Packages) (strings : StringQueries pkg) (name : String)

include strings

theorem meeting_editing :
    Editing .updateMeeting "meetingId" MeetingField.meetingId name pkg pkg.meetingChange meetingUpdate
    (fun store => store.meetings.docs) where
  silent := fun _ => rfl
  idle := idle_meeting_update
  made := by
    intro http h op choice store update edit allowed seen
    cases op with
    | users | auths | compare => cases seen
    | meetings cmd =>
        refine ⟨?_, executed_accepted _ _ _ cmd _ (exec_executed pkg.castQuery cmd choice store.meetings) update seen⟩
        obtain ⟨path, value, rfl⟩ := acknowledged_update cmd _ update seen
        exact allowed.2.2.2
  rewrites := by
    intro http h op choice store base doc row edit allowed docs member named
    obtain ⟨condition, seen, exact_⟩ := strings name
    cases op with
    | users | auths => exact docs
    | compare => cases choice <;> exact docs
    | meetings cmd =>
        apply executed_rewrites pkg.castQuery .meetingId store.meetings _ base doc row name docs member named condition seen
          exact_ cmd _ (exec_executed pkg.castQuery cmd choice store.meetings)
        cases cmd with
        | findOne | find => exact .inl rfl
        | insert | findOneAndRemove => cases edit.route.symm.trans allowed.1
        | resave => cases allowed
        | update path value change =>
            obtain ⟨_, rfl, rfl, _⟩ := allowed
            rw [edit.target]
            exact .inr ⟨change, rfl⟩

theorem user_editing :
    Editing .editUser "userId" UserField.userId name pkg pkg.userChange userUpdate (fun store => store.users.docs) where
  silent := fun _ => rfl
  idle := idle_user_update
  made := by
    intro http h op choice store update edit allowed seen
    cases op with
    | meetings | auths | compare => cases seen
    | users cmd =>
        refine ⟨?_, executed_accepted _ _ _ cmd _ (exec_executed pkg.castQuery cmd choice store.users) update seen⟩
        obtain ⟨path, value, rfl⟩ := acknowledged_update cmd _ update seen
        rcases allowed with ⟨_, _, _, same⟩ | ⟨recovers, _⟩
        · exact same
        · cases edit.route.symm.trans recovers
  rewrites := by
    intro http h op choice store base doc row edit allowed docs member named
    obtain ⟨condition, seen, exact_⟩ := strings name
    cases op with
    | meetings | auths => exact docs
    | compare => cases choice <;> exact docs
    | users cmd =>
        apply executed_rewrites pkg.castQuery .userId store.users _ base doc row name docs member named condition seen
          exact_ cmd _ (exec_executed pkg.castQuery cmd choice store.users)
        cases cmd with
        | findOne | find => exact .inl rfl
        | insert | findOneAndRemove => cases edit.route.symm.trans allowed.1
        | resave => cases allowed
        | update path value change =>
            rcases allowed with ⟨_, rfl, rfl, _⟩ | ⟨recovers, _⟩
            · rw [edit.target]
              exact .inr ⟨change, rfl⟩
            · cases edit.route.symm.trans recovers

end Kinds

section Effects

variable (pkg : Packages) (http : HttpRequest) (past : History sig) (response : Response)

theorem meeting_effect (route : endpointOf http = some .updateMeeting) (effect : Effect pkg http past response) :
    past.filterMap meetingUpdate = [pkg.meetingChange http.body] := by
  cases effect with
  | meetingUpdated found mail reply rest _ clean _ =>
      have quiet := clean_unchanged meetingUpdate (fun _ => rfl) idle_meeting_update rest clean
      exact congrArg (pkg.meetingChange http.body :: ·) quiet
  | shown endpoint _ message data other reading clean =>
      cases route.symm.trans other
      cases reading
  | _ => cases route.symm.trans ‹endpointOf http = some _›

theorem edit_effect (route : endpointOf http = some .editUser) (effect : Effect pkg http past response) :
    past.filterMap userUpdate = [pkg.userChange http.body] := by
  cases effect with
  | userEdited reply rest _ clean =>
      have quiet := clean_unchanged userUpdate (fun _ => rfl) idle_user_update rest clean
      exact congrArg (pkg.userChange http.body :: ·) quiet
  | shown endpoint _ message data other reading clean =>
      cases route.symm.trans other
      cases reading
  | _ => cases route.symm.trans ‹endpointOf http = some _›

end Effects

section Successes

variable (pkg : Packages) (store : Store) (cell : Body) (labels : List (Label (server pkg))) (world : World (server pkg))
  (reached : world = run labels (World.initial (server pkg) store cell))

include reached

theorem success_effect (i : Nat) (http : HttpRequest) (here : (jobs world)[i]? = some http)
    (succeeded : i ∈ successes world.trace) :
    ∃ status response past, view i world.trace = .said (.send status (.api response)) :: past ∧
    Effect pkg http past response := by
  subst reached
  obtain ⟨status, response, answered, fine, done⟩ := mem_successes _ i succeeded
  obtain ⟨past, shape, _, reply⟩ := answer_reply pkg labels store cell i http status _ here answered
  exact ⟨status, response, past, shape, reply_success pkg http past response reply fine done⟩

theorem all_carried_out {F : Type} (select : Note sig → Option (Change F)) (endpoint : Endpoint)
    (change : Js.Value → Change F)
    (updating : ∀ http past response, endpointOf http = some endpoint → Effect pkg http past response →
      past.filterMap select = [change http.body])
    (routed : ∀ http ∈ jobs world, endpointOf http = some endpoint)
    (all : ∀ i, i < (jobs world).length → i ∈ successes world.trace) :
    carriedOut select (jobs world) world.trace = jobs world := by
  apply carried_all
  intro i http here unchanged
  obtain ⟨status, response, past, shape, effect⟩ := success_effect pkg store cell labels world reached i http here
    (all i (List.getElem?_eq_some_iff.mp here).1)
  have made := updating http past response (routed http (List.mem_of_getElem? here)) effect
  rw [shape, List.filterMap_cons] at unchanged
  cases seen : select (.said (.send status (.api response))) <;> simp [seen, made] at unchanged

end Successes

theorem disjoint_updates_commute (pkg : Packages) (strings : StringQueries pkg)
    (meetingUpdates : UpdatesBy (meetingCast pkg) pkg.meetingChange) (userUpdates : UpdatesBy (userCast pkg) pkg.userChange)
    (store : Store) (cell : Body) (labels : List (Label (server pkg))) (world : World (server pkg))
    (reached : world = run labels (World.initial (server pkg) store cell)) (name : String) :
    (∀ meeting ∈ store.meetings.docs, meeting.row .meetingId = some (.str name) →
      DisjointEdits .updateMeeting "meetingId" MeetingField.meetingId name (jobs world) →
      (∀ order : List Js.Value, order.Perm ((carriedOut meetingUpdate (jobs world) world.trace).map HttpRequest.body) →
        world.store.meetings.docs =
          rewritten store.meetings.docs meeting.id ((order.map (valuesOf (meetingCast pkg))).foldr overlay meeting.row)) ∧
      ((∀ i, i < (jobs world).length → i ∈ successes world.trace) →
        carriedOut meetingUpdate (jobs world) world.trace = jobs world)) ∧
    ∀ user ∈ store.users.docs, user.row .userId = some (.str name) →
      DisjointEdits .editUser "userId" UserField.userId name (jobs world) →
      (∀ order : List Js.Value, order.Perm ((carriedOut userUpdate (jobs world) world.trace).map HttpRequest.body) →
        world.store.users.docs =
        rewritten store.users.docs user.id ((order.map (valuesOf (userCast pkg))).foldr overlay user.row)) ∧
      ((∀ i, i < (jobs world).length → i ∈ successes world.trace) →
        carriedOut userUpdate (jobs world) world.trace = jobs world) := by
  constructor
  · intro meeting member named edits
    refine ⟨?_, all_carried_out pkg store cell labels world reached meetingUpdate .updateMeeting _ (meeting_effect pkg)
      fun http there => (edits.edits http there).route⟩
    exact edits_commute _ _ _ name pkg _ _ _ _ (meeting_editing pkg strings name) meetingUpdates store cell labels world reached
      meeting member (rewritten_self store.meetings meeting member) named edits
  · intro user member named edits
    refine ⟨?_, all_carried_out pkg store cell labels world reached userUpdate .editUser _ (edit_effect pkg)
      fun http there => (edits.edits http there).route⟩
    exact edits_commute _ _ _ name pkg _ _ _ _ (user_editing pkg strings name) userUpdates store cell labels world
      reached user member (rewritten_self store.users user member) named edits

def Reference.meeting : Doc MeetingField where
  id := 0
  row := fun
    | .meetingId => some (.str "id")
    | .topic => some (.str "old")
    | .meetingPlace => some (.str "old")
    | _ => none

def Reference.session : Doc AuthField where
  id := 0
  row := fun
    | .userId => some (.str "u1")
    | .authToken => some (.str (Reference.tokenAt 5000))
    | .tokenSecret => some (.str secretKey)
    | _ => none

-- One user with a session, and one meeting.
def Reference.oneOfEach : Store where
  users := Reference.oneUser.users
  auths := ⟨[Reference.session], 1, by simp [Reference.session], by simp, by simp⟩
  meetings := ⟨[Reference.meeting], 1, by simp [Reference.meeting], by simp, by simp⟩

def Reference.topicBody : Js.Value := .obj [("topic", .str "new")]

def Reference.placeBody : Js.Value := .obj [("meetingPlace", .str "new")]

-- Both requests read the meeting before either writes.
def Reference.interleaved : List (Label (server Reference.packages)) :=
  .start (Reference.meetingRequest ["id", "updateMeeting"] .put Reference.topicBody) (Reference.ambient 6000) ::
    .start (Reference.meetingRequest ["id", "updateMeeting"] .put Reference.placeBody) (Reference.ambient 6000) ::
    Reference.turns 0 2 6000 ++ Reference.turns 1 2 6000 ++ Reference.turns 1 3 6000 ++ Reference.turns 0 3 6000

theorem reference_updates_commute :
    (run Reference.interleaved (World.initial (server Reference.packages) Reference.oneOfEach (.thrown ""))).store.meetings.docs =
      rewritten [Reference.meeting] 0
        (([Reference.topicBody, Reference.placeBody].map (valuesOf (meetingCast Reference.packages))).foldr overlay
          Reference.meeting.row) := by
  have commute := (disjoint_updates_commute Reference.packages reference_string_queries
      reference_meeting_updates reference_user_updates
    Reference.oneOfEach (.thrown "") Reference.interleaved _ rfl "id").1 Reference.meeting (List.mem_singleton.mpr rfl) rfl
  rw [run_jobs] at commute
  have edits : ∀ body, Plain body → ¬ Names body MeetingField.meetingId →
      Edits .updateMeeting "meetingId" MeetingField.meetingId "id" (Reference.meetingRequest ["id", "updateMeeting"] .put body) :=
    fun body plain unnamed => ⟨rfl, rfl, plain, unnamed⟩
  obtain ⟨stored, all⟩ := commute (by
    constructor
    · intro http member
      rcases List.mem_cons.mp member with rfl | member
      · exact edits _ ⟨_, rfl, by decide⟩ (by decide)
      · rw [List.mem_singleton.mp member]
        exact edits _ ⟨_, rfl, by decide⟩ (by decide)
    · refine List.pairwise_pair.mpr ?_
      intro path
      cases path <;> decide)
  apply stored
  rw [all (by decide +kernel)]
  exact .refl _

end Planner
