import PlannerBackend.Contract
import PlannerBackend.Reference

set_option autoImplicit false

namespace Planner

open Docs Resume

def VerifyUndoesSign (pkg : Packages) : Prop :=
  ∀ claims secret token now decoded, pkg.jwtSign claims secret = .ok token → pkg.jwtVerify token secret now = some decoded →
    decoded = claims

structure JwtSound (pkg : Packages) : Prop where
  onlySigned : ∀ token secret now claims, pkg.jwtVerify token secret now = some claims → pkg.jwtSign claims secret = .ok token
  payload : VerifyUndoesSign pkg

theorem reference_verify_undoes_sign : VerifyUndoesSign Reference.packages := by
  intro claims secret token now decoded signed accepted
  cases signed
  rw [Reference.packages_verify_token] at accepted
  split at accepted
  · exact (Option.some.inj accepted).symm
  · cases accepted

theorem reference_jwt_sound : JwtSound Reference.packages where
  onlySigned := fun given secret now claims accepted =>
      congrArg Except.ok (Reference.verify_signed given secret now claims accepted)
  payload := reference_verify_undoes_sign

def LoggedIn (known : List HttpRequest) (trace : Trace sig) (userId : Option String) : Prop :=
  ∃ j http, known[j]? = some http ∧ endpointOf http = some .logInUser ∧ Checked (requestOf http) (view j trace) userId

theorem checked_mono (req : Request) (old new : History sig) (userId : Option String)
    (grows : ∀ note, note ∈ old → note ∈ new) (checked : Checked req old userId) : Checked req new userId := by
  obtain ⟨doc, found, compared, same⟩ := checked
  exact ⟨doc, grows _ found, grows _ compared, same⟩

theorem logged_in_born (known : List HttpRequest) (job : HttpRequest) (trace : Trace sig) (userId : Option String)
    (loggedIn : LoggedIn known trace userId) : LoggedIn (known ++ [job]) trace userId := by
  obtain ⟨j, http, here, login, checked⟩ := loggedIn
  refine ⟨j, http, ?_, login, checked⟩
  rw [List.getElem?_append_left (List.getElem?_eq_some_iff.mp here).1]
  exact here

theorem logged_in_mono (known : List HttpRequest) (old new : Trace sig) (userId : Option String)
    (grows : ∀ entry, entry ∈ old → entry ∈ new) (loggedIn : LoggedIn known old userId) : LoggedIn known new userId := by
  obtain ⟨j, http, here, login, checked⟩ := loggedIn
  refine ⟨j, http, here, login, checked_mono _ _ _ _ ?_ checked⟩
  intro note member
  exact (mem_view j note new).mpr (grows _ ((mem_view j note old).mp member))

-- What is known of every auth record: its token was signed for a payload whose
-- user had been found and whose password had been checked.
structure Sourced (pkg : Packages) (known : List HttpRequest) (trace : Trace sig) (auth : Doc AuthField) : Prop where
  signed : ∃ token claims, text (auth.row .authToken) = some token ∧ pkg.jwtSign claims secretKey = .ok token ∧
    LoggedIn known trace (text (claims.data .userId))
  secret : text (auth.row .tokenSecret) = some secretKey

structure Provenance (pkg : Packages) (known : List HttpRequest) (trace : Trace sig) (store : Store) : Prop where
  stored : ∀ auth ∈ store.auths.docs, Sourced pkg known trace auth
  read : ∀ i path value auth, (i, .asked (.auths (.findOne path value)) (.ok (some auth))) ∈ trace → Sourced pkg known trace auth
  justified : ∀ newer i userId older, trace = newer ++ (i, .said (.authorised userId)) :: older → LoggedIn known older userId

theorem sourced_born (pkg : Packages) (known : List HttpRequest) (job : HttpRequest) (trace : Trace sig) (auth : Doc AuthField)
    (sourced : Sourced pkg known trace auth) : Sourced pkg (known ++ [job]) trace auth := by
  obtain ⟨⟨token, claims, held, signed, loggedIn⟩, secret⟩ := sourced
  exact ⟨⟨token, claims, held, signed, logged_in_born known job trace _ loggedIn⟩, secret⟩

theorem sourced_grows (pkg : Packages) (known : List HttpRequest) (entry : Nat × Note sig) (trace : Trace sig)
    (auth : Doc AuthField) (sourced : Sourced pkg known trace auth) : Sourced pkg known (entry :: trace) auth := by
  obtain ⟨⟨token, claims, held, signed, loggedIn⟩, secret⟩ := sourced
  exact ⟨⟨token, claims, held, signed, logged_in_mono known trace _ _ (fun _ => List.mem_cons_of_mem entry) loggedIn⟩, secret⟩

theorem sourced_authorises (pkg : Packages) (jwt : JwtSound pkg) (known : List HttpRequest) (trace : Trace sig)
    (auth : Doc AuthField) (sourced : Sourced pkg known trace auth) (now : Nat) (decoded : Claims)
    (verified : verifyClaim pkg (text (auth.row .authToken)) (text (auth.row .tokenSecret)) now = some decoded) :
    LoggedIn known trace (text (decoded.data .userId)) := by
  obtain ⟨⟨token, claims, held, signed, loggedIn⟩, secret⟩ := sourced
  rw [held, secret] at verified
  rw [jwt.payload claims secretKey token now decoded signed verified]
  exact loggedIn

theorem justified_cons (known : List HttpRequest) (entry : Nat × Note sig) (trace : Trace sig)
    (earlier : ∀ newer i userId older, trace = newer ++ (i, .said (.authorised userId)) :: older → LoggedIn known older userId)
    (here : ∀ i userId, entry = (i, .said (.authorised userId)) → LoggedIn known trace userId)
    (newer : Trace sig) (i : Nat) (userId : Option String) (older : Trace sig)
    (split : entry :: trace = newer ++ (i, .said (.authorised userId)) :: older) : LoggedIn known older userId := by
  rcases split_cons entry trace newer older _ split with ⟨_, head, rfl⟩ | ⟨rest, _, before⟩
  · exact here i userId head
  · exact earlier rest i userId older before

theorem issued_sourced (pkg : Packages) (known : List HttpRequest) (trace : Trace sig) (i : Nat) (http : HttpRequest)
    (here : known[i]? = some http) (login : endpointOf http = some .logInUser) (session : LogInUser.Session)
    (rest : History sig) (note : Note sig) (split : view i trace = note :: rest)
    (issued : Issued pkg (requestOf http) rest session) (auth : Doc AuthField)
    (token : auth.row .authToken = some (.str session.tokenDetails.token))
    (secret : auth.row .tokenSecret = some (.str session.tokenDetails.tokenSecret)) : Sourced pkg known trace auth := by
  obtain ⟨id, iat, exp, signed⟩ := issued.signed
  refine ⟨⟨session.tokenDetails.token, _, by rw [token]; rfl, signed, i, http, here, login, ?_⟩, ?_⟩
  · rw [split]
    exact checked_mono _ rest _ _ (fun _ member => List.mem_cons_of_mem note member)
      (issued_checked pkg _ rest session issued)
  · rw [secret, issued.secret]
    rfl

theorem written_sourced (pkg : Packages) (known : List HttpRequest) (trace : Trace sig) (store : Store) (i : Nat)
    (http : HttpRequest) (here : known[i]? = some http) (cmd : Cmd AuthField)
    (allowed : mayAsk pkg http (view i trace) (.auths cmd)) (auth : Doc AuthField) (written : Written store.auths auth cmd) :
    Sourced pkg known trace auth := by
  cases cmd with
  | findOne | find | findOneAndRemove => cases written
  | insert row =>
      obtain ⟨login, session, at_, rest, rfl, split, issued⟩ := allowed
      cases written
      exact issued_sourced pkg known trace i http here login session rest _ split issued _ rfl rfl
  | resave given paths =>
      obtain ⟨login, session, at_, rest, rfl, split, issued⟩ := allowed
      obtain ⟨old, _, _, rfl⟩ := written
      exact issued_sourced pkg known trace i http here login session rest _ split issued _ rfl rfl
  | update => cases allowed

theorem provenance_rule (pkg : Packages) (jwt : JwtSound pkg) :
    EventRule (m := server pkg) (contract pkg) unguarded (Provenance pkg) where
  born := by
    intro known trace store job holds
    refine ⟨fun auth member => sourced_born pkg known job trace auth (holds.stored auth member), ?_, ?_⟩
    · intro i path value auth member
      exact sourced_born pkg known job trace auth (holds.read i path value auth member)
    · intro newer i userId older split
      exact logged_in_born known job older userId (holds.justified newer i userId older split)
  told := by
    intro known trace store i job out holds here allowed
    refine ⟨fun auth member => sourced_grows pkg known _ trace auth (holds.stored auth member), ?_, ?_⟩
    · intro j path value auth member
      rcases List.mem_cons.mp member with same | older
      · cases same
      · exact sourced_grows pkg known _ trace auth (holds.read j path value auth older)
    · apply justified_cons known _ trace holds.justified
      intro j userId same
      cases same
      obtain ⟨_, auth, now, decoded, found, verified, rfl⟩ := allowed
      exact sourced_authorises pkg jwt known trace auth
        (holds.read i _ _ auth ((mem_view i _ trace).mp found)) now decoded verified
  asked := by
    intro known trace store i job op choice holds here allowed _
    have quiet : ∀ j userId, (i, .asked op (execute pkg op choice store).1) = (j, (.said (.authorised userId) : Note sig)) →
        LoggedIn known trace userId := by
      intro j userId same
      cases same
    refine ⟨?_, ?_, justified_cons known _ trace holds.justified quiet⟩
    · intro auth member
      cases op with
      | users | meetings => exact sourced_grows pkg known _ trace auth (holds.stored auth member)
      | compare => cases choice <;> exact sourced_grows pkg known _ trace auth (holds.stored auth member)
      | auths cmd =>
          rcases executed_docs pkg.castQuery store.auths _ cmd _ (exec_executed pkg.castQuery cmd choice store.auths) auth member
            with old | written
          · exact sourced_grows pkg known _ trace auth (holds.stored auth old)
          · exact sourced_grows pkg known _ trace auth
              (written_sourced pkg known trace store i job here cmd allowed.2 auth written)
    · intro j path value auth member
      rcases List.mem_cons.mp member with same | older
      · cases op with
        | users | meetings | compare => cases same
        | auths cmd =>
            have found := (noted_executed pkg cmd _ choice store.auths _ (Prod.mk.inj same).2.symm).2
            exact sourced_grows pkg known _ trace auth (holds.stored auth (executed_found _ _ _ _ _ auth found).1)
      · exact sourced_grows pkg known _ trace auth (holds.read j path value auth older)

theorem provenance_reached (pkg : Packages) (jwt : JwtSound pkg) (store : Store) (empty : store.auths.docs = []) (cell : Body)
    (labels : List (Label (server pkg))) :
    Provenance pkg (jobs (run labels (World.initial (server pkg) store cell)))
      (run labels (World.initial (server pkg) store cell)).trace (run labels (World.initial (server pkg) store cell)).store := by
  apply (provenance_rule pkg jwt).runs (app_contract pkg) labels _ (initial_tracked _ store cell)
  exact ⟨by simp [World.initial, empty], by simp [World.initial], by simp [World.initial]⟩

-- The request was let through as a user whose password had been checked.
def ActsAs (known : List HttpRequest) (trace : Trace sig) (i : Nat) : Prop :=
  ∃ userId, (i, .said (.authorised userId)) ∈ trace ∧ LoggedIn known trace userId

theorem acts_as_authorised (pkg : Packages) (known : List HttpRequest) (trace : Trace sig) (store : Store)
    (holds : Provenance pkg known trace store) (newer older : Trace sig) (split : trace = newer ++ older) (i : Nat)
    (authorised : Authorised (view i older)) : ActsAs known older i := by
  obtain ⟨userId, told⟩ := authorised
  have member := (mem_view i _ older).mp told
  obtain ⟨after, before, here⟩ := List.append_of_mem member
  have loggedIn := holds.justified (newer ++ after) i userId before (by rw [split, here, List.append_assoc])
  refine ⟨userId, member, logged_in_mono known before older userId ?_ loggedIn⟩
  intro entry inBefore
  rw [here]
  exact List.mem_append_right _ (List.mem_cons_of_mem _ inBefore)

-- The writes that are for authorised requests only.
def protectedWrite (http : HttpRequest) : Op → Bool
  | .meetings cmd => isWrite cmd
  | .users cmd => !keeps cmd && decide (endpointOf http ≠ some .recoverForgotPassword)
  | _ => false

theorem protected_authorised (pkg : Packages) (http : HttpRequest) (h : History sig) (op : Op) (allowed : mayAsk pkg http h op)
    (isProtected : protectedWrite http op = true) : Authorised h := by
  cases op with
  | auths | compare => cases isProtected
  | meetings cmd => exact allowed isProtected
  | users cmd =>
      cases cmd with
      | findOne | find | insert => cases isProtected
      | resave => cases allowed
      | findOneAndRemove => exact allowed.2
      | update =>
          rcases allowed with recover | ⟨_, authorised⟩
          · simp [protectedWrite, recover] at isProtected
          · exact authorised

theorem authority_rests_on_login (pkg : Packages) (jwt : JwtSound pkg) (store : Store) (empty : store.auths.docs = [])
    (cell : Body) (labels : List (Label (server pkg))) (world : World (server pkg))
    (reached : world = run labels (World.initial (server pkg) store cell)) :
    (∀ newer i userId older, world.trace = newer ++ (i, .said (.authorised userId)) :: older →
      LoggedIn (jobs world) older userId) ∧
    (∀ newer i http op ans older, world.trace = newer ++ (i, .asked op ans) :: older → (jobs world)[i]? = some http →
      protectedWrite http op = true → ActsAs (jobs world) older i) ∧
    (∀ label, (step world label).store.meetings ≠ world.store.meetings →
      ∃ i choice env, label = .resume i choice env ∧ ActsAs (jobs world) world.trace i) ∧
    (∀ label, ∀ doc ∈ world.store.users.docs, doc ∉ (step world label).store.users.docs →
      ∃ i choice env http, label = .resume i choice env ∧ (jobs world)[i]? = some http ∧
        (endpointOf http = some .recoverForgotPassword ∨ ActsAs (jobs world) world.trace i)) := by
  subst reached
  have holds := provenance_reached pkg jwt store empty cell labels
  have lawful := run_lawful (contract pkg) (app_contract pkg) labels store cell
  have tracked := run_tracked (contract pkg) (app_contract pkg) labels _ (initial_tracked _ store cell)
  generalize run labels (World.initial (server pkg) store cell) = world at *
  refine ⟨holds.justified, ?_, ?_, ?_⟩
  · intro newer i http op ans older split here isProtected
    obtain ⟨job, owner, allowed⟩ := lawful newer i _ older split
    cases here.symm.trans owner
    exact acts_as_authorised pkg _ _ _ holds (newer ++ [(i, .asked op ans)]) older (by simp [split]) i
      (protected_authorised pkg http _ op allowed.2 isProtected)
  · intro label changed
    rcases step_store world label with same | ⟨i, choice, env, job, op, next, rfl, here, after⟩
    · exact absurd (by rw [same]) changed
    · rw [after] at changed
      obtain ⟨cmd, rfl, writes⟩ := execute_meetings pkg op choice world.store changed
      have authorised := protected_authorised pkg job _ (.meetings cmd) (tracked.meets i _ here).1.2 writes
      exact ⟨i, choice, env, rfl, acts_as_authorised pkg _ _ _ holds [] _ rfl i authorised⟩
  · intro label doc member lost
    rcases step_store world label with same | ⟨i, choice, env, job, op, next, rfl, here, after⟩
    · exact absurd (by rw [same]; exact member) lost
    · rw [after] at lost
      obtain ⟨cmd, rfl, loses⟩ := execute_users pkg op choice world.store doc member lost
      refine ⟨i, choice, env, job, rfl, jobs_lookup world i _ here, ?_⟩
      by_cases recover : endpointOf job = some .recoverForgotPassword
      · exact .inl recover
      · have isProtected : protectedWrite job (.users cmd) = true := by simp [protectedWrite, loses, recover]
        have authorised := protected_authorised pkg job _ (.users cmd) (tracked.meets i _ here).1.2 isProtected
        exact .inr (acts_as_authorised pkg _ _ _ holds [] _ rfl i authorised)

def authorisations (trace : Trace sig) : List (Nat × Option String) :=
  trace.filterMap fun
    | (i, .said (.authorised userId)) => some (i, userId)
    | _ => none

theorem mem_authorisations (trace : Trace sig) (i : Nat) (userId : Option String)
    (member : (i, userId) ∈ authorisations trace) : (i, .said (.authorised userId)) ∈ trace := by
  obtain ⟨⟨j, note⟩, inTrace, eq⟩ := List.mem_filterMap.mp member
  cases note with
  | asked => cases eq
  | said out =>
      cases out with
      | send | mail => cases eq
      | authorised seen =>
          cases eq
          exact inTrace

-- A login and then a request for all users with the token it returned.
def Reference.loginThenList : World (server Reference.packages) :=
  run (.start Reference.logInRequest (Reference.ambient 5000) :: Reference.turns 0 8 5000 ++
      .start (Reference.withToken .get ["api", "v1", "user", "view", "all"] (Reference.tokenAt 5000) .undefined)
        (Reference.ambient 6000) :: Reference.turns 1 2 6000)
    (World.initial (server Reference.packages) Reference.oneUser (.thrown ""))

theorem reference_authority_rests_on_login :
    ∃ newer older, Reference.loginThenList.trace = newer ++ (1, .said (.authorised (some "u1"))) :: older ∧
      LoggedIn (jobs Reference.loginThenList) older (some "u1") := by
  have told : (1, some "u1") ∈ authorisations Reference.loginThenList.trace := by decide +kernel
  obtain ⟨newer, older, split⟩ := List.append_of_mem (mem_authorisations _ _ _ told)
  have holds := authority_rests_on_login Reference.packages reference_jwt_sound Reference.oneUser rfl (.thrown "") _
    Reference.loginThenList rfl
  exact ⟨newer, older, split, holds.1 newer 1 (some "u1") older split⟩

end Planner
