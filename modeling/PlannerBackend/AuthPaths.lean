import PlannerBackend.Revocation
import PlannerBackend.SocketLib

set_option autoImplicit false

namespace Planner

open Docs Resume

theorem paths_agree_on_stored_tokens (pkg : Packages) (blank : RejectsBlank pkg) (strings : StringQueries pkg)
    (nulls : NullQueries pkg) (store : Store) (empty : store.auths.docs = []) (cell : Body) (labels : List (Label (server pkg)))
    (world : World (server pkg)) (reached : world = run labels (World.initial (server pkg) store cell)) (req : Request)
    (token : String) (presented : presentedToken req = .str token) (at_ : Ambient) (sockets : SocketServer) (i : Nat)
    (socket : Socket) (here : sockets.sockets[i]? = some socket) (connected : socket.connected = true)
    (running : sockets.crashed = false) :
    ((∃ auth ∈ world.store.auths.docs, heldToken auth.row = some token) →
      ∀ n, authorisedAs pkg req (.pick n) at_ world.store = setUserAs pkg sockets i (.str token) at_.now) ∧
    ((∀ auth ∈ world.store.auths.docs, heldToken auth.row ≠ some token) →
      ∀ choice, authorisedAs pkg req choice at_ world.store = none) ∧
    setUserAs pkg sockets i (.str token) at_.now =
      (pkg.jwtVerify token secretKey at_.now).map fun user => text (user.data .userId) := by
  have genuine := (recorded_reached pkg strings nulls labels store empty cell).genuine
  rw [← reached] at genuine
  have verifies := set_user_verifies pkg sockets i socket here connected running (.str token) at_.now
  have accepted := accepted_held pkg strings world.store genuine req token presented at_
  refine ⟨?_, ?_, verifies⟩
  · intro stored n
    obtain ⟨auth, member, held⟩ := stored
    obtain ⟨other, _, isToken, _⟩ := (genuine auth member).signed
    rw [heldToken, isToken] at held
    cases held
    rw [verifies]
    cases verdict : pkg.jwtVerify token secretKey at_.now with
    | some decoded =>
        simp only [verifyClaimWithoutSecret, verdict, Option.map_some]
        exact held_accepted pkg strings world.store genuine req token presented at_ blank n auth member isToken decoded verdict
    | none =>
        simp only [verifyClaimWithoutSecret, verdict, Option.map_none]
        refine Option.eq_none_iff_forall_ne_some.mpr fun userId passed => ?_
        obtain ⟨_, _, _, decoded, verified, _⟩ := accepted _ userId passed
        rw [verdict] at verified
        cases verified
  · intro absent choice
    refine Option.eq_none_iff_forall_ne_some.mpr fun userId passed => ?_
    obtain ⟨auth, member, isToken, _⟩ := accepted choice userId passed
    refine absent auth member ?_
    rw [heldToken, isToken]
    rfl

def Reference.oneSocket : SocketServer := socketRun Reference.packages [.connection] SocketServer.initial

theorem reference_paths_agree :
    authorisedAs Reference.packages (requestOf (Reference.logOutRequest (Reference.tokenAt 5000))) (.pick 0)
    (Reference.ambient 6000 0)
      (run (Reference.logIn 5000) Reference.initial).store =
    setUserAs Reference.packages Reference.oneSocket 0 (.str (Reference.tokenAt 5000)) 6000 := by
  refine (paths_agree_on_stored_tokens Reference.packages reference_rejects_blank reference_string_queries reference_null_queries
    Reference.oneUser rfl (.thrown "") (Reference.logIn 5000) _ rfl _ _ rfl (Reference.ambient 6000 0) Reference.oneSocket 0
    ⟨true, none, [⟨"verifyUser", .text ""⟩]⟩ rfl rfl rfl).1 ?_ 0
  have held : (run (Reference.logIn 5000) Reference.initial).store.auths.docs.any
    (fun auth => heldToken auth.row == some (Reference.tokenAt 5000)) = true := by decide +kernel
  simp only [List.any_eq_true, beq_iff_eq] at held
  exact held

theorem revoked_token_passes_set_user :
    let left := run Reference.logInOut Reference.initial
    authorisedAs Reference.packages (requestOf (Reference.logOutRequest (Reference.tokenAt 5000))) (.pick 0)
      (Reference.ambient 6000 0) left.store = none ∧
    setUserAs Reference.packages Reference.oneSocket 0 (.str (Reference.tokenAt 5000)) 6000 = some (some "u1") := by
  decide +kernel

-- jwt.verify of a signed token compares whole seconds with exp.
def ExpiresBySeconds (pkg : Packages) : Prop :=
  ∀ claims secret token now, pkg.jwtSign claims secret = .ok token →
    pkg.jwtVerify token secret now = if now / 1000 < claims.exp then some claims else none

theorem reference_expires_by_seconds : ExpiresBySeconds Reference.packages := by
  intro claims secret token now signed
  cases signed
  exact Reference.packages_verify_token claims secret now

def day : Nat := 24 * 60 * 60 * 1000

theorem issued_token_expiry (pkg : Packages) (expires : ExpiresBySeconds pkg) (strings : StringQueries pkg)
    (nulls : NullQueries pkg) (id iat exp : Ambient) (data : Row UserField) (token : String)
    (signed : pkg.jwtSign (claimsFor id iat exp data) secretKey = .ok token) (now : Nat) :
    ((exp.now + day ≤ now →
        (∀ labels store cell, store.auths.docs = [] → ∀ req choice at_, presentedToken req = .str token → at_.now = now →
          authorisedAs pkg req choice at_ (run labels (World.initial (server pkg) store cell)).store = none) ∧
        ∀ sockets i, setUserAs pkg sockets i (.str token) now = none) ∧
      (exp.now ≤ now → now < exp.now + day → (verifyClaim pkg (some token) (some secretKey) now).isSome = true)) ↔
    (now < exp.now + day ∨ exp.now + 60 * 60 * 24 ≤ now / 1000) := by
  have verdict := expires (claimsFor id iat exp data) secretKey token now signed
  have lifetime : (claimsFor id iat exp data).exp = exp.now + 60 * 60 * 24 := rfl
  rw [lifetime] at verdict
  constructor
  · intro mortal
    obtain ⟨dead, _⟩ := mortal
    by_cases young : now < exp.now + day
    · exact .inl young
    · right
      have refused := (dead (by omega)).2 (socketRun pkg [.connection] SocketServer.initial) 0
      rw [set_user_verifies pkg _ 0 ⟨true, none, [⟨"verifyUser", .text ""⟩]⟩ rfl rfl rfl,
        verifyClaimWithoutSecret, verdict] at refused
      by_cases live : now / 1000 < exp.now + 60 * 60 * 24
      · simp [live] at refused
      · omega
  · intro condition
    refine ⟨?_, ?_⟩
    · intro old
      have rejected : pkg.jwtVerify token secretKey now = none := by
        rw [verdict, if_neg (by unfold day at *; omega)]
      refine ⟨?_, ?_⟩
      · intro labels store cell empty req choice at_ presented clock
        have genuine := (recorded_reached pkg strings nulls labels store empty cell).genuine
        refine Option.eq_none_iff_forall_ne_some.mpr fun userId passed => ?_
        obtain ⟨_, _, _, decoded, verified, _⟩ := accepted_held pkg strings _ genuine req token presented at_ choice userId passed
        rw [clock, rejected] at verified
        cases verified
      · intro sockets i
        refine Option.eq_none_iff_forall_ne_some.mpr fun userId passed => ?_
        have verified := set_user_accepted pkg sockets i (.str token) now userId passed
        simp [verifyClaimWithoutSecret, rejected] at verified
    · intro _ young
      have live : now / 1000 < exp.now + 60 * 60 * 24 := by
        unfold day at young
        omega
      simp [verifyClaim, verdict, live]

theorem reference_token_expiry :
    (verifyClaim Reference.packages (some (Reference.tokenAt 5000)) (some secretKey) 6000).isSome = true ∧
    setUserAs Reference.packages Reference.oneSocket 0 (.str (Reference.tokenAt 5000)) 91400000 = none := by
  have expiry := issued_token_expiry Reference.packages reference_expires_by_seconds reference_string_queries
    reference_null_queries (Reference.ambient 5000 0) (Reference.ambient 5000 1) (Reference.ambient 5000 2)
    (without (hydrateUser Reference.account.row) [.password, .createdOn]) (Reference.tokenAt 5000) rfl
  exact ⟨((expiry 6000).mpr (.inl (by decide))).2 (by decide) (by decide),
    (((expiry 91400000).mpr (.inr (by decide))).1 (by decide)).2 Reference.oneSocket 0⟩

theorem token_outlives_its_day :
    authorisedAs Reference.packages (requestOf (Reference.logOutRequest (Reference.tokenAt 5000))) (.pick 0)
      (Reference.ambient (5000 + day) 0) (run (Reference.logIn 5000) Reference.initial).store = some (some "u1") ∧
    setUserAs Reference.packages Reference.oneSocket 0 (.str (Reference.tokenAt 5000)) (5000 + day) = some (some "u1") := by
  decide +kernel

end Planner
