import PlannerBackend.Provenance
import PlannerBackend.Solo

set_option autoImplicit false

namespace Planner

open Docs Resume

def StringQueries (pkg : Packages) : Prop :=
  ∀ s, ∃ condition, pkg.castQuery (.str s) = .ok condition ∧ ∀ stored, condition stored = true ↔ stored = some (.str s)

theorem reference_string_queries : StringQueries Reference.packages := by
  intro s
  refine ⟨Reference.equals (.str s), rfl, ?_⟩
  intro stored
  cases stored <;> simp [Reference.equals, indexEntry]

def authorisedUser (notes : History sig) : Option (Option String) :=
  notes.findSome? fun
    | .said (.authorised userId) => some userId
    | _ => none

-- The userId with which isAuthorized calls next() in this state, if it does.
def authorisedAs (pkg : Packages) (req : Request) (choice : Choice) (at_ : Ambient) (store : Store) : Option (Option String) :=
  authorisedUser (alone (server pkg) (fun _ => choice) (fun _ => at_) (isAuthorized pkg req fun _ => .halt) 0 0
    (.thrown "") store).notes

theorem authorised_as_iff (pkg : Packages) (req : Request) (choice : Choice) (at_ : Ambient) (store : Store)
    (userId : Option String) :
    authorisedAs pkg req choice at_ store = some userId ↔ Js.truthy (presentedToken req) = true ∧ ∃ auth decoded,
      (exec pkg.castQuery (.findOne .authToken (presentedToken req)) choice store.auths).1 = .ok (some auth) ∧
      verifyClaim pkg (text (auth.row .authToken)) (text (auth.row .tokenSecret)) at_.now = some decoded ∧
      text (decoded.data .userId) = userId := by
  unfold authorisedAs isAuthorized
  by_cases given : Js.truthy (presentedToken req) = true
  · simp only [given, if_true, authModel.call, alone, execute, true_and]
    cases found : (exec pkg.castQuery (.findOne .authToken (presentedToken req)) choice store.auths).1 with
    | error message => simp [alone, send, authorisedUser]
    | ok result =>
        cases result with
        | none => simp [when_found_none, alone, send, authorisedUser]
        | some auth =>
            simp only [when_found_some auth documentValue _ _ (is_empty_document auth), alone]
            cases checked : verifyClaim pkg (text (auth.row .authToken)) (text (auth.row .tokenSecret)) at_.now with
            | none => simp [alone, send, authorisedUser, checked]
            | some decoded => simp [alone, authorisedUser, checked]
  · simp [given, alone, send, authorisedUser]

theorem only_token_holders_pass (pkg : Packages) (strings : StringQueries pkg) (req : Request) (at_ : Ambient) (store : Store) :
    (∀ choice userId, authorisedAs pkg req choice at_ store = some userId →
      ∃ token, presentedToken req = .str token ∧ ∃ auth ∈ store.auths.docs, auth.row .authToken = some (.str token)) ↔
    (Js.truthy (presentedToken req) = true → Js.isString (presentedToken req) = false →
      ∀ condition, pkg.castQuery (presentedToken req) = .ok condition →
        ∀ auth ∈ store.auths.docs, condition (auth.row .authToken) = true →
          verifyClaim pkg (text (auth.row .authToken)) (text (auth.row .tokenSecret)) at_.now = none) := by
  constructor
  · intro sound given odd condition seen auth member holds
    cases verdict : verifyClaim pkg (text (auth.row .authToken)) (text (auth.row .tokenSecret)) at_.now with
    | none => rfl
    | some decoded =>
        obtain ⟨n, found⟩ :=
          find_one_reaches pkg.castQuery store.auths .authToken (presentedToken req) condition auth seen member holds
        have passed := (authorised_as_iff pkg req (.pick n) at_ store _).mpr ⟨given, auth, decoded, found, verdict, rfl⟩
        obtain ⟨token, isToken, _⟩ := sound _ _ passed
        rw [isToken] at odd
        cases odd
  · intro closed choice userId passed
    obtain ⟨given, auth, decoded, found, verdict, _⟩ := (authorised_as_iff pkg req choice at_ store userId).mp passed
    obtain ⟨member, condition, seen, holds⟩ := find_one_found pkg.castQuery store.auths .authToken _ choice auth found
    cases kind : Js.isString (presentedToken req) with
    | true =>
        obtain ⟨token, isToken⟩ := (Js.is_string_iff _).mp kind
        obtain ⟨exact_, same, matches_⟩ := strings token
        rw [isToken, same] at seen
        cases seen
        exact ⟨token, isToken, auth, member, (matches_ _).mp holds⟩
    | false =>
        rw [closed given kind condition seen auth member holds] at verdict
        cases verdict

-- The state after one login.
def Reference.afterLogin : Store :=
  (run (.start Reference.logInRequest (Reference.ambient 5000) :: Reference.turns 0 8 5000)
    (World.initial (server Reference.packages) Reference.oneUser (.thrown ""))).store

theorem reference_token_holder_passes :
    ∃ token, presentedToken
    (requestOf (Reference.withToken .get ["api", "v1", "user", "view", "all"] (Reference.tokenAt 5000) .undefined)) =
      .str token ∧ ∃ auth ∈ Reference.afterLogin.auths.docs, auth.row .authToken = some (.str token) := by
  refine (only_token_holders_pass Reference.packages reference_string_queries _
    (Reference.ambient 6000 0) Reference.afterLogin).mpr ?_ (.pick 0) (some "u1") (by decide +kernel)
  intro _ odd
  cases odd

-- A JSON body may hold a query operator in the place of the token.
def Reference.operatorRequest : HttpRequest where
  method := .get
  path := ["api", "v1", "user", "view", "all"]
  query := .undefined
  body := .obj [("authToken", .obj [("$ne", .str "x")])]
  header := fun _ => none

theorem operator_object_passes :
    authorisedAs Reference.packages (requestOf Reference.operatorRequest) (.pick 0)
    (Reference.ambient 6000 0) Reference.afterLogin =
      some (some "u1") ∧ ∀ token, presentedToken (requestOf Reference.operatorRequest) ≠ .str token := by
  refine ⟨by decide +kernel, ?_⟩
  intro token same
  cases same

end Planner
