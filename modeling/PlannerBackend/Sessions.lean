import PlannerBackend.Gate
import PlannerBackend.Keyed

set_option autoImplicit false

namespace Planner

open Docs Resume

def NullQueries (pkg : Packages) : Prop :=
  ∃ condition, pkg.castQuery .null = .ok condition ∧ ∀ stored, condition stored = true ↔ stored = none ∨ stored = some .null

theorem reference_null_queries : NullQueries Reference.packages := by
  refine ⟨Reference.equals .null, rfl, ?_⟩
  intro stored
  cases stored <;> simp [Reference.equals, indexEntry]

def owner (row : Row AuthField) : Option String := text (row .userId)

def heldToken (row : Row AuthField) : Option String := text (row .authToken)

theorem text_id_scalar (userId : Option String) : text (some (LogInUser.idScalar userId)) = userId := by
  cases userId <;> rfl

theorem owner_query (pkg : Packages) (strings : StringQueries pkg) (nulls : NullQueries pkg) (userId : Option String) :
    ∃ condition, pkg.castQuery (LogInUser.idScalar userId).value = .ok condition ∧
      ∀ other, condition (some (LogInUser.idScalar other)) = true ↔ other = userId := by
  cases userId with
  | none =>
      obtain ⟨condition, seen, holds⟩ := nulls
      refine ⟨condition, seen, ?_⟩
      intro other
      rw [holds]
      cases other <;> simp [LogInUser.idScalar]
  | some s =>
      obtain ⟨condition, seen, holds⟩ := strings s
      refine ⟨condition, seen, ?_⟩
      intro other
      rw [holds]
      cases other <;> simp [LogInUser.idScalar]

-- An auth record as logInUser writes them: its token carries its own userId.
structure Genuine (pkg : Packages) (auth : Doc AuthField) : Prop where
  owned : ∃ userId, auth.row .userId = some (LogInUser.idScalar userId)
  signed : ∃ token claims, auth.row .authToken = some (.str token) ∧ pkg.jwtSign claims secretKey = .ok token ∧
    text (claims.data .userId) = owner auth.row
  secret : auth.row .tokenSecret = some (.str secretKey)

theorem genuine_matches (pkg : Packages) (strings : StringQueries pkg) (nulls : NullQueries pkg) (auth : Doc AuthField)
    (genuine : Genuine pkg auth) (userId : Option String) (condition : Condition)
    (seen : pkg.castQuery (LogInUser.idScalar userId).value = .ok condition) :
    condition (auth.row .userId) = true ↔ owner auth.row = userId := by
  obtain ⟨exact_, same, matches_⟩ := owner_query pkg strings nulls userId
  rw [same] at seen
  cases seen
  obtain ⟨other, owned⟩ := genuine.owned
  rw [owner, owned, text_id_scalar]
  exact matches_ other

theorem genuine_verdict (pkg : Packages) (undoes : VerifyUndoesSign pkg) (auth : Doc AuthField) (genuine : Genuine pkg auth)
    (token : String) (holds : auth.row .authToken = some (.str token)) (now : Nat) (decoded : Claims)
    (verified : pkg.jwtVerify token secretKey now = some decoded) : text (decoded.data .userId) = owner auth.row := by
  obtain ⟨held, claims, isToken, signed, named⟩ := genuine.signed
  cases isToken.symm.trans holds
  rw [undoes claims secretKey token now decoded signed verified]
  exact named

theorem genuine_verify (pkg : Packages) (auth : Doc AuthField) (genuine : Genuine pkg auth) (token : String)
    (holds : auth.row .authToken = some (.str token)) (now : Nat) :
    verifyClaim pkg (text (auth.row .authToken)) (text (auth.row .tokenSecret)) now = pkg.jwtVerify token secretKey now := by
  rw [holds, genuine.secret]
  rfl

def RejectsBlank (pkg : Packages) : Prop := ∀ secret now, pkg.jwtVerify "" secret now = none

theorem reference_rejects_blank : RejectsBlank Reference.packages := fun _ _ => rfl

section Acceptance

variable (pkg : Packages) (strings : StringQueries pkg) (store : Store) (genuine : ∀ auth ∈ store.auths.docs, Genuine pkg auth)
  (req : Request) (token : String) (presented : presentedToken req = .str token) (at_ : Ambient)

include strings genuine presented

theorem accepted_held (choice : Choice) (userId : Option String)
    (accepted : authorisedAs pkg req choice at_ store = some userId) :
    ∃ auth ∈ store.auths.docs, auth.row .authToken = some (.str token) ∧ ∃ decoded,
      pkg.jwtVerify token secretKey at_.now = some decoded ∧ text (decoded.data .userId) = userId := by
  obtain ⟨_, auth, decoded, found, verdict, named⟩ := (authorised_as_iff pkg req choice at_ store userId).mp accepted
  rw [presented] at found
  obtain ⟨member, condition, seen, holds⟩ := find_one_found pkg.castQuery store.auths .authToken _ choice auth found
  obtain ⟨exact_, same, matches_⟩ := strings token
  cases same.symm.trans seen
  have isToken := (matches_ _).mp holds
  rw [genuine_verify pkg auth (genuine auth member) token isToken] at verdict
  exact ⟨auth, member, isToken, decoded, verdict, named⟩

theorem held_accepted (blank : RejectsBlank pkg) (n : Nat) (auth : Doc AuthField) (member : auth ∈ store.auths.docs)
    (isToken : auth.row .authToken = some (.str token)) (decoded : Claims)
    (verified : pkg.jwtVerify token secretKey at_.now = some decoded) :
    authorisedAs pkg req (.pick n) at_ store = some (text (decoded.data .userId)) := by
  obtain ⟨condition, seen, matches_⟩ := strings token
  obtain ⟨picked, found⟩ := find_one_some pkg.castQuery store.auths .authToken (.str token) condition auth n seen member
    ((matches_ _).mpr isToken)
  obtain ⟨inStore, condition', seen', alsoHolds⟩ := find_one_found pkg.castQuery store.auths _ _ _ picked found
  cases seen.symm.trans seen'
  have given : Js.truthy (.str token) = true := by
    cases empty : (token == "") with
    | false => simpa [Js.truthy] using empty
    | true =>
        rw [beq_iff_eq.mp empty, blank secretKey at_.now] at verified
        cases verified
  rw [authorised_as_iff, presented]
  refine ⟨given, picked, decoded, found, ?_, rfl⟩
  rw [genuine_verify pkg picked (genuine picked inStore) token ((matches_ _).mp alsoHolds)]
  exact verified

end Acceptance

section Records

variable (pkg : Packages) (req : Request) (rest : History sig) (session : LogInUser.Session) (at_ : Ambient)
  (issued : Issued pkg req rest session)

include issued

theorem issued_claims : ∃ claims, pkg.jwtSign claims secretKey = .ok session.tokenDetails.token ∧
    text (claims.data .userId) = session.userId := by
  obtain ⟨id, iat, exp, signed⟩ := issued.signed
  exact ⟨_, signed, rfl⟩

theorem new_auth_genuine (id : Nat) : Genuine pkg ⟨id, LogInUser.newAuth session at_⟩ := by
  obtain ⟨claims, signed, named⟩ := issued_claims pkg req rest session issued
  refine ⟨⟨session.userId, rfl⟩, ⟨_, claims, rfl, signed, named.trans (text_id_scalar _).symm⟩, ?_⟩
  change some (Scalar.str session.tokenDetails.tokenSecret) = _
  rw [issued.secret]

theorem renewed_genuine (auth : Doc AuthField) (genuine : Genuine pkg auth) (owned : owner auth.row = session.userId) :
    Genuine pkg ⟨auth.id, overlay (LogInUser.tokenPaths session at_) auth.row⟩ := by
  obtain ⟨claims, signed, named⟩ := issued_claims pkg req rest session issued
  refine ⟨genuine.owned, ⟨_, claims, rfl, signed, named.trans owned.symm⟩, ?_⟩
  change some (Scalar.str session.tokenDetails.tokenSecret) = _
  rw [issued.secret]

end Records

abbrev Sessions := Option String → Option String

structure SessionStore (pkg : Packages) (auths : Collection AuthField none) (sessions : Sessions) : Prop where
  genuine : ∀ auth ∈ auths.docs, Genuine pkg auth
  map : Represents auths owner heldToken sessions

section Changes

variable (pkg : Packages) (auths next : Collection AuthField none) (sessions : Sessions)
  (strings : StringQueries pkg) (nulls : NullQueries pkg) (stored : SessionStore pkg auths sessions)

include stored

theorem session_inserted (req : Request) (rest : History sig) (session : LogInUser.Session) (at_ : Ambient)
    (issued : Issued pkg req rest session) (doc : Doc AuthField)
    (absent : ∀ auth ∈ auths.docs, owner auth.row ≠ session.userId)
    (done : Executed pkg.castQuery auths (.insert (.ok (LogInUser.newAuth session at_))) (.ok doc) next) :
    SessionStore pkg next (Function.update sessions session.userId (some session.tokenDetails.token)) ∧
      text (doc.row .authToken) = some session.tokenDetails.token := by
  obtain ⟨row, ok, same, rfl, rfl⟩ := executed_inserted _ _ _ _ doc done
  cases same
  have named : owner (LogInUser.newAuth session at_) = session.userId := text_id_scalar _
  refine ⟨⟨?_, ?_⟩, rfl⟩
  · intro auth member
    rcases (mem_push auths _ ok auth).mp member with old | rfl
    · exact stored.genuine auth old
    · exact new_auth_genuine pkg req rest session at_ issued _
  · have map := represents_push auths owner heldToken sessions stored.map _ ok (by rw [named]; exact absent)
    rw [named] at map
    exact map

theorem session_resaved (req : Request) (rest : History sig) (session : LogInUser.Session) (at_ : Ambient)
    (issued : Issued pkg req rest session) (auth doc : Doc AuthField) (member : auth ∈ auths.docs)
    (owned : owner auth.row = session.userId)
    (done : Executed pkg.castQuery auths (.resave auth (LogInUser.tokenPaths session at_)) (.ok doc) next) :
    SessionStore pkg next (Function.update sessions session.userId (some session.tokenDetails.token)) ∧
      text (doc.row .authToken) = some session.tokenDetails.token := by
  obtain ⟨same, inHeld, ok, sameId, rfl, rfl⟩ := executed_resaved _ _ _ auth doc _ done
  obtain rfl := same_id_same_doc auths same auth inHeld member sameId
  refine ⟨⟨?_, ?_⟩, rfl⟩
  · intro found inNew
    rcases (mem_replace auths _ _ ok found).mp inNew with ⟨old, _⟩ | ⟨rfl, _⟩
    · exact stored.genuine found old
    · exact renewed_genuine pkg req rest session at_ issued same (stored.genuine same member) owned
  · have map := represents_replace auths owner heldToken sessions stored.map same member _ ok rfl
    change Represents _ owner heldToken (Function.update sessions (owner same.row) _) at map
    rw [owned] at map
    exact map

include strings nulls

theorem session_removed (userId : Option String) (doc : Doc AuthField)
    (done : Executed pkg.castQuery auths (.findOneAndRemove .userId (LogInUser.idScalar userId).value) (.ok (some doc)) next) :
    SessionStore pkg next (Function.update sessions userId none) := by
  obtain ⟨member, ⟨condition, seen, holds⟩, rfl⟩ := executed_removed _ _ _ _ _ doc done
  have owned := (genuine_matches pkg strings nulls doc (stored.genuine doc member) userId condition seen).mp holds
  refine ⟨fun auth inNew => stored.genuine auth ((mem_remove auths doc.id auth).mp inNew).1, ?_⟩
  have map := represents_remove auths owner heldToken sessions stored.map doc member
  rw [owned] at map
  exact map

end Changes

end Planner
