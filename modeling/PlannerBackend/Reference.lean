import PlannerBackend.Routes

set_option autoImplicit false

namespace Words

-- A word is closed by a full stop; a plus sign takes the next character as it is.
def quote : List Char → List Char
  | [] => ['.']
  | c :: rest => if c = '.' ∨ c = '+' then '+' :: c :: quote rest else c :: quote rest

def join (words : List (List Char)) : List Char := words.flatMap quote

def split : List Char → Bool → List Char → Option (List (List Char))
  | [], false, [] => some []
  | [], _, _ => none
  | c :: rest, true, read => split rest false (c :: read)
  | c :: rest, false, read =>
      if c = '.' then (split rest false []).map fun words => read.reverse :: words
      else if c = '+' then split rest true read
      else split rest false (c :: read)

theorem split_quote (word rest read : List Char) :
    split (quote word ++ rest) false read = (split rest false []).map fun words => (read.reverse ++ word) :: words := by
  induction word generalizing read with
  | nil => simp [quote, split]
  | cons c word ih =>
      by_cases special : c = '.' ∨ c = '+'
      · simp [quote, special, split, ih]
      · obtain ⟨notStop, notPlus⟩ := not_or.mp special
        simp [quote, notStop, notPlus, split, ih]

theorem split_join (words : List (List Char)) : split (join words) false [] = some words := by
  induction words with
  | nil => rfl
  | cons word words ih =>
      have first := split_quote word (join words) []
      rw [ih] at first
      simpa [join] using first

def ofNat (n : Nat) : List Char := Nat.toDigits 10 n

def toNat (word : List Char) : Nat := Nat.ofDigitChars 10 word 0

theorem to_nat_of_nat (n : Nat) : toNat (ofNat n) = n := Nat.ofDigitChars_toDigits (by decide) (by decide)

end Words

namespace Docs

def scalarWord : Option Scalar → List Char
  | none => []
  | some .null => ['n']
  | some (.str s) => 's' :: s.toList
  | some (.num text) => 'f' :: text.toList
  | some (.date (.ofNat ms)) => 'd' :: Words.ofNat ms
  | some (.date (.negSucc ms)) => 'b' :: Words.ofNat ms

def wordScalar : List Char → Option Scalar
  | 'n' :: _ => some .null
  | 's' :: rest => some (.str (String.ofList rest))
  | 'f' :: rest => some (.num (String.ofList rest))
  | 'd' :: rest => some (.date (.ofNat (Words.toNat rest)))
  | 'b' :: rest => some (.date (.negSucc (Words.toNat rest)))
  | _ => none

theorem word_scalar_word (stored : Option Scalar) : wordScalar (scalarWord stored) = stored := by
  cases stored with
  | none => rfl
  | some scalar =>
      cases scalar with
      | null => rfl
      | str s => simp [scalarWord, wordScalar]
      | num text => simp [scalarWord, wordScalar]
      | date ms => cases ms <;> simp [scalarWord, wordScalar, Words.to_nat_of_nat]

end Docs

namespace Planner

open Docs Resume

-- One executable choice of the code outside the repository that keeps every
-- promise the results rely on: a token spells out its claims, with a checksum
-- of the secret for a signature.
namespace Reference

def claimsWords (claims : Claims) (secret : String) : List (List Char) :=
  [Words.ofNat secret.utf8ByteSize, claims.jwtid.toList, Words.ofNat claims.iat, Words.ofNat claims.exp, claims.sub.toList,
    claims.iss.toList, scalarWord (claims.data .userId), scalarWord (claims.data .firstName), scalarWord (claims.data .lastName),
    scalarWord (claims.data .userName), scalarWord (claims.data .mobileNumber), scalarWord (claims.data .password),
    scalarWord (claims.data .email), scalarWord (claims.data .createdOn)]

def wordsClaims : List (List Char) → Option Claims
  | [_, jwtid, iat, exp, sub, iss, userId, firstName, lastName, userName, mobileNumber, password, email, createdOn] =>
      some ⟨String.ofList jwtid, Words.toNat iat, Words.toNat exp, String.ofList sub, String.ofList iss, fun
        | .userId => wordScalar userId
        | .firstName => wordScalar firstName
        | .lastName => wordScalar lastName
        | .userName => wordScalar userName
        | .mobileNumber => wordScalar mobileNumber
        | .password => wordScalar password
        | .email => wordScalar email
        | .createdOn => wordScalar createdOn⟩
  | _ => none

def token (claims : Claims) (secret : String) : String := String.ofList (Words.join (claimsWords claims secret))

def readToken (token : String) : Option Claims := (Words.split token.toList false []).bind wordsClaims

def verify (given secret : String) (now : Nat) : Option Claims :=
  (readToken given).filter fun claims => token claims secret == given && decide (now / 1000 < claims.exp)

theorem words_claims_words (claims : Claims) (secret : String) : wordsClaims (claimsWords claims secret) = some claims := by
  obtain ⟨jwtid, iat, exp, sub, iss, data⟩ := claims
  simp only [claimsWords, wordsClaims, Words.to_nat_of_nat, word_scalar_word, String.ofList_toList, Option.some.injEq,
    Claims.mk.injEq, true_and]
  funext path
  cases path <;> rfl

theorem read_token (claims : Claims) (secret : String) : readToken (token claims secret) = some claims := by
  simp only [readToken, token, String.toList_ofList, Words.split_join, Option.bind_some, words_claims_words]

theorem verify_token (claims : Claims) (secret : String) (now : Nat) :
    verify (token claims secret) secret now = if now / 1000 < claims.exp then some claims else none := by
  by_cases live : now / 1000 < claims.exp <;> simp [verify, read_token, Option.filter, live]

theorem verify_signed (given secret : String) (now : Nat) (claims : Claims) (accepted : verify given secret now = some claims) :
    token claims secret = given := by
  obtain ⟨_, held⟩ := Option.filter_eq_some_iff.mp accepted
  simp only [Bool.and_eq_true, beq_iff_eq] at held
  exact held.1

def hash (password salt : String) : String := String.ofList (Words.join [salt.toList, password.toList])

def compare (password hashed : String) : Bool :=
  match Words.split hashed.toList false [] with
  | some [_, kept] => kept == password.toList
  | _ => false

def castString : Js.Value → Except String Scalar
  | .null => .ok .null
  | .str s => .ok (.str s)
  | .num text => if text = "" then .error "Cast to string failed" else .ok (.str text)
  | .bool b => .ok (.str (if b then "true" else "false"))
  | _ => .error "Cast to string failed"

def castNumber : Js.Value → Except String Scalar
  | .null => .ok .null
  | .str "" => .ok .null
  | .num text => .ok (.num text)
  | _ => .error "Cast to number failed"

def castDate : Js.Value → Except String Scalar
  | .null => .ok .null
  | .str "" => .ok .null
  | .num text => .ok (.date (Words.toNat text.toList))
  | _ => .error "Cast to date failed"

def equals (wanted : Scalar) : Condition := fun stored => indexEntry stored == wanted

def castQuery : Js.Value → Except String Condition
  | .undefined => .ok (equals .null)
  | .obj [("$ne", unwanted)] => (castString unwanted).map fun scalar stored => !(equals scalar stored)
  | value => (castString value).map equals

def changeOf {F : Type} [Paths F] [DecidableEq F] (cast : F → Js.Value → Except String Scalar) (body : Js.Value) : Change F :=
  let named := (Paths.all : List F).filter fun path => !Js.isUndefined (body.get (Paths.label path))
  if named.isEmpty then .empty
  else
    match named.mapM fun path => (cast path (body.get (Paths.label path))).map fun scalar => (path, scalar) with
    | .error message => .rejected message
    | .ok sets => .apply (overlay fun path => sets.lookup path)

def userCast : UserField → Js.Value → Except String Scalar
  | .mobileNumber => castNumber
  | .createdOn => castDate
  | _ => castString

def meetingCast : MeetingField → Js.Value → Except String Scalar
  | .meetingStartDate => castDate
  | .meetingEndDate => castDate
  | .createdOn => castDate
  | _ => castString

def packages : Packages where
  bcryptHash := hash
  bcryptCompare := compare
  jwtSign := fun claims secret => .ok (token claims secret)
  jwtVerify := verify
  castQuery := castQuery
  castString := castString
  castNumber := castNumber
  castDate := castDate
  userChange := changeOf userCast
  meetingChange := changeOf meetingCast
  dateText := fun ms => toString ms

theorem packages_verify_token (claims : Claims) (secret : String) (now : Nat) :
    packages.jwtVerify (token claims secret) secret now = if now / 1000 < claims.exp then some claims else none := by
  simp only [packages, verify_token]

def ambient (now : Nat) : Nat → Ambient := fun _ => ⟨now, "id", "salt", "fresh"⟩

def account : Doc UserField where
  id := 0
  row := fun
    | .userId => some (.str "u1")
    | .email => some (.str "a@b.co")
    | .password => some (.str (hash "pw" "salt"))
    | _ => none

def oneUser : Store where
  users := ⟨[account], 1, by simp [account], by simp, by simp⟩
  auths := .none
  meetings := .none

def logInRequest : HttpRequest where
  method := .post
  path := ["api", "v1", "user", "login"]
  query := .undefined
  body := .obj [("email", .str "a@b.co"), ("password", .str "pw")]
  header := fun _ => none

-- The token a login at this time is given.
def tokenAt (now : Nat) : String :=
  token (claimsFor (ambient now 0) (ambient now 1) (ambient now 2)
    (without (hydrateUser account.row) [.password, .createdOn])) secretKey

def withToken (method : Method) (path : List String) (token : String) (body : Js.Value) : HttpRequest where
  method := method
  path := path
  query := .undefined
  body := body
  header := fun name => if name = "authToken" then some token else none

def turns (i n now : Nat) : List (Label (server packages)) := List.replicate n (.resume i (.pick 0) (ambient now))

def logIn (now : Nat) : List (Label (server packages)) := .start logInRequest (ambient now) :: turns 0 8 now

def initial : World (server packages) := World.initial (server packages) oneUser (.thrown "")

end Reference

end Planner
