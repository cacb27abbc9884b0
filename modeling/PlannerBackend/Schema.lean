import PlannerBackend.Collection
import PlannerBackend.Proc

set_option autoImplicit false

namespace Planner

open Docs Resume

inductive UserField where
  | userId | firstName | lastName | userName | mobileNumber | password | email | createdOn
deriving DecidableEq, Repr

inductive AuthField where
  | userId | authToken | tokenSecret | tokenGenerationTime
deriving DecidableEq, Repr

inductive MeetingField where
  | meetingId | topic | hostId | hostName | participantId | participantName | participantEmail
  | meetingStartDate | meetingEndDate | meetingDescription | meetingPlace | createdOn
deriving DecidableEq, Repr

def UserField.label : UserField → String
  | .userId => "userId"
  | .firstName => "firstName"
  | .lastName => "lastName"
  | .userName => "userName"
  | .mobileNumber => "mobileNumber"
  | .password => "password"
  | .email => "email"
  | .createdOn => "createdOn"

def AuthField.label : AuthField → String
  | .userId => "userId"
  | .authToken => "authToken"
  | .tokenSecret => "tokenSecret"
  | .tokenGenerationTime => "tokenGenerationTime"

def MeetingField.label : MeetingField → String
  | .meetingId => "meetingId"
  | .topic => "topic"
  | .hostId => "hostId"
  | .hostName => "hostName"
  | .participantId => "participantId"
  | .participantName => "participantName"
  | .participantEmail => "participantEmail"
  | .meetingStartDate => "meetingStartDate"
  | .meetingEndDate => "meetingEndDate"
  | .meetingDescription => "meetingDescription"
  | .meetingPlace => "meetingPlace"
  | .createdOn => "createdOn"

instance : Paths UserField where
  all := [.userId, .firstName, .lastName, .userName, .mobileNumber, .password, .email, .createdOn]
  label := UserField.label
  plain := by intro path; cases path <;> decide

instance : Paths AuthField where
  all := [.userId, .authToken, .tokenSecret, .tokenGenerationTime]
  label := AuthField.label
  plain := by intro path; cases path <;> decide

instance : Paths MeetingField where
  all := [.meetingId, .topic, .hostId, .hostName, .participantId, .participantName, .participantEmail,
    .meetingStartDate, .meetingEndDate, .meetingDescription, .meetingPlace, .createdOn]
  label := MeetingField.label
  plain := by intro path; cases path <;> decide

-- The default '' of a Number or Date path is cast to null.
def userDefault : UserField → Scalar
  | .mobileNumber => .null
  | .createdOn => .null
  | _ => .str ""

def meetingDefault : MeetingField → Option Scalar
  | .meetingId => none
  | .meetingDescription => some (.str "false")
  | .meetingStartDate => some .null
  | .meetingEndDate => some .null
  | .createdOn => some .null
  | _ => some (.str "")

-- Mongoose fills absent paths with their defaults when it builds a document;
-- a lean result skips this.
def hydrateUser (row : Row UserField) : Row UserField := fun path => some ((row path).getD (userDefault path))

def hydrateMeeting (row : Row MeetingField) : Row MeetingField := fun path => (row path).or (meetingDefault path)

def userIdOf (row : Row UserField) : Option String := text (hydrateUser row .userId)

structure Claims where
  jwtid : String
  iat : Nat
  exp : Nat
  sub : String
  iss : String
  data : Row UserField

-- Code outside the repository, as it is called from here. A clock reading is
-- in milliseconds; castQuery is the cast of a query value on a String path.
structure Packages where
  bcryptHash : String → String → String
  bcryptCompare : String → String → Bool
  jwtSign : Claims → String → Except String String
  jwtVerify : String → String → Nat → Option Claims
  castQuery : Js.Value → Except String Condition
  castString : Js.Value → Except String Scalar
  castNumber : Js.Value → Except String Scalar
  castDate : Js.Value → Except String Scalar
  userChange : Js.Value → Change UserField
  meetingChange : Js.Value → Change MeetingField
  dateText : Int → String

structure Ambient where
  now : Nat
  shortid : String
  salt : String
  password : String

inductive Data where
  | null
  | details (row : Row UserField)
  | users (rows : List (Row UserField))
  | user (doc : Doc UserField)
  | session (authToken : Option String) (userDetails : Row UserField)
  | reply (result : UpdateReply)
  | meetingDetails (row : Row MeetingField)
  | meeting (doc : Doc MeetingField)
  | meetings (docs : List (Doc MeetingField))

structure Response where
  error : Bool
  message : String
  status : Nat
  data : Data

-- What a promise is rejected with, and what res.send is given.
inductive Body where
  | api (response : Response)
  | thrown (error : Js.Thrown)

def Body.message : Body → String
  | .api response => response.message
  | .thrown error => error

structure Mail where
  email : Option Scalar
  subject : String
  html : String

-- authorised marks the call of next() with its req.user.userId.
inductive Out where
  | send (status : Nat) (body : Body)
  | mail (mail : Mail)
  | authorised (userId : Option String)

inductive Op where
  | users (cmd : Cmd UserField)
  | auths (cmd : Cmd AuthField)
  | meetings (cmd : Cmd MeetingField)
  | compare (password : Js.Value) (hash : Option Scalar)

abbrev Answer : Op → Type
  | .users cmd => Docs.Ans cmd
  | .auths cmd => Docs.Ans cmd
  | .meetings cmd => Docs.Ans cmd
  | .compare _ _ => Except String Bool

abbrev sig : Signature where
  Op := Op
  Ans := Answer
  Out := Out
  Env := Ambient
  Cell := Body

abbrev Process := Proc sig

abbrev Async (α : Type) := Promise sig Body α

structure Store where
  users : Collection UserField (some .userId)
  auths : Collection AuthField none
  meetings : Collection MeetingField (some .meetingId)

def compareHashes (pkg : Packages) (password : Js.Value) (hash : Option Scalar) : Except String Bool :=
  match password, hash with
  | .str p, some (.str h) => .ok (pkg.bcryptCompare p h)
  | _, _ => .error "data and hash must be strings"

def execute (pkg : Packages) : (op : Op) → Choice → Store → Answer op × Store
  | .users cmd, choice, store =>
      let done := Docs.exec pkg.castQuery cmd choice store.users
      (done.1, { store with users := done.2 })
  | .auths cmd, choice, store =>
      let done := Docs.exec pkg.castQuery cmd choice store.auths
      (done.1, { store with auths := done.2 })
  | .meetings cmd, choice, store =>
      let done := Docs.exec pkg.castQuery cmd choice store.meetings
      (done.1, { store with meetings := done.2 })
  | .compare _ _, .fail message, store => (.error message, store)
  | .compare password hash, .pick _, store => (compareHashes pkg password hash, store)

end Planner
