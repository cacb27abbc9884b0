import PlannerBackend.Regex
import PlannerBackend.Schema

set_option autoImplicit false

namespace Planner

open Docs Resume Regex

-- /^\s+|\s+$/gm
def trimPattern : Pattern :=
  .alt (.seq (.lineStart true) (.plus (.cls isSpace))) (.seq (.plus (.cls isSpace)) (.lineEnd true))

def trim (x : Js.Value) : Except Js.Thrown String := (Js.toText x).map (erase trimPattern)

def isEmpty (value : Js.Value) : Except Js.Thrown Bool :=
  if Js.isNullish value then .ok true
  else (trim value).map fun trimmed => trimmed == "" || Js.lengthIsZero value

def isSeparator (c : Char) : Bool := c == '.' || c == '-'

-- /^\w+([\.-]?\w+)*@\w+([\.-]?\w+)*(\.\w{2,3})+$/
def emailRegex : Pattern :=
  let word := Pattern.plus (.cls isWord)
  let labels := Pattern.seq word (.star (.seq (.opt (.cls isSeparator)) word))
  let suffix := Pattern.seq (.cls (· == '.')) (.seq (.cls isWord) (.seq (.cls isWord) (.opt (.cls isWord))))
  .seq (.lineStart false) (.seq labels (.seq (.cls (· == '@')) (.seq labels (.seq (.plus suffix) (.lineEnd false)))))

-- Only a string has a callable match.
def Email (email : Js.Value) : Except Js.Thrown Bool :=
  match email with
  | .str s => .ok (test emailRegex s)
  | _ => .error "email.match is not a function"

-- Without the unicode rules: only strings that passed Email are lowered.
def toLowerCase (s : String) : String := String.ofList (s.toList.map Char.toLower)

def generate (err : Bool) (message : String) (status : Nat) (data : Data) : Response :=
  ⟨err, message, status, data⟩

-- moment.utc().format() prints whole seconds, which a Date path reads back.
def timeNow (at_ : Ambient) : Scalar := .date (at_.now / 1000 * 1000 : Nat)

def hashPassword (pkg : Packages) (password : Js.Value) (salt : String) : Except Js.Thrown String :=
  match password with
  | .str p => .ok (pkg.bcryptHash p salt)
  | _ => .error "data must be a string and salt must either be a salt string or a number of rounds"

def secretKey : String := "secretKeyShouldBeReallySecretThatNoOneCanGuess"

structure TokenDetails where
  token : String
  tokenSecret : String

-- The clock is read twice, once for iat and once for exp.
def claimsFor (id iat exp : Ambient) (data : Row UserField) : Claims where
  jwtid := id.shortid
  iat := iat.now
  exp := exp.now + 60 * 60 * 24
  sub := "authToken"
  iss := "meeting-planner"
  data := data

def generateToken (pkg : Packages) (data : Row UserField) (cb : Except String TokenDetails → Process) : Process :=
  .sample fun id => .sample fun iat => .sample fun exp =>
    cb ((pkg.jwtSign (claimsFor id iat exp data) secretKey).map fun token => ⟨token, secretKey⟩)

-- jwt.verify reports a missing token or secret like any other failure.
def verifyClaim (pkg : Packages) (token secret : Option String) (now : Nat) : Option Claims :=
  match token, secret with
  | some t, some s => pkg.jwtVerify t s now
  | _, _ => none

def verifyClaimWithoutSecret (pkg : Packages) (token : Js.Value) (now : Nat) : Option Claims :=
  match token with
  | .str t => pkg.jwtVerify t secretKey now
  | _ => none

def scalarText (pkg : Packages) : Option Scalar → String
  | none => "undefined"
  | some .null => "null"
  | some (.str s) => s
  | some (.num digits) => digits
  | some (.date ms) => pkg.dateText ms

section Results

variable {F : Type} [Paths F]

def fieldValues (row : Row F) : List (String × Js.Value) :=
  (Paths.all : List F).filterMap fun path => (row path).map fun stored => (Paths.label path, stored.value)

def leanValue (row : Row F) : Js.Value := .obj (fieldValues row)

-- String(document) starts with its _id; the text is only tested for blankness.
def documentValue (doc : Doc F) : Js.Value := .host ("\x7b _id: " ++ toString doc.id ++ " \x7d")

def replyValue (reply : UpdateReply) : Js.Value :=
  .obj [("n", .num (toString reply.n)), ("nModified", .num (toString reply.nModified)), ("ok", .num (toString reply.ok))]

end Results

-- The three-way branch of the query callbacks after the error check: an
-- exception of isEmpty escapes, and null has no properties to read.
def whenFound {α : Type} (result : Option α) (view : α → Js.Value) (missing : Process) (present : α → Process) : Process :=
  match isEmpty ((result.map view).getD .null) with
  | .error _ => .crash
  | .ok true => missing
  | .ok false =>
      match result with
      | none => .crash
      | some found => present found

theorem bind_ok {ε α β : Type} (first : Except ε α) (next : α → Except ε β) (result : β) (done : (first >>= next) = .ok result) :
    ∃ value, first = .ok value ∧ next value = .ok result := by
  cases first with
  | error e => cases done
  | ok value => exact ⟨value, rfl, done⟩

theorem email_respects_case : Respects Char.toLower emailRegex := by
  have word := lower_respects isWord (by decide)
  have separator := lower_respects isSeparator (by decide)
  have dot := lower_respects (· == '.') (by decide)
  have at_ := lower_respects (· == '@') (by decide)
  simp only [emailRegex, Pattern.plus, Pattern.opt, Respects]
  simp [word, separator, dot, at_]

theorem lower_case_accepted (email : String) (accepted : Email (.str email) = .ok true) :
    Email (.str (toLowerCase email)) = .ok true := by
  rw [← accepted]
  simp only [Email, toLowerCase, test, String.toList_ofList]
  rw [← search_change Char.toLower emailRegex email_respects_case [] email.toList]
  rfl

theorem lower_case_idempotent (s : String) : toLowerCase (toLowerCase s) = toLowerCase s := by
  have idle := lower_respects Char.toLower (by decide)
  simp [toLowerCase, Function.comp_def, idle]

theorem trim_within_space : Within isSpace trimPattern :=
  ⟨⟨trivial, fun _ ok => ok, fun _ ok => ok⟩, ⟨fun _ ok => ok, fun _ ok => ok⟩, trivial⟩

theorem is_empty_nonblank (value : Js.Value) (printed : String) (c : Char) (notNull : Js.isNullish value = false)
    (shown : Js.toText value = .ok printed) (present : c ∈ printed.toList) (visible : isSpace c = false)
    (long : Js.lengthIsZero value = false) : isEmpty value = .ok false := by
  have kept := erase_keeps isSpace trimPattern trim_within_space printed c visible present
  simp only [isEmpty, notNull, trim, shown, Except.map, long]
  simp [kept]

theorem is_empty_document {F : Type} (doc : Doc F) : isEmpty (documentValue doc) = .ok false := by
  refine is_empty_nonblank _ _ '_' rfl rfl ?_ (by decide) rfl
  simp

theorem lookup_unlabelled {F : Type} [Paths F] (row : Row F) (name : String) (absent : ∀ path : F, Paths.label path ≠ name) :
    (fieldValues row).lookup name = none := by
  rw [List.lookup_eq_none_iff]
  intro entry member
  obtain ⟨path, _, eq⟩ := List.mem_filterMap.mp member
  obtain ⟨stored, _, rfl⟩ := Option.map_eq_some_iff.mp eq
  simpa using Ne.symm (absent path)

theorem is_empty_lean {F : Type} [Paths F] (row : Row F) : isEmpty (leanValue row) = .ok false := by
  have noText := lookup_unlabelled row "toString" fun path => (Paths.plain path).1
  have noLength := lookup_unlabelled row "length" fun path => (Paths.plain path).2
  refine is_empty_nonblank _ "[object Object]" 'o' rfl ?_ (by decide) (by decide) ?_
  · simp [leanValue, Js.toText, noText]
  · simp [leanValue, Js.lengthIsZero, noLength]

theorem is_empty_reply (reply : UpdateReply) : isEmpty (replyValue reply) = .ok false := by
  refine is_empty_nonblank _ "[object Object]" 'o' rfl ?_ (by decide) (by decide) ?_
  · simp [replyValue, Js.toText, List.lookup_cons]
  · simp [replyValue, Js.lengthIsZero, List.lookup_cons]

theorem join_lean_texts {F : Type} [Paths F] (rows : List (Row F)) :
    Js.joinText (rows.map leanValue) = .ok (rows.map fun _ => "[object Object]") := by
  induction rows with
  | nil => rfl
  | cons row rest ih =>
      have noText := lookup_unlabelled row "toString" fun path => (Paths.plain path).1
      simp [Js.joinText, ih, leanValue, Js.isNullish, Js.toText, noText]

theorem is_empty_rows {F : Type} [Paths F] (rows : List (Row F)) :
    isEmpty (.arr (rows.map leanValue)) = .ok rows.isEmpty := by
  cases rows with
  | nil => rfl
  | cons row rest =>
      refine is_empty_nonblank _ (String.intercalate "," ((row :: rest).map fun _ => "[object Object]")) 'o' rfl ?_ ?_
        (by decide) rfl
      · rw [Js.toText, join_lean_texts]
        rfl
      · cases rest <;> simp [String.toList_intercalate]

theorem when_found_none {α : Type} (view : α → Js.Value) (missing : Process) (present : α → Process) :
    whenFound none view missing present = missing := rfl

theorem when_found_some {α : Type} (found : α) (view : α → Js.Value) (missing : Process) (present : α → Process)
    (seen : isEmpty (view found) = .ok false) : whenFound (some found) view missing present = present found := by
  simp [whenFound, seen]

end Planner
