import OneMail.Js.Uri
import OneMail.Lib.OneTime
import OneMail.Lib.Table

/-! Secrets for one use: passkey challenges (`passkey_challenge_do.ts`, `passkey_security.ts`), OAuth states
    (`oauth_state.ts`) and registration codes (`registration_verify_code.ts`).

    A challenge is kept by a durable object that its key selects, or without that binding in a table of its
    own. States and codes are rows of `settings`. A key encodes everything the secret is bound to. Every
    statement, and every transaction of an object, is a step of its own, and each request reads the clock
    when it begins. HMAC is a parameter. -/

namespace OneMail.Secrets
open JsString Interleave Table OneTime

inductive PasskeyChallengeKind where | register | authenticate
  deriving DecidableEq

structure PasskeyRpContext where
  origin : JsString
  rpID : JsString
  deriving DecidableEq

/-- A challenge and what it is bound to. -/
structure Challenge where
  kind : PasskeyChallengeKind
  challenge : JsString
  rp : PasskeyRpContext
  userId : Option ℕ
  deriving DecidableEq

def PasskeyChallengeKind.text : PasskeyChallengeKind → JsString
  | .register => js "register"
  | .authenticate => js "authenticate"

/-- `userId == null ? "anonymous" : String(userId)` -/
def userText : Option ℕ → JsString
  | none => js "anonymous"
  | some userId => numeral userId

def challengePrefix : JsString := js "passkey_challenge:"
def statePrefix : JsString := js "oauth_state:"
def codePrefix : JsString := js "registration_verify_code:"

/-- Throws when a part has a lone surrogate. -/
def challengeKey (c : Challenge) : Option JsString := do
  let origin ← encodeURIComponent c.rp.origin
  let rpID ← encodeURIComponent c.rp.rpID
  let challenge ← encodeURIComponent c.challenge
  return challengePrefix ++ c.kind.text ++ colon :: origin ++ colon :: rpID ++ colon :: userText c.userId ++
    colon :: challenge

def stateKey (state clientID : JsString) : Option JsString := do
  let state ← encodeURIComponent state
  let clientID ← encodeURIComponent clientID
  return statePrefix ++ state ++ colon :: clientID

def verificationKey (email : JsString) : Option JsString := do
  let email ← encodeURIComponent email
  return codePrefix ++ email

/-! ### Stores -/

/-- A row of `passkey_challenges`. -/
structure ChallengeRow where
  challengeKey : JsString
  expiresAt : ℕ
  deriving DecidableEq

/-- A row of `settings`. -/
structure SettingRow where
  key : JsString
  value : JsString
  deriving DecidableEq

/-- The storage of a durable object. -/
structure ChallengeObject where
  value : Option ℕ
  alarm : Option ℕ
  deriving DecidableEq

structure Store where
  clock : ℕ
  objects : JsString → ChallengeObject
  challenges : List ChallengeRow
  settings : List SettingRow

def challengeTtl : ℕ := 5 * 60 * 1000
def stateTtl : ℕ := 10 * 60 * 1000
def codeTtl : ℕ := 5 * 60 * 1000

def Store.setObject (s : Store) (key : JsString) (o : ChallengeObject) : Store :=
  { s with objects := Function.update s.objects key o }

/-- `INSERT OR REPLACE` on a primary key. -/
def insertOrReplace {α κ : Type*} [DecidableEq κ] (key : α → κ) (row : α) (t : List α) : List α :=
  deleteWhere (fun r => key r = key row) t ++ [row]

/-- `key LIKE pattern` -/
def like : JsString → JsString → Bool
  | [], s => s.isEmpty
  | p :: ps, [] => p = percent && like ps []
  | p :: ps, c :: s =>
    if p = percent then like ps (c :: s) || like (p :: ps) s
    else (p = 0x5F || toLowerCase [p] = toLowerCase [c]) && like ps s
termination_by p s => p.length + s.length

/-- `substr(value, 1, instr(value, ':') - 1)` -/
def beforeColon (value : JsString) : JsString :=
  if colon ∈ value then value.takeWhile (· ≠ colon) else []

/-- `/^\d{6}$/` -/
def sixDigits (code : JsString) : Bool := code.length = 6 && code.all isDigit

section Digest
variable (hmac : JsString → JsString → JsString)

def digestVerificationCode (secret email code : JsString) : JsString := hmac secret (email ++ 0 :: code)

/-- `${expiresAt}:${digest}` -/
def storedCode (expiresAt : ℕ) (digest : JsString) : JsString := numeral expiresAt ++ colon :: digest

/-- What `consumeRegistrationVerifyCode` asks of the value that it has read. -/
def acceptsCode (storedValue secret email code : JsString) (now : ℕ) : Bool :=
  let separator := storedValue.findIdx (· = colon)
  let expiresAt := toNumber (storedValue.take separator)
  let expectedDigest := storedValue.drop (separator + 1)
  0 < separator && separator < storedValue.length && expiresAt.any (now < ·) && expectedDigest ≠ [] &&
    digestVerificationCode hmac secret email code = expectedDigest

/-! ### Requests -/

/-- Where a challenge is kept. -/
inductive Backend where | object | row
  deriving DecidableEq

/-- A secret with all that it is bound to. -/
inductive Secret where
  | passkey (backend : Backend) (c : Challenge)
  | oauth (state clientID : JsString)
  | registration (email code : JsString)
  deriving DecidableEq

/-- The place where a secret is stored: an object, or a key of a table. -/
inductive Slot where
  | object (key : Option JsString)
  | challenge (key : Option JsString)
  | setting (key : Option JsString)
  deriving DecidableEq

def Secret.slot : Secret → Slot
  | .passkey .object c => .object (challengeKey c)
  | .passkey .row c => .challenge (challengeKey c)
  | .oauth state clientID => .setting (stateKey state clientID)
  | .registration email _ => .setting (verificationKey email)

/-- A code as it is presented, with the server's secret, when it has passed the check of both functions. -/
structure CodeRequest where
  secret : JsString
  email : JsString
  code : JsString
  valid : (secret ≠ [] && email ≠ [] && sixDigits code) = true
  deriving DecidableEq

/-- Where a request stands; `now` is its clock reading, or the object's. -/
inductive Call where
  | idle
  -- the object's `fetch`, before it reads its clock and before its transaction
  | objectStore (c : Challenge) (expiresAt : ℕ)
  | objectStoring (c : Challenge) (expiresAt now : ℕ)
  | objectConsume (c : Challenge)
  | objectConsuming (c : Challenge) (now : ℕ)
  -- the table of challenges
  | challengePrune (c : Challenge) (now : ℕ)
  | challengeInsert (c : Challenge) (now : ℕ)
  | challengeDelete (c : Challenge) (now : ℕ)
  -- OAuth states
  | statePrune (state clientID : JsString) (now : ℕ)
  | stateInsert (state clientID : JsString) (now : ℕ)
  | stateDelete (state clientID : JsString) (now : ℕ)
  -- registration codes
  | reserveDelete (r : CodeRequest) (now : ℕ)
  | reserveInsert (r : CodeRequest) (now : ℕ)
  | consumeSelect (r : CodeRequest) (now : ℕ)
  | consumeDelete (r : CodeRequest) (now : ℕ) (storedValue : JsString)
  deriving DecidableEq

/-- One statement or transaction that is carried out and answered. -/
inductive Statement : Store → Call → Store → Call → List (Use Secret) → Prop
  | tick {s} (d : ℕ) : Statement s .idle { s with clock := s.clock + d } .idle []
  -- PasskeyChallengeDurableObject
  | storeChallenge {s} (c : Challenge) (h : c.challenge ≠ []) :
      Statement s .idle s (.objectStore c (s.clock + challengeTtl)) []
  | readStoring {s c expiresAt} : Statement s (.objectStore c expiresAt) s (.objectStoring c expiresAt s.clock) []
  | objectStore {s c expiresAt now key} (hkey : challengeKey c = some key) (h : now < expiresAt) :
      Statement s (.objectStoring c expiresAt now) (s.setObject key ⟨some expiresAt, some expiresAt⟩) .idle
        [.stored (.passkey .object c) expiresAt]
  | consumeChallenge {s} (c : Challenge) (h : c.challenge ≠ []) : Statement s .idle s (.objectConsume c) []
  | readConsuming {s c} : Statement s (.objectConsume c) s (.objectConsuming c s.clock) []
  | objectConsume {s c now key expiry} (hkey : challengeKey c = some key) (hvalue : (s.objects key).value = some expiry)
      (h : now < expiry) :
      Statement s (.objectConsuming c now) (s.setObject key { s.objects key with value := none }) .idle
        [.consumed (.passkey .object c) now]
  /-- A transaction that finds an expired challenge deletes it, whatever it answers. -/
  | objectExpired {s c now key expiry} (hkey : challengeKey c = some key)
      (hvalue : (s.objects key).value = some expiry) (h : expiry ≤ now) :
      Statement s (.objectConsuming c now) (s.setObject key { s.objects key with value := none }) .idle []
  | objectStoreExpired {s c expiresAt now key expiry} (hkey : challengeKey c = some key) (hexpires : expiresAt ≤ now)
      (hvalue : (s.objects key).value = some expiry) (h : expiry ≤ now) :
      Statement s (.objectStoring c expiresAt now) (s.setObject key { s.objects key with value := none }) .idle []
  | alarm {s key t} (h : (s.objects key).alarm = some t) (ht : t ≤ s.clock) :
      Statement s .idle (s.setObject key ⟨none, none⟩) .idle []
  -- the table of challenges
  | storeRow {s} (c : Challenge) (h : c.challenge ≠ []) : Statement s .idle s (.challengePrune c s.clock) []
  | challengePrune {s c now} :
      Statement s (.challengePrune c now)
        { s with
          challenges := deleteWhere (fun r => r.challengeKey ∈
            (selectTop (fun r => r.expiresAt ≤ now) (fun r r' => r.expiresAt ≤ r'.expiresAt) 100
              s.challenges).map (·.challengeKey)) s.challenges }
        (.challengeInsert c now) []
  | challengeInsert {s c now key} (hkey : challengeKey c = some key) :
      Statement s (.challengeInsert c now)
        { s with challenges := insertOrReplace (·.challengeKey) ⟨key, now + challengeTtl⟩ s.challenges } .idle
        [.stored (.passkey .row c) (now + challengeTtl)]
  | consumeRow {s} (c : Challenge) (h : c.challenge ≠ []) : Statement s .idle s (.challengeDelete c s.clock) []
  | challengeDelete {s c now key} (hkey : challengeKey c = some key)
      (h : ∃ r ∈ s.challenges, r.challengeKey = key ∧ now < r.expiresAt) :
      Statement s (.challengeDelete c now)
        { s with challenges := deleteWhere (fun r => r.challengeKey = key && now < r.expiresAt) s.challenges } .idle
        [.consumed (.passkey .row c) now]
  -- storeOAuthState, verifyOAuthState
  | storeState {s} (state clientID : JsString) (h : state ≠ [] ∧ clientID ≠ []) :
      Statement s .idle s (.statePrune state clientID s.clock) []
  | statePrune {s state clientID now} :
      Statement s (.statePrune state clientID now)
        { s with
          settings := deleteWhere (fun r => like (statePrefix ++ [percent]) r.key && castInteger r.value ≤ now)
            s.settings }
        (.stateInsert state clientID now) []
  | stateInsert {s state clientID now key} (hkey : stateKey state clientID = some key) :
      Statement s (.stateInsert state clientID now)
        { s with settings := insertOrReplace (·.key) ⟨key, numeral (now + stateTtl)⟩ s.settings } .idle
        [.stored (.oauth state clientID) (now + stateTtl)]
  | verifyState {s} (state clientID : JsString) (h : state ≠ [] ∧ clientID ≠ []) :
      Statement s .idle s (.stateDelete state clientID s.clock) []
  | stateDelete {s state clientID key} {now : ℕ} (hkey : stateKey state clientID = some key)
      (h : ∃ r ∈ s.settings, r.key = key ∧ now < castInteger r.value) :
      Statement s (.stateDelete state clientID now)
        { s with settings := deleteWhere (fun r => r.key = key && now < castInteger r.value) s.settings } .idle
        [.consumed (.oauth state clientID) now]
  -- reserveRegistrationVerifyCode, consumeRegistrationVerifyCode
  | reserve {s} (r : CodeRequest) : Statement s .idle s (.reserveDelete r s.clock) []
  | reserveDelete {s r now key} (hkey : verificationKey r.email = some key) :
      Statement s (.reserveDelete r now)
        { s with
          settings := deleteWhere (fun row => row.key = key && castInteger (beforeColon row.value) ≤ now)
            s.settings }
        (.reserveInsert r now) []
  | reserveInsert {s r now key} (hkey : verificationKey r.email = some key) (h : ∀ row ∈ s.settings, row.key ≠ key) :
      Statement s (.reserveInsert r now)
        { s with
          settings := s.settings ++
            [⟨key, storedCode (now + codeTtl) (digestVerificationCode hmac r.secret r.email r.code)⟩] } .idle
        [.stored (.registration r.email r.code) (now + codeTtl)]
  | consume {s} (r : CodeRequest) : Statement s .idle s (.consumeSelect r s.clock) []
  | consumeSelect {s r now key} (hkey : verificationKey r.email = some key) (row : SettingRow) (h : row ∈ s.settings)
      (hrow : row.key = key) : Statement s (.consumeSelect r now) s (.consumeDelete r now row.value) []
  | consumeDelete {s r now storedValue key} (hkey : verificationKey r.email = some key)
      (haccept : acceptsCode hmac storedValue r.secret r.email r.code now = true)
      (h : ⟨key, storedValue⟩ ∈ s.settings) :
      Statement s (.consumeDelete r now storedValue)
        { s with settings := deleteWhere (fun row => row.key = key && row.value = storedValue) s.settings } .idle
        [.consumed (.registration r.email r.code) now]

/-- A statement is answered, or carried out and not answered, or the request ends. What is stored counts as stored
    also when the answer is lost. -/
inductive SecretStep : Store → Call → Store → Call → List (Use Secret) → Prop
  | answered {s c s' c' ev} (h : Statement hmac s c s' c' ev) : SecretStep s c s' c' ev
  | unanswered {s c s' c' ev} (h : Statement hmac s c s' c' ev) : SecretStep s c s' .idle (ev.filter Use.isStored)
  | stop {s c} : SecretStep s c s .idle []

/-- No secret is stored yet; `settings` may have other rows. -/
structure Initial (s : Store) : Prop where
  objects : ∀ key, (s.objects key).value = none
  challenges : s.challenges = []
  keys : (s.settings.map (·.key)).Nodup
  states : ∀ row ∈ s.settings, ∀ state clientID, stateKey state clientID ≠ some row.key
  codes : ∀ row ∈ s.settings, ∀ email, verificationKey email ≠ some row.key

def secrets : Prog Store Call (Use Secret) where
  idle := .idle
  init := Initial
  step := SecretStep hmac

end Digest

end OneMail.Secrets
