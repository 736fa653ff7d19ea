import Mathlib
import OneMail.Js.JsString
import OneMail.Lib.Interleave

/-! The lockout of the admin surface (`admin_lockout.ts`, its callers in `worker.ts` and
    `open_api/auth.ts`).

    Failed admin authentications are counted in a KV key of the client's address and of the 15-minute
    window. A request reads the counter before its credential is looked at; a failure is recorded by a
    second read of the counter and a write. The store is a linearizable map that can be reached. -/

namespace OneMail.Admin
open JsString Interleave

def windowMs : ℕ := 15 * 60 * 1000
def maxFailures : ℕ := 10

/-- The client's address and the window. -/
structure Key where
  ip : JsString
  windowBucket : ℕ
  deriving DecidableEq

/-- Of each key the number whose text is stored, and the time in milliseconds. -/
structure Store where
  kv : Key → Option ℕ
  clock : ℕ

def Store.bucketKey (s : Store) (ip : JsString) : Key := ⟨ip, s.clock / windowMs⟩

/-- `raw ? (parseInt(raw, 10) || 0) : 0` -/
def Store.count (s : Store) (key : Key) : ℕ := (s.kv key).getD 0

/-- `-1` is what `getAdminFailCount` answers for a store that cannot be reached. -/
def isAdminLockedOut (count : ℤ) : Bool := count < 0 || (maxFailures : ℤ) ≤ count

/-! ### The decision -/

/-- The claims of a verified `x-user-access-token`; a role that is no string is absent. -/
structure AccessTokenPayload where
  exp : Option ℤ
  userRole : Option JsString

/-- `AdminAuthCheckInput` but for the counter. -/
structure AdminAuthCheckInput where
  hasAdminAuth : Bool
  hasAccessToken : Bool
  adminAuthValid : Bool
  adminUserRole : Option JsString
  disableAdminPasswordCheck : Bool
  accessTokenPayload : Option AccessTokenPayload
  nowSec : ℤ

inductive Kind where | rateLimit | accessTokenExpired | roleNotAdmin | needAdminPassword
  deriving DecidableEq

inductive Decision where
  | relay
  | refuse (status : ℕ) (recordFailure : Bool) (kind : Kind)
  deriving DecidableEq

def AccessTokenPayload.expired (payload : AccessTokenPayload) (nowSec : ℤ) : Bool :=
  payload.exp.getD 0 = 0 || payload.exp.getD 0 < nowSec

/-- The password, or the operator's bypass. -/
def decidePassword (input : AdminAuthCheckInput) (recordFailure : Bool) : Decision :=
  if input.disableAdminPasswordCheck then .relay else .refuse 401 recordFailure .needAdminPassword

def decideAdminAuth (input : AdminAuthCheckInput) (adminFailCount : ℤ) : Decision :=
  if (input.hasAdminAuth || input.hasAccessToken) && isAdminLockedOut adminFailCount then
    .refuse 429 false .rateLimit
  else if input.adminAuthValid then .relay
  else if truthy input.adminUserRole && input.hasAccessToken then
    match input.accessTokenPayload with
    | none => decidePassword input true
    | some payload =>
      if payload.expired input.nowSec then .refuse 401 true .accessTokenExpired
      else if payload.userRole ≠ input.adminUserRole then .refuse 401 true .roleNotAdmin
      else decidePassword input true
  else decidePassword input input.hasAdminAuth

/-! ### Requests -/

/-- A request to `/admin/*`, or a login with a password that is right or not. -/
inductive Guess where
  | header (input : AdminAuthCheckInput)
  | login (valid : Bool)

/-- It carries something to be checked. -/
def Guess.credentialed : Guess → Bool
  | .header input => input.hasAdminAuth || input.hasAccessToken
  | .login _ => true

/-- What the counter it has read makes of a request: refused with 429, let pass (with the call of
    `clearAdminFailures` to come, if there is one), or a failure (to be recorded or not). -/
inductive Verdict where
  | locked
  | passed (clears : Bool)
  | failed (records : Bool)
  deriving DecidableEq

/-- `clearAdminFailures(c, 0)` of the middleware returns at once. -/
def Guess.verdict (guess : Guess) (count : ℤ) : Verdict :=
  match guess with
  | .header input =>
    match decideAdminAuth input count with
    | .relay => .passed (input.hasAdminAuth && count ≠ 0)
    | .refuse status recordFailure _ => if status = 429 then .locked else .failed recordFailure
  | .login valid =>
    if isAdminLockedOut count then .locked else if valid then .passed true else .failed true

/-- Where a request stands between two round trips. -/
inductive Call where
  | idle
  | asking (ip : JsString) (guess : Guess) (key : Key)
  /-- `recordAdminFailure` is called. -/
  | failing (ip : JsString)
  | recording (key : Key)
  /-- The counter is read; the `put` is next. -/
  | counted (key : Key) (n : ℕ)
  /-- `clearAdminFailures` is called. -/
  | clearing (ip : JsString)
  | checking (ip : JsString) (key : Key)
  | deleting (ip : JsString)
  /-- The `delete` is next. -/
  | dropping (key : Key)

inductive Event where
  /-- The credential of a request was looked at. -/
  | evaluated (key : Key)
  | refused (key : Key)
  /-- `recordAdminFailure` has completed. -/
  | recorded (key : Key)
  deriving DecidableEq

def afterGate (ip : JsString) : Verdict → Call
  | .passed true => .clearing ip
  | .failed true => .failing ip
  | _ => .idle

def gateEvents (guess : Guess) (key : Key) (count : ℤ) : List Event :=
  if guess.verdict count = .locked then [.refused key]
  else if guess.credentialed then [.evaluated key] else []

def Store.put (s : Store) (key : Key) (v : Option ℕ) : Store := { s with kv := Function.update s.kv key v }

inductive LockoutStep : Store → Call → Store → Call → List Event → Prop
  | tick {s} (d : ℕ) : LockoutStep s .idle { s with clock := s.clock + d } .idle []
  | arrive {s} (ip : JsString) (guess : Guess) :
      LockoutStep s .idle s (.asking ip guess (s.bucketKey ip)) []
  | gate {s ip guess key} :
      LockoutStep s (.asking ip guess key) s (afterGate ip (guess.verdict (s.count key)))
        (gateEvents guess key (s.count key))
  -- `recordAdminFailure`
  | beginRecord {s ip} : LockoutStep s (.failing ip) s (.recording (s.bucketKey ip)) []
  | get {s key} : LockoutStep s (.recording key) s (.counted key (s.count key)) []
  | put {s key n} : LockoutStep s (.counted key n) (s.put key (some (n + 1))) .idle [.recorded key]
  -- `clearAdminFailures`
  | beginClear {s ip} : LockoutStep s (.clearing ip) s (.checking ip (s.bucketKey ip)) []
  | check {s ip key} :
      LockoutStep s (.checking ip key) s (if s.kv key = none then .idle else .deleting ip) []
  | beginDelete {s ip} : LockoutStep s (.deleting ip) s (.dropping (s.bucketKey ip)) []
  | drop {s key} : LockoutStep s (.dropping key) (s.put key none) .idle []

/-- No failures are stored at first. -/
def lockout : Prog Store Call Event where
  idle := .idle
  init s := ∀ key, s.kv key = none
  step := LockoutStep

/-! ### The locked surface -/

/-- A counter at the limit refuses everything that carries a credential. -/
theorem verdict_locked {guess : Guess} {count : ℤ} (hguess : guess.credentialed = true)
    (h : isAdminLockedOut count = true) : guess.verdict count = .locked := by
  cases guess with
  | header input =>
    have hcred : (input.hasAdminAuth || input.hasAccessToken) = true := hguess
    simp only [Guess.verdict, decideAdminAuth, hcred, h, Bool.and_self, if_true]
  | login valid => rw [Guess.verdict, if_pos h]

theorem decideAdminAuth_locked {input : AdminAuthCheckInput} {count : ℤ}
    (hcred : (input.hasAdminAuth || input.hasAccessToken) = true) (h : isAdminLockedOut count = true) :
    decideAdminAuth input count = .refuse 429 false .rateLimit := by
  rw [decideAdminAuth, hcred, h, Bool.and_self, if_pos rfl]

theorem isAdminLockedOut_of_le {n : ℕ} (h : maxFailures ≤ n) : isAdminLockedOut n = true := by
  rw [isAdminLockedOut, Bool.or_eq_true, decide_eq_true_eq, decide_eq_true_eq]
  exact .inr (Int.ofNat_le.mpr h)

end OneMail.Admin
