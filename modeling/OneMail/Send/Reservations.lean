import OneMail.Js.JsString
import OneMail.Lib.Table

/-! Send-mail quota reservations: rows, triggers and statements of `send_mail_limit_utils.ts`.

    A reservation is inserted active, and ends committed or released; beside the status it carries the
    dispatch state of its mail. The daily and monthly counters are rows of `settings` that only the two
    triggers write: one when an active row is inserted, one when the status of a pending row becomes
    released. Reservation ids come from a supply, so that no two calls draw the same one. -/

namespace OneMail.Send
open JsString Table

inductive Status where | active | committed | released
  deriving DecidableEq

inductive DispatchState where | pending | unknown | sent
  deriving DecidableEq

/-- What an operator says about a delivery of unknown outcome. -/
inductive Outcome where | sent | rejected
  deriving DecidableEq

def reservationTtl : ℕ := 15 * 60 * 1000
def reconcileBatchSize : ℕ := 100
def terminalRetention : ℕ := 7 * 24 * 60 * 60 * 1000

/-- A row of `send_mail_limit_reservations`. -/
structure Reservation where
  id : ℕ
  dailyKey : Option JsString
  monthlyKey : Option JsString
  dailyLimit : Option ℕ
  monthlyLimit : Option ℕ
  status : Status
  updatedAt : ℕ
  expiresAt : ℕ
  dispatchState : DispatchState
  idempotencyKey : Option JsString
  requestHash : Option JsString
  senderAddress : Option JsString
  senderAddressId : Option JsString
  balanceReserved : Bool
  balanceRefunded : Bool
  deriving DecidableEq

/-- A counter row of `settings`. -/
structure Counter where
  key : JsString
  value : ℤ
  deriving DecidableEq

/-! ### Quota configuration -/

/-- A limit as it stands in the stored JSON: absent or null, not an integer, or an integer. -/
inductive RawLimit where
  | absent
  | notInteger
  | int (n : ℤ)
  deriving DecidableEq

structure SendMailLimitConfig where
  dailyEnabled : Bool
  monthlyEnabled : Bool
  dailyLimit : RawLimit
  monthlyLimit : RawLimit
  deriving DecidableEq

/-- The stored setting: no row, a value that is no such object, or the object. -/
inductive StoredConfig where
  | missing
  | malformed
  | stored (config : SendMailLimitConfig)
  deriving DecidableEq

def parseLimitValue : RawLimit → Option ℤ
  | .int n => if n < -1 then none else some n
  | _ => none

def isValidLimitValue (value : Option ℤ) : Bool := value = some (-1) || value.any (0 ≤ ·)

/-- An enabled limit must be valid; a disabled one may also be absent. -/
def limitAccepted (enabled : Bool) (raw : RawLimit) : Bool :=
  if enabled then isValidLimitValue (parseLimitValue raw)
  else raw = .absent || (parseLimitValue raw).isSome

/-- The limit a send is held to: none when disabled, null or -1. -/
def effectiveLimit (enabled : Bool) (raw : RawLimit) : Option ℕ :=
  if enabled then
    match parseLimitValue raw with
    | some n => if n = -1 then none else some n.toNat
    | none => none
  else none

/-- Year, month and day of a UTC time in milliseconds, as `getUTCFullYear`, `getUTCMonth` and
    `getUTCDate` give them: days are counted in eras of 400 years that begin on a 1 March. -/
def civil (now : ℕ) : ℕ × ℕ × ℕ :=
  let days := now / 86400000 + 719468
  let doe := days % 146097
  let yoe := (doe - doe / 1460 + doe / 36524 - doe / 146096) / 365
  let doy := doe - (365 * yoe + yoe / 4 - yoe / 100)
  let mp := (5 * doy + 2) / 153
  let month := if mp < 10 then mp + 3 else mp - 9
  (yoe + days / 146097 * 400 + (if month ≤ 2 then 1 else 0), month, doy - (153 * mp + 2) / 5 + 1)

def padStart2 (n : ℕ) : JsString := (if n < 10 then js "0" else []) ++ js (toString n)

def countKeyPrefix : JsString := js "send_mail_limit_count:"

def getDailyCountKey (now : ℕ) : JsString :=
  countKeyPrefix ++ (js "daily:" ++ (js (toString (civil now).1) ++ (js "-" ++ (padStart2 (civil now).2.1 ++
    (js "-" ++ padStart2 (civil now).2.2)))))

def getMonthlyCountKey (now : ℕ) : JsString :=
  countKeyPrefix ++ (js "monthly:" ++ (js (toString (civil now).1) ++ (js "-" ++ padStart2 (civil now).2.1)))

/-- No counter serves both as a daily and as a monthly one. -/
theorem dailyKey_ne_monthlyKey (now now' : ℕ) : getDailyCountKey now ≠ getMonthlyCountKey now' := by
  intro h
  have h := List.append_cancel_left h
  have hhead : (js "daily:").head? = (js "monthly:").head? := by
    have := congrArg List.head? h
    rwa [List.head?_append_of_ne_nil _ (by decide), List.head?_append_of_ne_nil _ (by decide)] at this
  revert hhead
  decide

/-- The keys and limits that one reservation binds. -/
structure Quota where
  dailyKey : Option JsString
  monthlyKey : Option JsString
  dailyLimit : Option ℕ
  monthlyLimit : Option ℕ
  deriving DecidableEq

/-- The quota `reserveSendMailLimit` derives from `getStrictSendMailLimitConfig`; `none` where that
    throws. -/
def readQuota (config : StoredConfig) (now : ℕ) : Option Quota :=
  match config with
  | .missing => some ⟨none, none, none, none⟩
  | .malformed => none
  | .stored config =>
    if limitAccepted config.dailyEnabled config.dailyLimit &&
        limitAccepted config.monthlyEnabled config.monthlyLimit then
      let dailyLimit := effectiveLimit config.dailyEnabled config.dailyLimit
      let monthlyLimit := effectiveLimit config.monthlyEnabled config.monthlyLimit
      some ⟨dailyLimit.map fun _ => getDailyCountKey now,
        monthlyLimit.map fun _ => getMonthlyCountKey now, dailyLimit, monthlyLimit⟩
    else none

/-! ### Counters -/

/-- `CAST(COALESCE((SELECT value FROM settings WHERE key = ?), '0') AS INTEGER)`. -/
def count (key : JsString) (counters : List Counter) : ℤ :=
  ((counters.find? (·.key = key)).map (·.value)).getD 0

/-- `INSERT OR IGNORE INTO settings(key, value) SELECT ?, '0'`. -/
def insertOrIgnore (key : JsString) (counters : List Counter) : List Counter :=
  if counters.any (·.key = key) then counters else counters ++ [⟨key, 0⟩]

def increment (key : JsString) (counters : List Counter) : List Counter :=
  updateWhere (·.key = key) (fun c => { c with value := max 0 c.value + 1 })
    (insertOrIgnore key counters)

def decrement (key : JsString) (counters : List Counter) : List Counter :=
  updateWhere (fun c => c.key = key && 0 < max 0 c.value)
    (fun c => { c with value := max 0 c.value - 1 }) counters

/-- A trigger body: the daily key, then the monthly key, each only when it is not null. -/
def onKeys (f : JsString → List Counter → List Counter) (r : Reservation) (counters : List Counter) :
    List Counter :=
  let counters := match r.dailyKey with | some key => f key counters | none => counters
  match r.monthlyKey with | some key => f key counters | none => counters

/-- `one_mail_send_limit_reservation_increment`. -/
def incrementTrigger (new : Reservation) (counters : List Counter) : List Counter :=
  if new.status = .active then onKeys increment new counters else counters

/-- `one_mail_send_limit_reservation_release`, fired by an update of `status` from `old` to `new`. -/
def releaseTrigger (old new : Reservation) (counters : List Counter) : List Counter :=
  if old.status = .active ∧ new.status = .released ∧ old.dispatchState = .pending then
    onKeys decrement old counters
  else counters

/-! ### Statements -/

/-- The two tables of the quota. -/
structure Quotas where
  reservations : List Reservation
  counters : List Counter
  deriving DecidableEq

def newReservation (id now : ℕ) (quota : Quota) (idempotencyKey requestHash : Option JsString) :
    Reservation where
  id := id
  dailyKey := quota.dailyKey
  monthlyKey := quota.monthlyKey
  dailyLimit := quota.dailyLimit
  monthlyLimit := quota.monthlyLimit
  status := .active
  updatedAt := now
  expiresAt := now + reservationTtl
  dispatchState := .pending
  idempotencyKey := idempotencyKey
  requestHash := requestHash
  senderAddress := none
  senderAddressId := none
  balanceReserved := false
  balanceRefunded := false

/-- `? IS NULL OR counter < ?`. -/
def admitsKey (counters : List Counter) (key : Option JsString) (limit : Option ℕ) : Bool :=
  key.all fun key => limit.any fun limit => count key counters < limit

/-- The guard of the reserving INSERT. -/
def Quota.admits (quota : Quota) (counters : List Counter) : Bool :=
  admitsKey counters quota.dailyKey quota.dailyLimit &&
    admitsKey counters quota.monthlyKey quota.monthlyLimit

def insertReservation (r : Reservation) (q : Quotas) : Quotas :=
  ⟨q.reservations ++ [r], incrementTrigger r q.counters⟩

/-- `UPDATE … SET status = 'released', updated_at = ? WHERE id = ?`, with its trigger. -/
def releaseRow (now id : ℕ) (q : Quotas) : Quotas :=
  let set := fun r : Reservation => { r with status := .released, updatedAt := now }
  ⟨updateWhere (·.id = id) set q.reservations,
    (q.reservations.filter (·.id = id)).foldl (fun counters r => releaseTrigger r (set r) counters)
      q.counters⟩

/-- The rows of one releasing statement, one after the other. -/
def releaseRows (now : ℕ) (ids : List ℕ) (q : Quotas) : Quotas :=
  ids.foldl (fun q id => releaseRow now id q) q

/-- `status = 'active' AND dispatch_state = 'pending'`. -/
def releasable (r : Reservation) : Bool := r.status = .active && r.dispatchState = .pending

def expiryOrder (r r' : Reservation) : Prop :=
  r.expiresAt < r'.expiresAt ∨ (r.expiresAt = r'.expiresAt ∧ r.id ≤ r'.id)

instance : DecidableRel expiryOrder := fun r r' => by unfold expiryOrder; infer_instance

/-- The rows that `releaseExpiredReservations` selects. -/
def expiredReservations (now batchLimit : ℕ) (reservations : List Reservation) : List Reservation :=
  selectTop (fun r => releasable r && r.expiresAt ≤ now) expiryOrder batchLimit reservations

/-- The row, if any, that `updateReservationStatus(released)` and the second statement of an
    operator's rejection select. -/
def releasableById (id : ℕ) (reservations : List Reservation) : List Reservation :=
  reservations.filter fun r => r.id = id && releasable r

def commitRow (now : ℕ) (r : Reservation) : Reservation :=
  { r with status := .committed, updatedAt := now }

/-- `updateReservationStatus(committed)`: only a sent row is committed. -/
def committable (id : ℕ) (r : Reservation) : Bool :=
  r.id = id && r.status = .active && r.dispatchState = .sent

/-- `updateDispatchState`. -/
def updateDispatchState (id : ℕ) (state expected : DispatchState) (now : ℕ)
    (reservations : List Reservation) : List Reservation :=
  updateWhere (fun r => r.id = id && r.status = .active && r.dispatchState = expected)
    (fun r => { r with dispatchState := state, updatedAt := now }) reservations

def markBalanceReserved (id : ℕ) (address addressId : JsString) (now : ℕ)
    (reservations : List Reservation) : List Reservation :=
  updateWhere (fun r => r.id = id && r.status = .active && !r.balanceReserved)
    (fun r => { r with
      senderAddress := some address, senderAddressId := some addressId, balanceReserved := true,
      balanceRefunded := false, updatedAt := now }) reservations

def purgeOrder (r r' : Reservation) : Prop :=
  r.updatedAt < r'.updatedAt ∨ (r.updatedAt = r'.updatedAt ∧ r.id ≤ r'.id)

instance : DecidableRel purgeOrder := fun r r' => by unfold purgeOrder; infer_instance

/-- The terminal rows that one reconciliation purges. -/
def purgeable (now batchLimit : ℕ) (reservations : List Reservation) : List Reservation :=
  selectTop (fun r => r.status ≠ .active && r.updatedAt + terminalRetention < now) purgeOrder batchLimit
    reservations

/-- What a call makes of the row that already holds its key. -/
inductive Replay where | conflict | sent | unknown | vacant
  deriving DecidableEq

def replayOf (requestHash : Option JsString) (existing : Reservation) : Replay :=
  if existing.requestHash ≠ requestHash then .conflict
  else if existing.status = .committed ∨ existing.dispatchState = .sent then .sent
  else if existing.dispatchState = .unknown ∨ existing.status = .active then .unknown
  else .vacant

end OneMail.Send
