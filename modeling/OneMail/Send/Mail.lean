import OneMail.Lib.Interleave
import OneMail.Send.Reservations

/-! `sendMail`, its operators and its cron as concurrent requests.

    A `Mail` is a `sendMail` or `sendMailByBindingAdmin` call that has passed its checks; `Call` is
    where a call, an operator's resolution or a reconciliation stands between two D1 statements, with
    what it has read so far. A statement may fail with a D1 error, which has no effect, and a call may
    crash anywhere. Every clock reading that a statement binds may be older than the statement. -/

namespace OneMail.Send
open JsString Table Interleave

/-- A row of `address_sender`. -/
structure Sender where
  address : JsString
  balance : ℤ
  enabled : Bool
  deriving DecidableEq

/-- A row of `address`, ids as the text they are compared as. -/
structure Address where
  id : JsString
  name : JsString
  deriving DecidableEq

structure Store where
  quotas : Quotas
  config : StoredConfig
  senders : List Sender
  addresses : List Address
  clock : ℕ
  /-- The ids drawn so far are the ones below. -/
  uuids : ℕ
  deriving DecidableEq

/-- A sending call: `sendMail`, or `sendMailByBindingAdmin`, which is never billable and always has
    its provider. -/
structure Mail where
  /-- `options.idempotencyKey?.trim() || null` -/
  idempotencyKey : Option JsString
  requestHash : Option JsString
  address : JsString
  addressId : JsString
  /-- `!sendByVerifiedAddressList && sendBalanceState.needCheckBalance` -/
  billable : Bool
  /-- Not `!sendByVerifiedAddressList && channel.kind === "none"`. -/
  hasProvider : Bool
  deriving DecidableEq

def bindingAdminMail (idempotencyKey requestHash : Option JsString) : Mail :=
  ⟨idempotencyKey, requestHash, [], [], false, true⟩

inductive Event where
  | inserted (r : Reservation)
  | committed (r : Reservation)
  | released (r : Reservation)
  | purged (r : Reservation)
  /-- The balance of the address was decremented for the reservation. -/
  | debited (id : ℕ) (address : JsString)
  /-- The request rolled back and incremented the balance of the address. -/
  | refunded (id : ℕ) (address : JsString)
  /-- An operator's resolution incremented the balance of the address. -/
  | repaid (id : ℕ) (address : JsString)
  /-- The provider was called. -/
  | dispatched (id : ℕ) (mail : Mail)
  /-- An operator released an unknown delivery as rejected. -/
  | rejected (id : ℕ)
  /-- An operator resolved as rejected a delivery whose row was released before. -/
  | rejectedReleased (id : ℕ)
  /-- The balance of the address changed by other means. -/
  | granted (address : JsString) (amount : ℤ)
  deriving DecidableEq

inductive Call where
  | idle
  | starting (m : Mail)
  /-- The quota configuration has been read. -/
  | configured (m : Mail) (quota : Quota)
  /-- Expired reservations are released; the key is looked up next. -/
  | swept (m : Mail) (quota : Quota)
  /-- The key is held by the released row `stale`, to be deleted next. -/
  | clearing (m : Mail) (quota : Quota) (id now stale : ℕ)
  | inserting (m : Mail) (quota : Quota) (id now : ℕ)
  /-- The INSERT hit the unique key; its row is read next. -/
  | duplicate (m : Mail)
  | reserved (m : Mail) (id : ℕ)
  /-- The balance is decremented; the reservation is marked next. -/
  | debited (m : Mail) (id : ℕ)
  | ready (m : Mail) (id : ℕ) (balanceReserved : Bool)
  /-- `markDispatchStarted` has returned; the provider is called next. -/
  | dispatching (m : Mail) (id : ℕ)
  | accepted (m : Mail) (id : ℕ)
  | committing (m : Mail) (id : ℕ)
  /-- The catch block before dispatch: the release, then the refund. -/
  | rollingBack (m : Mail) (id : ℕ) (balanceReserved : Bool)
  | refunding (m : Mail) (id : ℕ)
  -- `resolveUnknownSendMail`
  | resolving (id : ℕ) (outcome : Outcome)
  | accepting (id : ℕ)
  | rejecting (id : ℕ) (refund : Option (JsString × JsString))
  | repaying (id : ℕ) (address addressId : JsString)
  -- `reconcileSendMailLimitReservations`
  | promoting (now batchLimit : ℕ)
  | expiring (now batchLimit : ℕ)
  | purging (now batchLimit : ℕ)
  deriving DecidableEq

/-- Before the reservation exists any thrown error just ends the call. -/
def Call.unreserved : Call → Bool
  | .starting _ | .configured .. | .swept .. | .clearing .. | .inserting .. | .duplicate _ => true
  | _ => false

/-- An operator's or the cron's call: a D1 error ends it. -/
def Call.supervising : Call → Bool
  | .resolving .. | .accepting _ | .rejecting .. | .repaying .. | .expiring .. | .purging .. => true
  | _ => false

/-! ### Statements on several tables -/

def Store.setReservations (s : Store) (reservations : List Reservation) : Store :=
  { s with quotas := { s.quotas with reservations } }

/-- A releasing statement over the selected rows. -/
def Store.release (s : Store) (now : ℕ) (rows : List Reservation) : Store :=
  { s with quotas := releaseRows now (rows.map (·.id)) s.quotas }

/-- The events of a releasing statement, later rows first. -/
def releasedEvents (rows : List Reservation) : List Event := (rows.map Event.released).reverse

def findKey (key : JsString) (s : Store) : Option Reservation :=
  s.quotas.reservations.find? (·.idempotencyKey = some key)

/-- `UPDATE address_sender SET balance = balance - 1 WHERE address = ? AND enabled = 1 AND balance > 0`. -/
def canDebit (address : JsString) (row : Sender) : Bool :=
  row.address = address && row.enabled && 0 < row.balance

def addBalance (amount : ℤ) (row : Sender) : Sender := { row with balance := row.balance + amount }

def senderEvents (e : Event) (address : JsString) (senders : List Sender) : List Event :=
  if senders.any (·.address = address) then [e] else []

def refundSendBalance (address : JsString) (senders : List Sender) : List Sender :=
  updateWhere (·.address = address) (addBalance 1) senders

/-- The row `address_sender` holds after an administrator's write. -/
def putSender (row : Sender) (senders : List Sender) : List Sender :=
  deleteWhere (·.address = row.address) senders ++ [row]

def balanceOf (address : JsString) (senders : List Sender) : ℤ :=
  ((senders.find? (·.address = address)).map (·.balance)).getD 0

/-- The EXISTS of the first statement of `refundResolvedSendMailBalance`. -/
def refundDue (id : ℕ) (addressId : JsString) (s : Store) : Bool :=
  s.quotas.reservations.any fun r =>
    s.addresses.any (fun a => some a.id = r.senderAddressId && some a.name = r.senderAddress) &&
      r.id = id && r.senderAddressId = some addressId && r.status = .released && r.balanceReserved &&
      !r.balanceRefunded

/-- The second statement of `refundResolvedSendMailBalance` compares both the id and the name of the
    address with `addressId`. -/
def refundMarks (id : ℕ) (address addressId : JsString) (s : Store) (r : Reservation) : Bool :=
  r.id = id && r.status = .released && r.balanceReserved && !r.balanceRefunded &&
    r.senderAddress = some address && r.senderAddressId = some addressId &&
    s.senders.any (·.address = address) && s.addresses.any (fun a => a.id = addressId && a.name = addressId)

/-- `refundResolvedSendMailBalance`: one batch. -/
def refundResolvedSendMailBalance (id : ℕ) (address addressId : JsString) (now : ℕ) (s : Store) : Store :=
  let paid := { s with
    senders := if refundDue id addressId s then refundSendBalance address s.senders else s.senders }
  paid.setReservations (updateWhere (refundMarks id address addressId paid)
    (fun r => { r with balanceRefunded := true, updatedAt := now }) paid.quotas.reservations)

/-- What the operator is to refund: the sender of a reservation whose balance is taken and not given
    back, when there is an address. -/
def refundOf (r : Reservation) : Option (JsString × JsString) :=
  if r.balanceReserved && !r.balanceRefunded then
    match orElse r.senderAddress none, r.senderAddressId with
    | some address, some addressId => some (address, addressId)
    | _, _ => none
  else none

/-- The first branch of `resolveUnknownSendMailReservation`: the row is released already. -/
def refundPending (r : Reservation) (outcome : Outcome) : Bool :=
  r.status = .released && r.balanceReserved && !r.balanceRefunded && outcome = .rejected

def unresolved (r : Reservation) : Bool := r.status = .active && r.dispatchState = .unknown

def afterRefund (id : ℕ) : Option (JsString × JsString) → Call
  | some (address, addressId) => .repaying id address addressId
  | none => .idle

/-- `SET dispatch_state = 'sent', status = 'committed'` of an unknown delivery. -/
def acceptRow (now : ℕ) (r : Reservation) : Reservation :=
  { r with dispatchState := .sent, status := .committed, updatedAt := now }

/-! ### Steps -/

inductive MailStep : Store → Call → Store → Call → List Event → Prop
  -- the rest of the system
  | tick {s} (d : ℕ) : MailStep s .idle { s with clock := s.clock + d } .idle []
  | configure {s} (config : StoredConfig) : MailStep s .idle { s with config } .idle []
  | grant {s} (row : Sender) :
      MailStep s .idle { s with senders := putSender row s.senders } .idle
        [.granted row.address (row.balance - balanceOf row.address s.senders)]
  | drop {s} (address : JsString) :
      MailStep s .idle { s with senders := deleteWhere (·.address = address) s.senders } .idle
        [.granted address (-balanceOf address s.senders)]
  | readdress {s} (addresses : List Address) : MailStep s .idle { s with addresses } .idle []
  /-- The worker that ran the call is gone. -/
  | crash {s c} : MailStep s c s .idle []
  -- `reserveSendMailLimit`
  | start {s} (m : Mail) : MailStep s .idle s (.starting m) []
  | readConfig {s m} (quota : Quota) (h : readQuota s.config s.clock = some quota)
      (hkey : m.idempotencyKey.isSome = true → truthy m.requestHash = true) :
      MailStep s (.starting m) s (.configured m quota) []
  | sweep {s m quota} (now : ℕ) (hnow : now ≤ s.clock) :
      MailStep s (.configured m quota)
        (s.release now (expiredReservations now reconcileBatchSize s.quotas.reservations))
        (.swept m quota)
        (releasedEvents (expiredReservations now reconcileBatchSize s.quotas.reservations))
  | keyless {s m quota} (h : m.idempotencyKey = none) :
      MailStep s (.swept m quota) { s with uuids := s.uuids + 1 } (.inserting m quota s.uuids s.clock) []
  | vacant {s m quota} (key : JsString) (hkey : m.idempotencyKey = some key)
      (h : findKey key s = none) :
      MailStep s (.swept m quota) { s with uuids := s.uuids + 1 } (.inserting m quota s.uuids s.clock) []
  | stale {s m quota} (key : JsString) (r : Reservation) (hkey : m.idempotencyKey = some key)
      (h : findKey key s = some r) (hr : replayOf m.requestHash r = .vacant) :
      MailStep s (.swept m quota) { s with uuids := s.uuids + 1 }
        (.clearing m quota s.uuids s.clock r.id) []
  | replayed {s m quota} (key : JsString) (r : Reservation) (hkey : m.idempotencyKey = some key)
      (h : findKey key s = some r) (hr : replayOf m.requestHash r ≠ .vacant) :
      MailStep s (.swept m quota) s .idle []
  | clear {s m quota id now stale} :
      MailStep s (.clearing m quota id now stale)
        (s.setReservations (deleteWhere (fun r => r.id = stale && r.status = .released)
          s.quotas.reservations))
        (.inserting m quota id now) []
  | insert {s m quota id now} (hadmits : quota.admits s.quotas.counters = true)
      (hunique : ∀ key, m.idempotencyKey = some key → findKey key s = none) :
      MailStep s (.inserting m quota id now)
        { s with
          quotas := insertReservation (newReservation id now quota m.idempotencyKey m.requestHash)
            s.quotas }
        (.reserved m id) [.inserted (newReservation id now quota m.idempotencyKey m.requestHash)]
  | refuse {s m quota id now} (h : quota.admits s.quotas.counters = false) :
      MailStep s (.inserting m quota id now) s .idle []
  | collide {s m quota id now} (key : JsString) (hkey : m.idempotencyKey = some key)
      (hadmits : quota.admits s.quotas.counters = true) (h : (findKey key s).isSome = true) :
      MailStep s (.inserting m quota id now) s (.duplicate m) []
  /-- Every branch after a collision throws or replays. -/
  | replayDuplicate {s m} : MailStep s (.duplicate m) s .idle []
  | throw {s c} (h : c.unreserved = true) : MailStep s c s .idle []
  -- the balance
  | free {s m id} (h : m.billable = false) : MailStep s (.reserved m id) s (.ready m id false) []
  | debit {s m id} (h : m.billable = true) (hrow : s.senders.any (canDebit m.address) = true) :
      MailStep s (.reserved m id)
        { s with senders := updateWhere (canDebit m.address) (addBalance (-1)) s.senders }
        (.debited m id) [.debited id m.address]
  | noBalance {s m id} (h : m.billable = true) (hrow : s.senders.any (canDebit m.address) = false) :
      MailStep s (.reserved m id) s (.rollingBack m id false) []
  | debitFails {s m id} (h : m.billable = true) :
      MailStep s (.reserved m id) s (.rollingBack m id false) []
  | charge {s m id} (now : ℕ) (hnow : now ≤ s.clock) :
      MailStep s (.debited m id)
        (s.setReservations (markBalanceReserved id m.address m.addressId now s.quotas.reservations))
        (.ready m id true) []
  | chargeFails {s m id} : MailStep s (.debited m id) s (.rollingBack m id true) []
  -- the dispatch
  | noProvider {s m id b} (h : m.hasProvider = false) :
      MailStep s (.ready m id b) s (.rollingBack m id b) []
  | mark {s m id b} (now : ℕ) (hnow : now ≤ s.clock) (h : m.hasProvider = true) :
      MailStep s (.ready m id b)
        (s.setReservations (updateDispatchState id .unknown .pending now s.quotas.reservations))
        (.dispatching m id) []
  | markFails {s m id b} (h : m.hasProvider = true) :
      MailStep s (.ready m id b) s (.rollingBack m id b) []
  | dispatch {s m id} : MailStep s (.dispatching m id) s (.accepted m id) [.dispatched id m]
  | dispatchFails {s m id} : MailStep s (.dispatching m id) s .idle [.dispatched id m]
  | succeed {s m id} (now : ℕ) (hnow : now ≤ s.clock) :
      MailStep s (.accepted m id)
        (s.setReservations (updateDispatchState id .sent .unknown now s.quotas.reservations))
        (.committing m id) []
  | succeedFails {s m id} : MailStep s (.accepted m id) s .idle []
  | commit {s m id} (now : ℕ) (hnow : now ≤ s.clock) :
      MailStep s (.committing m id)
        (s.setReservations (updateWhere (committable id) (commitRow now) s.quotas.reservations)) .idle
        ((s.quotas.reservations.filter (committable id)).map .committed)
  | commitFails {s m id} : MailStep s (.committing m id) s .idle []
  -- the catch block
  | rollBack {s m id b} (now : ℕ) (hnow : now ≤ s.clock) :
      MailStep s (.rollingBack m id b) (s.release now (releasableById id s.quotas.reservations))
        (if b then .refunding m id else .idle)
        (releasedEvents (releasableById id s.quotas.reservations))
  | rollBackFails {s m id b} :
      MailStep s (.rollingBack m id b) s (if b then .refunding m id else .idle) []
  | refund {s m id} :
      MailStep s (.refunding m id) { s with senders := refundSendBalance m.address s.senders } .idle
        (senderEvents (.refunded id m.address) m.address s.senders)
  | refundFails {s m id} : MailStep s (.refunding m id) s .idle []
  -- `resolveUnknownSendMail`
  | resolve {s} (id : ℕ) (outcome : Outcome) : MailStep s .idle s (.resolving id outcome) []
  | missing {s id outcome} (h : s.quotas.reservations.find? (·.id = id) = none) :
      MailStep s (.resolving id outcome) s .idle []
  | refundAgain {s id outcome} (r : Reservation)
      (h : s.quotas.reservations.find? (·.id = id) = some r)
      (hr : refundPending r outcome = true) :
      MailStep s (.resolving id outcome) s (afterRefund id (refundOf r)) [.rejectedReleased id]
  | resolved {s id outcome} (r : Reservation)
      (h : s.quotas.reservations.find? (·.id = id) = some r) (hp : refundPending r outcome = false)
      (hr : unresolved r = false) : MailStep s (.resolving id outcome) s .idle []
  | acceptUnknown {s id} (r : Reservation) (h : s.quotas.reservations.find? (·.id = id) = some r)
      (hr : unresolved r = true) : MailStep s (.resolving id .sent) s (.accepting id) []
  | rejectUnknown {s id} (r : Reservation) (h : s.quotas.reservations.find? (·.id = id) = some r)
      (hr : unresolved r = true) : MailStep s (.resolving id .rejected) s (.rejecting id (refundOf r)) []
  | accept {s id} (now : ℕ) (hnow : now ≤ s.clock) :
      MailStep s (.accepting id)
        (s.setReservations (updateWhere (fun r => r.id = id && unresolved r) (acceptRow now)
          s.quotas.reservations)) .idle
        ((s.quotas.reservations.filter fun r => r.id = id && unresolved r).map .committed)
  /-- The batch: back to pending, then released. It answers `released` when the second statement
      found its row. -/
  | reject {s id refund} (now : ℕ) (hnow : now ≤ s.clock) (rows : List Reservation)
      (hrows : rows = releasableById id
        (updateDispatchState id .pending .unknown now s.quotas.reservations)) :
      MailStep s (.rejecting id refund)
        ((s.setReservations (updateDispatchState id .pending .unknown now s.quotas.reservations)).release
          now rows)
        (if rows = [] then .idle else afterRefund id refund)
        ((if rows = [] then [] else [.rejected id]) ++ releasedEvents rows)
  | repay {s id address addressId} (now : ℕ) (hnow : now ≤ s.clock) :
      MailStep s (.repaying id address addressId)
        (refundResolvedSendMailBalance id address addressId now s) .idle
        (if refundDue id addressId s then senderEvents (.repaid id address) address s.senders else [])
  -- `reconcileSendMailLimitReservations`
  | reconcile {s} (now batchLimit : ℕ) (hnow : now ≤ s.clock) :
      MailStep s .idle s (.promoting now batchLimit) []
  | promote {s now batchLimit} :
      MailStep s (.promoting now batchLimit)
        (s.setReservations (updateWhere (fun r => r.status = .active && r.dispatchState = .sent)
          (commitRow now) s.quotas.reservations))
        (.expiring now batchLimit)
        ((s.quotas.reservations.filter fun r => r.status = .active && r.dispatchState = .sent).map
          .committed)
  | promoteFails {s now batchLimit} :
      MailStep s (.promoting now batchLimit) s (.expiring now batchLimit) []
  | expire {s now batchLimit} :
      MailStep s (.expiring now batchLimit)
        (s.release now (expiredReservations now batchLimit s.quotas.reservations))
        (.purging now batchLimit)
        (releasedEvents (expiredReservations now batchLimit s.quotas.reservations))
  | purge {s now batchLimit} :
      MailStep s (.purging now batchLimit)
        (s.setReservations (deleteWhere
          (fun r => r.id ∈ (purgeable now batchLimit s.quotas.reservations).map (·.id))
          s.quotas.reservations)) .idle
        ((purgeable now batchLimit s.quotas.reservations).map .purged)
  | supervisorFails {s c} (h : c.supervising = true) : MailStep s c s .idle []

/-- Mail: any configuration and addresses, empty tables, nothing drawn. -/
def mail : Prog Store Call Event where
  idle := .idle
  init s := s.quotas = ⟨[], []⟩ ∧ s.senders = [] ∧ s.uuids = 0
  step := MailStep

end OneMail.Send
