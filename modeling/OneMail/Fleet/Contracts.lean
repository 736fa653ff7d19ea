import OneMail.Js.JsString
import OneMail.Lib.KeyValue

/-! The fleet contracts: what a command may carry, and how its numbers are added.

    Epochs are uint64 decimal strings in canonical form, so that two are the same text exactly when they
    are the same number; instants and dates are milliseconds and days since the epoch of the clock. A
    JSON record whose keys are ids is a `Map`. The scalar checks other than `id` (safe integers, origins,
    calendar dates) restrict the values of single fields; a result that depends on one states it. -/

namespace OneMail.Fleet

open KeyValue (Map)

abbrev Id := JsString

inductive FleetErrorCode where
  | invalidRequest | notConfigured | configConflict | modeDisabled
  | unknownMailbox | missingOwner | mailboxDeleted | mailboxNotEmpty
  | noCapacity | staleMetrics | revisionConflict | idempotencyConflict
  | gateMismatch | counterOverflow | registryLimit | registryUnavailable
  deriving DecidableEq

/-- The class's own defaults: status 400, not retryable. -/
structure FleetError where
  code : FleetErrorCode
  status : ℕ := 400
  retryable : Bool := false
  deriving DecidableEq

abbrev Checked := Except FleetError

def require (p : Bool) (e : FleetError) : Checked Unit := if p then .ok () else .error e

theorem require_ok {p : Bool} {e : FleetError} {u : Unit} : require p e = .ok u ↔ p = true := by
  cases p <;> simp [require]

theorem bind_ok {α β : Type} {x : Checked α} {f : α → Checked β} {b : β} :
    x >>= f = .ok b ↔ ∃ a, x = .ok a ∧ f a = .ok b := by
  cases x <;> simp [bind, Except.bind]

def invalid : FleetError := { code := .invalidRequest }

/-! ### Numbers -/

abbrev Epoch := Fin 18446744073709551616

instance epochNeZero : NeZero 18446744073709551616 := inferInstance

def nextEpoch (value : Epoch) : Checked Epoch :=
  if h : value.val + 1 < 18446744073709551616 then .ok ⟨value.val + 1, h⟩
  else .error { code := .counterOverflow, status := 409 }

def maxSafeInteger : ℕ := 9007199254740991

/-- `safeAdd(...values)`: the sum, as long as every value and every partial sum is a safe integer. -/
def safeAdd (values : List ℕ) : Checked ℕ :=
  values.foldlM (fun sum value =>
    if value ≤ maxSafeInteger ∧ sum ≤ maxSafeInteger - value then .ok (sum + value)
    else .error { code := .counterOverflow, status := 409 }) 0

theorem nextEpoch_ok {e e' : Epoch} (h : nextEpoch e = .ok e') : e'.val = e.val + 1 := by
  rw [nextEpoch] at h
  split at h <;> cases h
  rfl

theorem safeAdd_pair_ok {a b n : ℕ} (h : safeAdd [a, b] = .ok n) : n = a + b := by
  simp only [safeAdd, List.foldlM_cons, List.foldlM_nil, bind_ok] at h
  obtain ⟨a', ha, b', hb, hn⟩ := h
  split at ha <;> cases ha
  split at hb <;> cases hb
  cases hn
  omega

/-- `new Date(now).toISOString().slice(0, 10)` -/
def utcDate (now : ℕ) : ℕ := now / 86400000

/-! ### Ids -/

def isAlphanumeric (c : UInt16) : Bool :=
  (0x41 ≤ c && c ≤ 0x5A) || (0x61 ≤ c && c ≤ 0x7A) || (0x30 ≤ c && c ≤ 0x39)

/-- `/^[A-Za-z0-9][A-Za-z0-9_.:@-]{0,127}$/` -/
def isId : Id → Bool
  | [] => false
  | c :: cs => isAlphanumeric c && cs.length ≤ 127 &&
      cs.all fun d => isAlphanumeric d || d = 0x5F || d = 0x2E || d = 0x3A || d = 0x40 || d = 0x2D

/-! ### Records -/

inductive ShardState where
  | prepared | healthy | draining | degraded | exhausted | disabled
  deriving DecidableEq

inductive RouteState where
  | active | frozen | deleting
  deriving DecidableEq

inductive Confidence where
  | authoritative | partially | stale
  deriving DecidableEq

inductive MetricSource where
  | cloudflareGraphql | applicationMeta | reconciled
  deriving DecidableEq

structure Shard where
  shardId : Id
  accountKey : Id
  baseUrl : JsString
  state : ShardState
  schemaVersion : ℕ
  protocolVersion : ℕ
  storageLimitBytes : ℕ
  observedSizeBytes : ℕ
  databaseId : Id
  credentialRef : Id
  deriving DecidableEq

structure CloudAccount where
  accountKey : Id
  providerAccountId : Id
  enabled : Bool
  credentialRef : Id
  dailyReadLimit : ℕ
  dailyWriteLimit : ℕ
  workerRequestLimit : ℕ
  metricsObservedAt : Option ℕ
  deriving DecidableEq

@[ext] structure ResourceBudget where
  reservedRead : ℕ
  reservedWrite : ℕ
  reservedWorkerRequests : ℕ
  reservedBytes : ℕ
  deriving DecidableEq

instance : Zero ResourceBudget := ⟨⟨0, 0, 0, 0⟩⟩

instance : Add ResourceBudget := ⟨fun a b => ⟨a.reservedRead + b.reservedRead,
  a.reservedWrite + b.reservedWrite, a.reservedWorkerRequests + b.reservedWorkerRequests,
  a.reservedBytes + b.reservedBytes⟩⟩

/-- Budgets add up resource by resource. -/
instance : AddCommMonoid ResourceBudget where
  add_assoc _ _ _ := ResourceBudget.ext (add_assoc ..) (add_assoc ..) (add_assoc ..) (add_assoc ..)
  zero_add _ := ResourceBudget.ext (zero_add _) (zero_add _) (zero_add _) (zero_add _)
  add_zero _ := rfl
  add_comm _ _ := ResourceBudget.ext (add_comm ..) (add_comm ..) (add_comm ..) (add_comm ..)
  nsmul := nsmulRec

structure FleetConfig where
  accounts : List CloudAccount
  shards : List Shard
  primaryShardId : Id
  requiredSchemaVersion : ℕ
  requiredProtocolVersion : ℕ
  allocationBudget : ResourceBudget
  maxMailboxes : ℕ
  deriving DecidableEq

structure MailboxRoute where
  mailAccountId : Id
  ownerShardId : Id
  epoch : Epoch
  state : RouteState
  migrationId : Option Id
  updatedAt : ℕ
  deriving DecidableEq

structure PendingAllocation where
  operationId : Id
  mailAccountId : Id
  ownerShardId : Id
  epoch : Epoch
  createdAt : ℕ
  deriving DecidableEq

structure MetricSnapshot where
  accountKey : Id
  utcDate : ℕ
  observedAt : ℕ
  source : MetricSource
  rowsRead : ℕ
  rowsWritten : ℕ
  workerRequests : ℕ
  confidence : Confidence
  shardSizes : Map Id ℕ
  deriving DecidableEq

structure MetricReport where
  snapshot : MetricSnapshot
  projectedRowsRead : ℕ
  projectedRowsWritten : ℕ
  projectedWorkerRequests : ℕ
  deriving DecidableEq

/-- `baseline` retains the last accepted cumulative sample. -/
structure MetricSeries where
  report : MetricReport
  consecutiveValidSamples : ℕ
  baseline : Option MetricReport

structure ImportEntry where
  route : MailboxRoute
  userKey : Id
  gateConfirmed : Bool
  deriving DecidableEq

structure Gate where
  ownerShardId : Id
  epoch : Epoch
  mode : JsString
  deriving DecidableEq

/-- What each command carries besides the expected revision and the idempotency key. -/
inductive Action where
  | configure (config : FleetConfig)
  | import (mailboxes : List ImportEntry)
  | allocate (mailAccountId userKey : Id) (knownEmpty : Bool)
  | confirm (mailAccountId operationId : Id) (gate : Gate)
  | metrics (report : MetricReport)
  | tombstone (mailAccountId : Id)
  deriving DecidableEq

structure Command where
  expectedRevision : Epoch
  idempotencyKey : Id
  action : Action
  deriving DecidableEq

/-! ### Validation -/

def fleetConfig (c : FleetConfig) : Bool :=
  c.accounts ≠ [] && c.shards ≠ [] && c.accounts.length ≤ 12 && c.shards.length ≤ 12 &&
    (c.accounts.map (·.accountKey)).Nodup && (c.accounts.map (·.providerAccountId)).Nodup &&
    (c.shards.map (·.shardId)).Nodup && (c.shards.map fun s => s.accountKey ++ js ":" ++ s.databaseId).Nodup &&
    (c.shards.map (·.baseUrl)).Nodup &&
    c.shards.all (fun s => c.accounts.any (·.accountKey = s.accountKey)) &&
    c.shards.any (·.shardId = c.primaryShardId) && 1 ≤ c.maxMailboxes && c.maxMailboxes ≤ 1000 &&
    c.allocationBudget.reservedRead ≠ 0 && c.allocationBudget.reservedWrite ≠ 0 &&
    c.allocationBudget.reservedWorkerRequests ≠ 0 && c.allocationBudget.reservedBytes ≠ 0 &&
    c.accounts.all (fun a => isId a.accountKey && isId a.providerAccountId && isId a.credentialRef) &&
    c.shards.all (fun s => isId s.shardId && isId s.databaseId && isId s.credentialRef)

def importEntry (e : ImportEntry) : Bool :=
  e.gateConfirmed && isId e.route.mailAccountId && isId e.route.ownerShardId && isId e.userKey &&
    e.route.migrationId.all isId

def importRequest (mailboxes : List ImportEntry) : Bool :=
  mailboxes.length ≤ 100 && mailboxes.all importEntry && mailboxes ≠ [] &&
    (mailboxes.map (·.route.mailAccountId)).Nodup

def metricReport (r : MetricReport) : Bool :=
  isId r.snapshot.accountKey && r.snapshot.shardSizes.entries.length ≤ 12 &&
    r.snapshot.shardSizes.entries.all (fun e => isId e.1) &&
    r.snapshot.rowsRead ≤ r.projectedRowsRead && r.snapshot.rowsWritten ≤ r.projectedRowsWritten &&
    r.snapshot.workerRequests ≤ r.projectedWorkerRequests

/-- The check of each command's own fields. -/
def parseAction : Action → Checked Unit
  | .configure config => require (fleetConfig config) invalid
  | .import mailboxes => require (importRequest mailboxes) invalid
  | .allocate mailbox user knownEmpty => do
    require knownEmpty { code := .mailboxNotEmpty, status := 409 }
    require (isId mailbox && isId user) invalid
  | .confirm mailbox operation gate =>
    require (gate.mode = js "active" && isId mailbox && isId operation && isId gate.ownerShardId) invalid
  | .metrics report => require (metricReport report) invalid
  | .tombstone mailbox => require (isId mailbox) invalid

/-- `parseCommand`, on a body whose fields have the right types. -/
def parseCommand (c : Command) : Checked Command := do
  parseAction c.action
  require (isId c.idempotencyKey) invalid
  return c

theorem parseCommand_ok {c c' : Command} (h : parseCommand c = .ok c') : c' = c := by
  simp only [parseCommand, bind_ok] at h
  obtain ⟨-, -, -, -, h⟩ := h
  cases h
  rfl

end OneMail.Fleet
