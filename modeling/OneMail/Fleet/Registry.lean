import OneMail.Fleet.Placement
import OneMail.Lib.Table

/-! The fleet registry: one object that owns all fleet decisions.

    `Storage` has one map for each key prefix of the object's storage, and a command runs as one
    transaction: `transact` returns what it answers with the storage it leaves, and `fetch` keeps the
    storage as it was when the transaction throws. Six commands maintain the mailbox records and, beside
    them, the published routes, the mailbox count, the users' affinities, the shard usage and the
    reservation totals. -/

namespace OneMail.Fleet

open KeyValue (Map)
open Table (selectTop)

def retentionMs : ℕ := 30 * 24 * 60 * 60 * 1000
def maxOperations : ℤ := 200000

structure RegistryMeta where
  revision : Epoch
  updatedAt : ℕ
  config : Option FleetConfig
  mailboxCount : ℤ
  operationCount : ℤ

structure MailboxRecord where
  userKey : Id
  route : Option MailboxRoute
  pending : Option PendingAllocation
  deleted : Bool
  epoch : Epoch
  deriving DecidableEq

/-- A reservation is only ever written with state `held`. -/
structure Reservation where
  accountKey : Id
  shardId : Id
  operationId : Id
  utcDate : ℕ
  demand : ResourceBudget
  held : Bool
  deriving DecidableEq

inductive Result where
  | configured
  | imported (mailboxes : ℕ)
  | sampled (consecutiveValidSamples : ℕ)
  | route (route : MailboxRoute)
  | pending (pending : PendingAllocation)
  | alreadyDeleted (mailAccountId : Id) (epoch : Epoch)
  | tombstone (mailAccountId : Id) (epoch : Epoch) (ownerShardId : Option Id) (updatedAt : ℕ)
  deriving DecidableEq

structure Response where
  result : Result
  revision : Epoch
  deriving DecidableEq

structure OperationRecord (δ : Type) where
  fingerprint : δ
  response : Response
  createdAt : ℕ
  deriving DecidableEq

structure Storage (δ : Type) where
  registryMeta : Option RegistryMeta
  mailboxes : Map Id MailboxRecord
  routes : Map Id MailboxRoute
  users : Map Id (Map Id ℕ)
  shardUsage : Map Id ℕ
  allocationBudgets : Map Id ResourceBudget
  reservedBytes : Map Id ℕ
  reservations : Map Id Reservation
  metrics : Map Id MetricSeries
  operations : Map Id (OperationRecord δ)
  /-- The index by time: its keys are the padded clock and the idempotency key. -/
  audit : Map (ℕ × Id) Id

def Storage.empty (δ : Type) : Storage δ := ⟨none, ∅, ∅, ∅, ∅, ∅, ∅, ∅, ∅, ∅, ∅⟩

def emptyMeta (now : ℕ) : RegistryMeta := ⟨0, now, none, 0, 0⟩

variable {δ : Type}

/-- What a command leaves: its result, the header it has changed in memory, and the storage. -/
abbrev Outcome (δ : Type) := Result × RegistryMeta × Storage δ

inductive FleetMode where
  | legacyStatic | observe | allocate | rebalance
  deriving DecidableEq

def modeOf : Option JsString → Checked FleetMode
  | none | some [] => .ok .legacyStatic
  | some value =>
    if value = js "legacy-static" then .ok .legacyStatic
    else if value = js "observe" then .ok .observe
    else if value = js "allocate" then .ok .allocate
    else if value = js "rebalance" then .ok .rebalance
    else .error invalid

def requireAllocationMode (mode : FleetMode) : Checked Unit :=
  require (mode = .allocate || mode = .rebalance) { code := .modeDisabled, status := 409 }

def requireConfig (rm : RegistryMeta) : Checked FleetConfig :=
  match rm.config with
  | some config => .ok config
  | none => .error { code := .notConfigured, status := 503, retryable := true }

def assertOwner (config : FleetConfig) (owner : Id) : Checked Unit :=
  require (config.shards.any (·.shardId = owner))
    { code := .missingOwner, status := 503, retryable := true }

/-! ### Pruning -/

def auditBefore (a b : Σ _ : ℕ × Id, Id) : Prop := a.1.1 < b.1.1 ∨ a.1.1 = b.1.1 ∧ a.1.2 ≤ b.1.2

instance : DecidableRel auditBefore := fun _ _ => inferInstanceAs (Decidable (_ ∨ _ ∧ _))

/-- The audit entries before the cutoff, the first hundred of them. -/
def expired (s : Storage δ) (now : ℕ) : List (Σ _ : ℕ × Id, Id) :=
  selectTop (fun e => e.1.1 + retentionMs < now) auditBefore 100 s.audit.entries

def pruneOperations (s : Storage δ) (rm : RegistryMeta) (now : ℕ) : RegistryMeta × Storage δ :=
  (expired s now).foldl (fun acc e =>
    ({ acc.1 with operationCount := acc.1.operationCount - 1 },
      { acc.2 with operations := acc.2.operations.erase e.2, audit := acc.2.audit.erase e.1 })) (rm, s)

/-! ### Configuration -/

def shardOf (config : FleetConfig) (id : Id) : Option Shard := config.shards.find? (·.shardId = id)

def accountOf (config : FleetConfig) (key : Id) : Option CloudAccount :=
  config.accounts.find? (·.accountKey = key)

/-- The next configuration keeps the physical owner behind a shard of the present one. -/
def keepsIdentity (present next : FleetConfig) (shard : Shard) : Bool :=
  match shardOf next shard.shardId with
  | none => false
  | some replacement =>
    replacement.accountKey = shard.accountKey && replacement.databaseId = shard.databaseId &&
      replacement.baseUrl = shard.baseUrl &&
      (accountOf next shard.accountKey).map (·.providerAccountId) =
        (accountOf present shard.accountKey).map (·.providerAccountId)

/-- The accounts whose measurements no longer describe the same provider account and databases. -/
def invalidated (present : Option FleetConfig) (next : FleetConfig) : List Id :=
  let accounts := ((present.map (·.accounts)).getD [] ++ next.accounts).filter fun account =>
    (present.bind (accountOf · account.accountKey)).map (·.providerAccountId) ≠
      (accountOf next account.accountKey).map (·.providerAccountId)
  let shards := ((present.map (·.shards)).getD [] ++ next.shards).flatMap fun shard =>
    let previous := present.bind (shardOf · shard.shardId)
    let replacement := shardOf next shard.shardId
    if previous.map (·.accountKey) = replacement.map (·.accountKey) ∧
        previous.map (·.databaseId) = replacement.map (·.databaseId) then []
    else (previous.map (·.accountKey)).toList ++ (replacement.map (·.accountKey)).toList
  accounts.map (·.accountKey) ++ shards

def configConflict : FleetError := { code := .configConflict, status := 409 }

def configure (s : Storage δ) (rm : RegistryMeta) (config : FleetConfig) : Checked (Outcome δ) := do
  require (rm.mailboxCount ≤ config.maxMailboxes) configConflict
  require (rm.config.all (·.primaryShardId = config.primaryShardId)) configConflict
  require (rm.config.all fun present => present.shards.all fun shard =>
    (s.shardUsage.lookup shard.shardId).getD 0 = 0 || keepsIdentity present config shard) configConflict
  let stale := invalidated rm.config config
  let accounts := config.accounts.map fun account =>
    if account.accountKey ∈ stale then { account with metricsObservedAt := none } else account
  return (.configured, { rm with config := some { config with accounts := accounts } },
    { s with metrics := stale.foldl (fun m key => m.erase key) s.metrics })

/-! ### Counters of shards and users -/

def incrementUsage (s : Storage δ) (shard : Id) : Checked (Storage δ) := do
  let usage ← safeAdd [(s.shardUsage.lookup shard).getD 0, 1]
  return { s with shardUsage := s.shardUsage.insert shard usage }

def affinities (s : Storage δ) (user : Id) : Map Id ℕ := (s.users.lookup user).getD ∅

def addAffinity (s : Storage δ) (user shard : Id) : Checked (Storage δ) := do
  let shards := affinities s user
  let count ← safeAdd [(shards.lookup shard).getD 0, 1]
  return { s with users := s.users.insert user (shards.insert shard count) }

def removeAffinity (s : Storage δ) (user shard : Id) : Storage δ :=
  let shards := affinities s user
  let count := (shards.lookup shard).getD 0
  let left := if count ≤ 1 then shards.erase shard else shards.insert shard (count - 1)
  { s with users := if left.keys = [] then s.users.erase user else s.users.insert user left }

/-! ### Commands -/

def mailboxDeleted : FleetError := { code := .mailboxDeleted, status := 409 }
def registryLimit : FleetError := { code := .registryLimit, status := 409 }

def importRoute (config : FleetConfig) (s : Storage δ) (entry : ImportEntry) : Checked (Storage δ) := do
  let route := entry.route
  assertOwner config route.ownerShardId
  match s.mailboxes.lookup route.mailAccountId with
  | some existing => .error (if existing.deleted then mailboxDeleted else configConflict)
  | none =>
    let record := ⟨entry.userKey, some route, none, route.state = .deleting, route.epoch⟩
    let s ← incrementUsage { s with
      mailboxes := s.mailboxes.insert route.mailAccountId record
      routes := s.routes.insert route.mailAccountId route } route.ownerShardId
    addAffinity s entry.userKey route.ownerShardId

def importRoutes (s : Storage δ) (rm : RegistryMeta) (mailboxes : List ImportEntry) : Checked (Outcome δ) := do
  let config ← requireConfig rm
  require (rm.mailboxCount + mailboxes.length ≤ config.maxMailboxes) registryLimit
  let s ← mailboxes.foldlM (importRoute config) s
  return (.imported mailboxes.length, { rm with mailboxCount := rm.mailboxCount + mailboxes.length }, s)

def metrics (s : Storage δ) (rm : RegistryMeta) (report : MetricReport) (now : ℕ) : Checked (Outcome δ) := do
  let config ← requireConfig rm
  let snapshot := report.snapshot
  require (config.accounts.any (·.accountKey = snapshot.accountKey)) invalid
  require (snapshot.shardSizes.keys.all fun id =>
    config.shards.any fun shard => shard.accountKey = snapshot.accountKey && shard.shardId = id) invalid
  let series := updateMetricSeries (s.metrics.lookup snapshot.accountKey) report now
  let observed : FleetConfig := { config with
    accounts := config.accounts.map fun account =>
      if account.accountKey = snapshot.accountKey then
        { account with metricsObservedAt := some snapshot.observedAt } else account
    shards := config.shards.map fun shard =>
      match snapshot.shardSizes.lookup shard.shardId with
      | none => shard
      | some size => { shard with observedSizeBytes := size } }
  return (.sampled series.consecutiveValidSamples,
    if 0 < series.consecutiveValidSamples then { rm with config := some observed } else rm,
    { s with metrics := s.metrics.insert snapshot.accountKey series })

def placementInput (s : Storage δ) (config : FleetConfig) (affinity : List Id) (now : ℕ) :
    PlacementInput where
  config := config
  metrics := (config.accounts.filterMap fun account => s.metrics.lookup account.accountKey).foldl
    (fun m series => m.insert series.report.snapshot.accountKey series) ∅
  accountReservations := s.allocationBudgets
  shardReservedBytes := s.reservedBytes
  affinityShards := affinity
  now := now

/-- The decision as a shard and its account, or the error it is answered with. -/
def placed : Option PlacementDecision → Checked (Id × Id)
  | some (.placed shard account _) => .ok (shard, account)
  | some .noCapacity => .error { code := .noCapacity, status := 503, retryable := true }
  | some .staleMetrics => .error { code := .staleMetrics, status := 503, retryable := true }
  | none => .error { code := .registryUnavailable, status := 503, retryable := true }

def addBudget (before demand : ResourceBudget) : Checked ResourceBudget := do
  let read ← safeAdd [before.reservedRead, demand.reservedRead]
  let write ← safeAdd [before.reservedWrite, demand.reservedWrite]
  let requests ← safeAdd [before.reservedWorkerRequests, demand.reservedWorkerRequests]
  let bytes ← safeAdd [before.reservedBytes, demand.reservedBytes]
  return ⟨read, write, requests, bytes⟩

/-- `allocate` for a mailbox that has neither a route nor a pending allocation. -/
def place (s : Storage δ) (rm : RegistryMeta) (config : FleetConfig) (mailbox user operation : Id)
    (now : ℕ) : Checked (Outcome δ) := do
  require (rm.mailboxCount < config.maxMailboxes) registryLimit
  let decision ← choosePlacement (placementInput s config (affinities s user).keys now)
  let (shard, account) ← placed decision
  let pending : PendingAllocation := ⟨operation, mailbox, shard, 1, now⟩
  let demand := config.allocationBudget
  let budget ← addBudget ((s.allocationBudgets.lookup account).getD emptyBudget) demand
  let bytes ← safeAdd [(s.reservedBytes.lookup shard).getD 0, demand.reservedBytes]
  let s ← incrementUsage { s with
    allocationBudgets := s.allocationBudgets.insert account budget
    reservedBytes := s.reservedBytes.insert shard bytes
    reservations := s.reservations.insert mailbox ⟨account, shard, operation, utcDate now, demand, true⟩
    mailboxes := s.mailboxes.insert mailbox ⟨user, none, some pending, false, 1⟩ } shard
  let s ← addAffinity s user shard
  return (.pending pending, { rm with mailboxCount := rm.mailboxCount + 1 }, s)

def allocate (s : Storage δ) (rm : RegistryMeta) (mailbox user operation : Id) (now : ℕ)
    (mode : FleetMode) : Checked (Outcome δ) := do
  requireAllocationMode mode
  let config ← requireConfig rm
  match s.mailboxes.lookup mailbox with
  | none => place s rm config mailbox user operation now
  | some existing =>
    require (!existing.deleted) mailboxDeleted
    require (existing.userKey = user) configConflict
    match existing.route, existing.pending with
    | some route, _ => return (.route route, rm, s)
    | none, some pending => return (.pending pending, rm, s)
    | none, none => place s rm config mailbox user operation now

def confirm (s : Storage δ) (rm : RegistryMeta) (mailbox operation : Id) (gate : Gate) (now : ℕ)
    (mode : FleetMode) : Checked (Outcome δ) := do
  requireAllocationMode mode
  let config ← requireConfig rm
  match s.mailboxes.lookup mailbox with
  | none => .error { code := .unknownMailbox, status := 404 }
  | some existing =>
    require (!existing.deleted) mailboxDeleted
    match existing.pending with
    | none => .error { code := .gateMismatch, status := 409 }
    | some pending =>
      require (pending.operationId = operation && pending.ownerShardId = gate.ownerShardId &&
        pending.epoch = gate.epoch) { code := .gateMismatch, status := 409 }
      assertOwner config pending.ownerShardId
      match existing.route with
      | some route => return (.route route, rm, s)
      | none =>
        let route : MailboxRoute := ⟨mailbox, pending.ownerShardId, pending.epoch, .active, none, now⟩
        return (.route route, rm, { s with
          mailboxes := s.mailboxes.insert mailbox { existing with route := some route }
          routes := s.routes.insert mailbox route })

/-- The shard that holds the mailbox: the one of its route, else the one of its pending allocation. -/
def MailboxRecord.owner (r : MailboxRecord) : Option Id :=
  (r.route.map (·.ownerShardId)).orElse fun _ => r.pending.map (·.ownerShardId)

/-- The user loses the affinity to the shard of the record. -/
def release (s : Storage δ) (r : MailboxRecord) : Storage δ :=
  match r.owner with
  | none => s
  | some owner => removeAffinity s r.userKey owner

def tombstone (s : Storage δ) (rm : RegistryMeta) (mailbox : Id) (now : ℕ) : Checked (Outcome δ) := do
  let _ ← requireConfig rm
  match s.mailboxes.lookup mailbox with
  | none =>
    let epoch ← nextEpoch 0
    return (.tombstone mailbox epoch none now, rm, { s with
      mailboxes := s.mailboxes.insert mailbox ⟨js "deleted", none, none, true, epoch⟩
      routes := s.routes.erase mailbox })
  | some existing =>
    if existing.deleted then return (.alreadyDeleted mailbox existing.epoch, rm, s)
    let epoch ← nextEpoch existing.epoch
    let s : Storage δ := { s with
      mailboxes := s.mailboxes.insert mailbox { existing with deleted := true, epoch := epoch }
      routes := s.routes.erase mailbox }
    return (.tombstone mailbox epoch existing.owner now,
      { rm with mailboxCount := rm.mailboxCount - 1 }, release s existing)

def execute (s : Storage δ) (rm : RegistryMeta) (c : Command) (now : ℕ) (mode : FleetMode) : Checked (Outcome δ) :=
  match c.action with
  | .configure config => configure s rm config
  | .import mailboxes => importRoutes s rm mailboxes
  | .metrics report => metrics s rm report now
  | .allocate mailbox user _ => allocate s rm mailbox user c.idempotencyKey now mode
  | .confirm mailbox operation gate => confirm s rm mailbox operation gate now mode
  | .tombstone mailbox => tombstone s rm mailbox now

/-! ### The transaction -/

/-- The part of the transaction behind the replay check: compare the revision, prune, execute and record
    the operation. -/
def applyCommand (fingerprint : Command → δ) (s : Storage δ) (rm : RegistryMeta) (c : Command) (now : ℕ)
    (mode : FleetMode) : Checked (Response × Storage δ) := do
  require (rm.revision = c.expectedRevision) { code := .revisionConflict, status := 409, retryable := true }
  let revision ← nextEpoch rm.revision
  let (rm, s) := pruneOperations s rm now
  require (rm.operationCount < maxOperations)
    { code := .registryLimit, status := 503, retryable := true }
  let (result, rm, s) ← execute s rm c now mode
  let response : Response := ⟨result, revision⟩
  return (response, { s with
    registryMeta := some { rm with
      revision := revision, updatedAt := now, operationCount := rm.operationCount + 1 }
    operations := s.operations.insert c.idempotencyKey ⟨fingerprint c, response, now⟩
    audit := s.audit.insert (now, c.idempotencyKey) c.idempotencyKey })

variable [DecidableEq δ]

def transact (fingerprint : Command → δ) (s : Storage δ) (c : Command) (now : ℕ) (mode : FleetMode) :
    Checked (Response × Storage δ) :=
  match s.operations.lookup c.idempotencyKey with
  | some previous =>
    if previous.fingerprint = fingerprint c then .ok (previous.response, s)
    else .error { code := .idempotencyConflict, status := 409 }
  | none => applyCommand fingerprint s (s.registryMeta.getD (emptyMeta now)) c now mode

/-- A posted command with what it meets: the environment's mode and the clock. -/
structure Request where
  command : Command
  mode : Option JsString
  now : ℕ
  deriving DecidableEq

def handle (fingerprint : Command → δ) (s : Storage δ) (r : Request) : Checked (Response × Storage δ) := do
  let mode ← modeOf r.mode
  let c ← parseCommand r.command
  transact fingerprint s c r.now mode

/-- `FleetRegistryDurableObject.fetch`: a transaction that throws leaves the storage as it was. -/
def fetch (fingerprint : Command → δ) (s : Storage δ) (r : Request) : Checked Response × Storage δ :=
  match handle fingerprint s r with
  | .ok (response, s') => (.ok response, s')
  | .error e => (.error e, s)

end OneMail.Fleet
