import OneMail.Fleet.Contracts

/-! Where a new mailbox goes.

    `updateMetricSeries` counts consecutive valid samples of an account, and `choosePlacement` picks, among
    the healthy shards of accounts with three of them, one within the affinity window of the best
    score. A placement names a shard of the configuration and that shard's account. -/

namespace OneMail.Fleet

open KeyValue (Map)

def metricMaxAgeMs : ℕ := 15 * 60 * 1000
def metricSampleIntervalMs : ℕ := 5 * 60 * 1000
def emptyBudget : ResourceBudget := ⟨0, 0, 0, 0⟩

/-! ### Samples -/

def validSample (current : MetricSnapshot) (now : ℕ) : Bool :=
  current.confidence = .authoritative && current.source ≠ .applicationMeta &&
    current.utcDate = utcDate now && utcDate current.observedAt = current.utcDate &&
    current.observedAt ≤ now && now - current.observedAt ≤ metricMaxAgeMs

/-- The sample is behind the last accepted one in time or in a cumulative counter. -/
def regresses (before current : MetricSnapshot) : Bool :=
  current.observedAt < before.observedAt || current.rowsRead < before.rowsRead ||
    current.rowsWritten < before.rowsWritten || current.workerRequests < before.workerRequests

def acceptedBaseline (previous : Option MetricSeries) : Option MetricReport :=
  previous.bind fun p =>
    p.baseline.orElse fun _ => if 0 < p.consecutiveValidSamples then some p.report else none

/-- Only adjacent UTC five-minute buckets bootstrap eligibility. -/
def updateMetricSeries (previous : Option MetricSeries) (report : MetricReport) (now : ℕ) :
    MetricSeries :=
  let current := report.snapshot
  if validSample current now then
    match acceptedBaseline previous with
    | none => ⟨report, 1, some report⟩
    | some baseline =>
      let before := baseline.snapshot
      if before.utcDate ≠ current.utcDate then ⟨report, 1, some report⟩
      else if regresses before current then ⟨report, 0, some baseline⟩
      else
        let bucket := current.observedAt / metricSampleIntervalMs
        let previousBucket := before.observedAt / metricSampleIntervalMs
        let previousCount := (previous.map (·.consecutiveValidSamples)).getD 0
        let consecutive :=
          if bucket = previousBucket ∧ 0 < previousCount then previousCount
          else if bucket = previousBucket + 1 ∧ 0 < previousCount then min (previousCount + 1) 3
          else 1
        ⟨report, consecutive, some report⟩
  else ⟨report, 0, acceptedBaseline previous⟩

/-! ### Scores -/

/-- A utilisation `used / limit`, kept as two integers. -/
structure Score where
  used : ℕ
  limit : ℕ
  deriving DecidableEq

def compareScores (a b : Score) : Ordering := compare (a.used * b.limit) (b.used * a.limit)

def maximumScore (values : List Score) : Score :=
  values.foldl (fun maximum score => if compareScores score maximum = .gt then score else maximum) ⟨0, 1⟩

def withinAffinityWindow (score best : Score) : Bool :=
  20 * ((score.used * best.limit : ℤ) - best.used * score.limit) ≤ (score.limit * best.limit : ℤ)

structure Candidate where
  shardId : Id
  accountKey : Id
  score : Score
  affinity : Bool
  deriving DecidableEq

/-! ### The choice -/

structure PlacementInput where
  config : FleetConfig
  metrics : Map Id MetricSeries
  accountReservations : Map Id ResourceBudget
  shardReservedBytes : Map Id ℕ
  affinityShards : List Id
  now : ℕ

/-- The account may take the shard's mailbox as far as the configuration says. -/
def eligibleAccount (input : PlacementInput) (shard : Shard) : Option CloudAccount :=
  (input.config.accounts.find? (·.accountKey = shard.accountKey)).filter fun account =>
    account.enabled && shard.shardId ≠ input.config.primaryShardId && shard.state = .healthy &&
      shard.schemaVersion = input.config.requiredSchemaVersion &&
      shard.protocolVersion = input.config.requiredProtocolVersion

/-- The account's series and the shard's measured size, when they are fresh enough to be trusted. -/
def freshMetrics (input : PlacementInput) (account : CloudAccount) (shard : Shard) :
    Option (MetricSeries × ℕ) := do
  let series ← input.metrics.lookup account.accountKey
  let snapshot := series.report.snapshot
  let size ← snapshot.shardSizes.lookup shard.shardId
  if 3 ≤ series.consecutiveValidSamples && validSample snapshot input.now then some (series, size)
  else none

def utilisation (input : PlacementInput) (account : CloudAccount) (shard : Shard)
    (series : MetricSeries) (size : ℕ) : Checked Score := do
  let reserved := (input.accountReservations.lookup account.accountKey).getD emptyBudget
  let demand := input.config.allocationBudget
  let read ← safeAdd [series.report.projectedRowsRead, reserved.reservedRead, demand.reservedRead]
  let written ← safeAdd [series.report.projectedRowsWritten, reserved.reservedWrite, demand.reservedWrite]
  let requests ← safeAdd [series.report.projectedWorkerRequests, reserved.reservedWorkerRequests,
    demand.reservedWorkerRequests]
  let bytes ← safeAdd [size, (input.shardReservedBytes.lookup shard.shardId).getD 0, demand.reservedBytes]
  return maximumScore [⟨read, account.dailyReadLimit⟩, ⟨written, account.dailyWriteLimit⟩,
    ⟨requests, account.workerRequestLimit⟩, ⟨bytes, shard.storageLimitBytes⟩]

/-- What the scan over the shards has found so far. -/
structure Scan where
  candidates : List Candidate
  best : Option Candidate
  stale : Bool

def scanShard (input : PlacementInput) (scan : Scan) (shard : Shard) : Checked Scan :=
  match eligibleAccount input shard with
  | none => .ok scan
  | some account =>
    match freshMetrics input account shard with
    | none => .ok { scan with stale := true }
    | some (series, size) => do
      let score ← utilisation input account shard series size
      if score.limit * 7 ≤ score.used * 10 then return scan
      let candidate := ⟨shard.shardId, account.accountKey, score, shard.shardId ∈ input.affinityShards⟩
      let better : Bool := match scan.best with
        | none => true
        | some best => compareScores score best.score = .lt
      return ⟨scan.candidates ++ [candidate], if better then some candidate else scan.best, scan.stale⟩

/-- The candidate replaces the selected one. -/
def prefers (candidate selected : Candidate) : Bool :=
  (candidate.affinity && !selected.affinity) ||
    candidate.affinity = selected.affinity &&
      (compareScores candidate.score selected.score = .lt ||
        compareScores candidate.score selected.score = .eq && candidate.shardId < selected.shardId)

def select (best : Candidate) (candidates : List Candidate) : Option Candidate :=
  candidates.foldl (fun selected candidate =>
    if withinAffinityWindow candidate.score best.score then
      match selected with
      | none => some candidate
      | some s => if prefers candidate s then some candidate else some s
    else selected) none

inductive PlacementDecision where
  | placed (shardId accountKey : Id) (scorePpm : ℕ)
  | noCapacity
  | staleMetrics
  deriving DecidableEq

/-- `none` is the read of `selected!` when nothing was selected: the scan cannot end so. -/
def choosePlacement (input : PlacementInput) : Checked (Option PlacementDecision) := do
  let scan ← input.config.shards.foldlM (scanShard input) ⟨[], none, false⟩
  match scan.best with
  | none => return some (if scan.stale then .staleMetrics else .noCapacity)
  | some best =>
    return (select best scan.candidates).map fun winner =>
      .placed winner.shardId winner.accountKey
        ((winner.score.used * 1000000 + winner.score.limit - 1) / winner.score.limit)

/-! ### A placement names a shard and its account -/

/-- The candidate is a shard of the configuration, under its own account. -/
def Candidate.Of (config : FleetConfig) (c : Candidate) : Prop :=
  ∃ shard ∈ config.shards, shard.shardId = c.shardId ∧ shard.accountKey = c.accountKey

def Scan.Of (config : FleetConfig) (scan : Scan) : Prop := ∀ c ∈ scan.candidates, c.Of config

variable {input : PlacementInput} {scan scan' : Scan} {shard : Shard}

theorem eligibleAccount_key {account : CloudAccount} (h : eligibleAccount input shard = some account) :
    account.accountKey = shard.accountKey := by
  rw [eligibleAccount, Option.filter_eq_some_iff] at h
  simpa using List.find?_some h.1

theorem scanShard_of (hshard : shard ∈ input.config.shards) (h : scan.Of input.config)
    (hscan : scanShard input scan shard = .ok scan') : scan'.Of input.config := by
  rw [scanShard] at hscan
  split at hscan
  · cases hscan
    exact h
  · rename_i account haccount
    split at hscan
    · cases hscan
      exact h
    · obtain ⟨score, -, hscan⟩ := bind_ok.mp hscan
      split at hscan
      · cases hscan
        exact h
      · cases hscan
        intro c hc
        rcases List.mem_append.mp hc with hc | hc
        · exact h c hc
        · obtain rfl := List.mem_singleton.mp hc
          exact ⟨shard, hshard, rfl, (eligibleAccount_key haccount).symm⟩

theorem scanShards_of : ∀ {shards : List Shard} {scan scan' : Scan}, shards ⊆ input.config.shards →
    scan.Of input.config → shards.foldlM (scanShard input) scan = .ok scan' → scan'.Of input.config
  | [], _, _, _, h, hscan => by
    cases hscan
    exact h
  | shard :: shards, scan, scan', hsub, h, hscan => by
    rw [List.foldlM_cons] at hscan
    obtain ⟨scan₁, hscan₁, hscan⟩ := bind_ok.mp hscan
    exact scanShards_of (fun s hs => hsub (List.mem_cons_of_mem _ hs))
      (scanShard_of (hsub List.mem_cons_self) h hscan₁) hscan

theorem select_mem {best winner : Candidate} : ∀ {candidates : List Candidate},
    select best candidates = some winner → winner ∈ candidates := by
  intro candidates
  induction candidates using List.reverseRecOn with
  | nil => exact fun h => by cases h
  | append_singleton candidates candidate ih =>
    intro h
    rw [select, List.foldl_append, List.foldl_cons, List.foldl_nil, ← select] at h
    have hsplit : winner = candidate ∨ select best candidates = some winner := by
      split at h
      · split at h
        · exact .inl (Option.some.inj h).symm
        · rename_i s hs
          split at h
          · exact .inl (Option.some.inj h).symm
          · exact .inr (hs.trans h)
      · exact .inr h
    rcases hsplit with rfl | h
    · exact List.mem_append_right _ List.mem_cons_self
    · exact List.mem_append_left _ (ih h)

theorem choosePlacement_placed {id account : Id} {ppm : ℕ}
    (h : choosePlacement input = .ok (some (.placed id account ppm))) :
    ∃ shard ∈ input.config.shards, shard.shardId = id ∧ shard.accountKey = account := by
  obtain ⟨scan, hscan, h⟩ := bind_ok.mp h
  have hof := scanShards_of (List.Subset.refl _) (fun c hc => by cases hc) hscan
  split at h
  · split at h <;> cases h
  · rename_i best hbest
    obtain ⟨winner, hwinner, hplaced⟩ := Option.map_eq_some_iff.mp (Except.ok.inj h)
    cases hplaced
    exact hof winner (select_mem hwinner)

end OneMail.Fleet
