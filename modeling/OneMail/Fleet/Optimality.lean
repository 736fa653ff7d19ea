import Mathlib
import OneMail.Fleet.Placement
import OneMail.Lib.Selection

/-! The placement is the best one.

    Over the rationals the utilisation of a shard is the greatest of four quotients, and the shards near the best one
    are ranked by affinity, utilisation and id. The cross-multiplied comparisons are the order of these quotients
    (`compareScores_lt`), so the scan keeps the least utilisation and the selection the least rank. -/

namespace OneMail.Fleet

open KeyValue (Map)

/-! ### What is asked -/

/-- The checks of `fleetConfig` on the limits. -/
def positiveLimits (c : FleetConfig) : Bool :=
  c.accounts.all (fun a => 0 < a.dailyReadLimit && 0 < a.dailyWriteLimit && 0 < a.workerRequestLimit) &&
    c.shards.all fun s => 0 < s.storageLimitBytes

def Score.ratio (s : Score) : ℚ := s.used / s.limit

/-- The uses of the four resources with the new demand: reads, writes and requests of the account, and bytes of the
    shard. -/
def uses (input : PlacementInput) (account : CloudAccount) (shard : Shard) (series : MetricSeries) (size : ℕ) :
    List Score :=
  let reserved := (input.accountReservations.lookup account.accountKey).getD emptyBudget
  let demand := input.config.allocationBudget
  [⟨series.report.projectedRowsRead + reserved.reservedRead + demand.reservedRead, account.dailyReadLimit⟩,
    ⟨series.report.projectedRowsWritten + reserved.reservedWrite + demand.reservedWrite, account.dailyWriteLimit⟩,
    ⟨series.report.projectedWorkerRequests + reserved.reservedWorkerRequests + demand.reservedWorkerRequests,
      account.workerRequestLimit⟩,
    ⟨size + (input.shardReservedBytes.lookup shard.shardId).getD 0 + demand.reservedBytes, shard.storageLimitBytes⟩]

/-- Three samples, the last of them authoritative, of today and fresh, with a size for the shard. -/
structure Measured (input : PlacementInput) (account : CloudAccount) (shard : Shard) (series : MetricSeries) (size : ℕ) :
    Prop where
  reported : input.metrics.lookup account.accountKey = some series
  sized : series.report.snapshot.shardSizes.lookup shard.shardId = some size
  samples : 3 ≤ series.consecutiveValidSamples
  valid : validSample series.report.snapshot input.now = true

/-- The shard may take the mailbox, with these uses. -/
structure Eligible (input : PlacementInput) (shard : Shard) (used : List Score) : Prop where
  mem : shard ∈ input.config.shards
  healthy : shard.state = .healthy
  not_primary : shard.shardId ≠ input.config.primaryShardId
  schema : shard.schemaVersion = input.config.requiredSchemaVersion
  protocol : shard.protocolVersion = input.config.requiredProtocolVersion
  measured : ∃ account ∈ input.config.accounts, account.accountKey = shard.accountKey ∧ account.enabled = true ∧
    ∃ series size, Measured input account shard series size ∧ used = uses input account shard series size
  headroom : ∀ use ∈ used, use.ratio < 7 / 10

def maxUtilisation (used : List Score) : ℚ := used.foldl (fun u use => max u use.ratio) 0

/-- Affinity first, then utilisation, then the id of the shard. -/
def rank (input : PlacementInput) (shard : Shard) (used : List Score) : Bool ×ₗ ℚ ×ₗ Id :=
  toLex (decide (shard.shardId ∉ input.affinityShards), toLex (maxUtilisation used, shard.shardId))

/-- Eligible, and within five percentage points of every other, hence of the best one. -/
def InWindow (input : PlacementInput) (shard : Shard) (used : List Score) : Prop :=
  Eligible input shard used ∧ ∀ other used', Eligible input other used' → maxUtilisation used ≤ maxUtilisation used' + 1 / 20

/-! ### Scores -/

variable {a b : Score}

theorem compareScores_lt (ha : 0 < a.limit) (hb : 0 < b.limit) : compareScores a b = .lt ↔ a.ratio < b.ratio := by
  have ha' : (0 : ℚ) < a.limit := by exact_mod_cast ha
  have hb' : (0 : ℚ) < b.limit := by exact_mod_cast hb
  rw [compareScores, compare_lt_iff_lt, Score.ratio, Score.ratio, div_lt_div_iff₀ ha' hb']
  exact_mod_cast Iff.rfl

theorem compareScores_gt (ha : 0 < a.limit) (hb : 0 < b.limit) : compareScores a b = .gt ↔ b.ratio < a.ratio := by
  have ha' : (0 : ℚ) < a.limit := by exact_mod_cast ha
  have hb' : (0 : ℚ) < b.limit := by exact_mod_cast hb
  rw [compareScores, compare_gt_iff_gt, Score.ratio, Score.ratio, div_lt_div_iff₀ hb' ha']
  exact_mod_cast Iff.rfl

theorem compareScores_eq (ha : 0 < a.limit) (hb : 0 < b.limit) : compareScores a b = .eq ↔ a.ratio = b.ratio := by
  have ha' : (a.limit : ℚ) ≠ 0 := by exact_mod_cast ha.ne'
  have hb' : (b.limit : ℚ) ≠ 0 := by exact_mod_cast hb.ne'
  rw [compareScores, compare_eq_iff_eq, Score.ratio, Score.ratio, div_eq_div_iff ha' hb']
  exact_mod_cast Iff.rfl

theorem withinAffinityWindow_iff (ha : 0 < a.limit) (hb : 0 < b.limit) :
    withinAffinityWindow a b = true ↔ a.ratio ≤ b.ratio + 1 / 20 := by
  have ha' : (0 : ℚ) < a.limit := by exact_mod_cast ha
  have hb' : (0 : ℚ) < b.limit := by exact_mod_cast hb
  have hsum : b.ratio + 1 / 20 = (20 * b.used + b.limit) / (20 * b.limit) := by
    rw [Score.ratio]
    field_simp
  rw [withinAffinityWindow, decide_eq_true_iff, hsum, Score.ratio, div_le_div_iff₀ ha' (by positivity)]
  constructor <;> intro h
  · have h' : (20 : ℚ) * (a.used * b.limit - b.used * a.limit) ≤ a.limit * b.limit := by exact_mod_cast h
    linarith
  · have h' : (20 : ℚ) * (a.used * b.limit - b.used * a.limit) ≤ a.limit * b.limit := by linarith
    exact_mod_cast h'

theorem headroom_iff (ha : 0 < a.limit) : ¬ a.limit * 7 ≤ a.used * 10 ↔ a.ratio < 7 / 10 := by
  have ha' : (0 : ℚ) < a.limit := by exact_mod_cast ha
  rw [not_le, Score.ratio, div_lt_div_iff₀ ha' (by norm_num), mul_comm 7 (a.limit : ℚ)]
  exact_mod_cast Iff.rfl

/-- The greatest of the quotients is the quotient of the greatest. -/
theorem foldl_maximum : ∀ (l : List Score) {m : Score}, 0 < m.limit → (∀ s ∈ l, 0 < s.limit) →
    0 < (l.foldl (fun maximum score => if compareScores score maximum = .gt then score else maximum) m).limit ∧
      (l.foldl (fun maximum score => if compareScores score maximum = .gt then score else maximum) m).ratio =
        l.foldl (fun u use => max u use.ratio) m.ratio
  | [], _, hm, _ => ⟨hm, rfl⟩
  | s :: l, m, hm, hl => by
    have hs := hl s List.mem_cons_self
    have hrest := fun s' hs' => hl s' (List.mem_cons_of_mem _ hs')
    rw [List.foldl_cons, List.foldl_cons]
    by_cases hgt : compareScores s m = .gt
    · rw [if_pos hgt, max_eq_right ((compareScores_gt hs hm).mp hgt).le]
      exact foldl_maximum l hs hrest
    · rw [if_neg hgt, max_eq_left (not_lt.mp fun h => hgt ((compareScores_gt hs hm).mpr h))]
      exact foldl_maximum l hm hrest

theorem maximumScore_ratio {l : List Score} (h : ∀ s ∈ l, 0 < s.limit) :
    0 < (maximumScore l).limit ∧ (maximumScore l).ratio = maxUtilisation l := by
  have hmax := foldl_maximum l (m := ⟨0, 1⟩) Nat.one_pos h
  have hzero : Score.ratio ⟨0, 1⟩ = 0 := by simp [Score.ratio]
  rw [hzero] at hmax
  exact hmax

theorem foldl_max_lt : ∀ (l : List Score) {u t : ℚ},
    l.foldl (fun u use => max u use.ratio) u < t ↔ u < t ∧ ∀ use ∈ l, use.ratio < t
  | [], _, _ => by simp
  | s :: l, u, t => by
    rw [List.foldl_cons, foldl_max_lt l, max_lt_iff, List.forall_mem_cons, and_assoc]

theorem maxUtilisation_lt {l : List Score} {t : ℚ} (ht : 0 < t) : maxUtilisation l < t ↔ ∀ use ∈ l, use.ratio < t := by
  rw [maxUtilisation, foldl_max_lt]
  exact and_iff_right ht

/-! ### One shard -/

variable {input : PlacementInput} {scan scan' : Scan} {shard : Shard} {account : CloudAccount} {series : MetricSeries}
  {size : ℕ} {c : Candidate}

theorem safeAdd_ok {values : List ℕ} {n : ℕ} (h : safeAdd values = .ok n) : n = values.sum := by
  have hfold : ∀ (values : List ℕ) {sum n : ℕ}, values.foldlM (fun sum value =>
      if value ≤ maxSafeInteger ∧ sum ≤ maxSafeInteger - value then (.ok (sum + value) : Checked ℕ)
      else .error { code := .counterOverflow, status := 409 }) sum = .ok n → n = sum + values.sum := by
    intro values
    induction values with
    | nil =>
      intro sum n h
      cases h
      rfl
    | cons value values ih =>
      intro sum n h
      rw [List.foldlM_cons] at h
      obtain ⟨sum', hsum', h⟩ := bind_ok.mp h
      split at hsum' <;> cases hsum'
      rw [ih h, List.sum_cons, add_assoc]
  rw [hfold values h, zero_add]

/-- No counter overflows: the score is the greatest of the four uses. -/
theorem utilisation_ok {score : Score} (h : utilisation input account shard series size = .ok score) :
    score = maximumScore (uses input account shard series size) := by
  simp only [utilisation, bind_ok] at h
  obtain ⟨read, hread, written, hwritten, requests, hrequests, bytes, hbytes, h⟩ := h
  obtain rfl := safeAdd_ok hread
  obtain rfl := safeAdd_ok hwritten
  obtain rfl := safeAdd_ok hrequests
  obtain rfl := safeAdd_ok hbytes
  cases h
  simp [uses, add_assoc]

/-- The counters of the shard do not overflow, if the scan comes to add them up. -/
def Counted (input : PlacementInput) (shard : Shard) : Prop :=
  ∀ account series size, eligibleAccount input shard = some account → freshMetrics input account shard = some (series, size) →
    ∃ score, utilisation input account shard series size = .ok score

/-- What the scan makes of a shard. -/
def candidateOf (input : PlacementInput) (shard : Shard) : Option Candidate :=
  (eligibleAccount input shard).bind fun account =>
    (freshMetrics input account shard).bind fun (series, size) =>
      let score := maximumScore (uses input account shard series size)
      if score.limit * 7 ≤ score.used * 10 then none
      else some ⟨shard.shardId, account.accountKey, score, shard.shardId ∈ input.affinityShards⟩

def isStale (input : PlacementInput) (shard : Shard) : Bool :=
  (eligibleAccount input shard).any fun account => (freshMetrics input account shard).isNone

/-- The scan with a candidate more. -/
def Scan.add (scan : Scan) (c : Option Candidate) (stale : Bool) : Scan where
  candidates := scan.candidates ++ c.toList
  best := c.elim scan.best fun c => List.argAux (fun c best => compareScores c.score best.score = .lt) scan.best c
  stale := scan.stale || stale

theorem add_some (scan : Scan) (c : Candidate) (stale : Bool) : scan.add (some c) stale =
    ⟨scan.candidates ++ [c],
      if (match scan.best with
        | none => true
        | some best => compareScores c.score best.score = .lt : Bool) then some c else scan.best,
      scan.stale || stale⟩ := by
  obtain ⟨candidates, best, stale'⟩ := scan
  cases best with
  | none => rfl
  | some best => simp [Scan.add, List.argAux]

theorem scanShard_iff : scanShard input scan shard = .ok scan' ↔
    Counted input shard ∧ scan' = scan.add (candidateOf input shard) (isStale input shard) := by
  unfold scanShard candidateOf isStale
  cases haccount : eligibleAccount input shard with
  | none =>
    have hcounted : Counted input shard := fun account series size h => by rw [haccount] at h; cases h
    have hadd : scan.add none false = scan := by simp [Scan.add]
    rw [Option.bind_none, Option.any_none, hadd, and_iff_right hcounted]
    exact ⟨fun h => (Except.ok.inj h).symm, fun h => congrArg _ h.symm⟩
  | some account =>
    cases hfresh : freshMetrics input account shard with
    | none =>
      have hcounted : Counted input shard := fun account' series size h h' => by
        rw [haccount] at h
        cases h
        rw [hfresh] at h'
        cases h'
      have hadd : scan.add none true = { scan with stale := true } := by simp [Scan.add]
      simp only [Option.bind_some, Option.any_some, hfresh, Option.bind_none, Option.isNone_none, hadd,
        and_iff_right hcounted]
      exact ⟨fun h => (Except.ok.inj h).symm, fun h => congrArg _ h.symm⟩
    | some fresh =>
      obtain ⟨series, size⟩ := fresh
      have hcounted : Counted input shard ↔ ∃ score, utilisation input account shard series size = .ok score := by
        refine ⟨fun h => h account series size haccount hfresh, fun h account' series' size' h₁ h₂ => ?_⟩
        rw [haccount] at h₁
        cases h₁
        rw [hfresh] at h₂
        cases h₂
        exact h
      rw [hcounted]
      simp only [Option.bind_some, Option.any_some, hfresh, Option.isNone_some]
      constructor
      · intro h
        obtain ⟨score, hscore, h⟩ := bind_ok.mp h
        obtain rfl := utilisation_ok hscore
        refine ⟨⟨_, hscore⟩, ?_⟩
        split at h
        · rename_i hfull
          cases h
          simp [Scan.add, hfull]
        · rename_i hroom
          cases h
          rw [if_neg hroom, add_some, Bool.or_false]
          all_goals rfl
      · rintro ⟨⟨score, hscore⟩, rfl⟩
        obtain rfl := utilisation_ok hscore
        refine bind_ok.mpr ⟨_, hscore, ?_⟩
        split
        · simp [Scan.add, pure, Except.pure]
        · rw [add_some, Bool.or_false]
          rfl

/-- The scan over all shards. -/
theorem scanShards_iff : ∀ (shards : List Shard) {scan scan' : Scan}, shards.foldlM (scanShard input) scan = .ok scan' ↔
    (∀ shard ∈ shards, Counted input shard) ∧
      scan' = shards.foldl (fun scan shard => scan.add (candidateOf input shard) (isStale input shard)) scan
  | [], scan, scan' => by simp [pure, Except.pure, eq_comm]
  | shard :: shards, scan, scan' => by
    rw [List.foldlM_cons, bind_ok, List.forall_mem_cons, List.foldl_cons]
    constructor
    · rintro ⟨scan₁, h₁, h⟩
      obtain ⟨hshard, rfl⟩ := scanShard_iff.mp h₁
      obtain ⟨hshards, rfl⟩ := (scanShards_iff shards).mp h
      exact ⟨⟨hshard, hshards⟩, rfl⟩
    · rintro ⟨⟨hshard, hshards⟩, rfl⟩
      exact ⟨_, scanShard_iff.mpr ⟨hshard, rfl⟩, (scanShards_iff shards).mpr ⟨hshards, rfl⟩⟩

theorem foldl_add : ∀ (shards : List Shard) (scan : Scan),
    shards.foldl (fun scan shard => scan.add (candidateOf input shard) (isStale input shard)) scan =
      ⟨scan.candidates ++ shards.filterMap (candidateOf input),
        (shards.filterMap (candidateOf input)).foldl
          (List.argAux fun c best => compareScores c.score best.score = .lt) scan.best,
        scan.stale || shards.any (isStale input)⟩
  | [], scan => by simp
  | shard :: shards, scan => by
    rw [List.foldl_cons, foldl_add shards]
    cases hc : candidateOf input shard with
    | none => simp [Scan.add, hc, Bool.or_assoc]
    | some c => simp [Scan.add, hc, Bool.or_assoc]

/-! ### The candidates -/

/-- The order in which the selection prefers candidates. -/
def Candidate.key (c : Candidate) : Bool ×ₗ ℚ ×ₗ Id := toLex (!c.affinity, toLex (c.score.ratio, c.shardId))

theorem prefers_iff {s : Candidate} (hc : 0 < c.score.limit) (hs : 0 < s.score.limit) :
    prefers c s = true ↔ c.key < s.key := by
  rw [prefers, Candidate.key, Candidate.key, Prod.Lex.toLex_lt_toLex, Prod.Lex.toLex_lt_toLex]
  simp only [Bool.or_eq_true, Bool.and_eq_true, decide_eq_true_iff, compareScores_lt hc hs, compareScores_eq hc hs]
  cases c.affinity <;> cases s.affinity <;> simp

theorem select_eq {best : Candidate} {candidates : List Candidate} (hbest : 0 < best.score.limit)
    (hlimits : ∀ c ∈ candidates, 0 < c.score.limit) : select best candidates =
      (candidates.filter fun c => c.score.ratio ≤ best.score.ratio + 1 / 20).argmin Candidate.key := by
  have hwindow : candidates.filter (fun c => c.score.ratio ≤ best.score.ratio + 1 / 20) =
      candidates.filter fun c => withinAffinityWindow c.score best.score := by
    refine List.filter_congr fun c hc => ?_
    rw [Bool.eq_iff_iff, decide_eq_true_iff, withinAffinityWindow_iff (hlimits c hc) hbest]
  rw [hwindow, ← Selection.foldl_argAux (r := fun c s => prefers c s = true), List.foldl_filter, select]
  · congr 1
    funext selected c
    cases selected <;> rfl
  · intro c hc s hs
    exact prefers_iff (hlimits c (List.mem_of_mem_filter hc)) (hlimits s (List.mem_of_mem_filter hs))

/-- The configuration tells accounts and shards apart, and its limits are positive. -/
structure Config (c : FleetConfig) : Prop where
  accounts : (c.accounts.map (·.accountKey)).Nodup
  shards : (c.shards.map (·.shardId)).Nodup
  accountLimits : ∀ a ∈ c.accounts, 0 < a.dailyReadLimit ∧ 0 < a.dailyWriteLimit ∧ 0 < a.workerRequestLimit
  shardLimits : ∀ s ∈ c.shards, 0 < s.storageLimitBytes

theorem config_of_valid {config : FleetConfig} (hvalid : fleetConfig config = true)
    (hlimits : positiveLimits config = true) : Config config := by
  simp only [fleetConfig, Bool.and_eq_true, decide_eq_true_eq] at hvalid
  simp only [positiveLimits, Bool.and_eq_true, List.all_eq_true, decide_eq_true_eq, and_assoc] at hlimits
  obtain ⟨⟨⟨⟨⟨⟨⟨⟨⟨⟨⟨⟨⟨⟨⟨⟨⟨⟨-, -⟩, -⟩, -⟩, haccounts⟩, -⟩, hshards⟩, -⟩, -⟩, -⟩, -⟩, -⟩, -⟩, -⟩, -⟩, -⟩, -⟩, -⟩, -⟩ := hvalid
  exact ⟨haccounts, hshards, hlimits.1, hlimits.2⟩

theorem eligibleAccount_iff (hconfig : Config input.config) : eligibleAccount input shard = some account ↔
    account ∈ input.config.accounts ∧ account.accountKey = shard.accountKey ∧ account.enabled = true ∧
      shard.shardId ≠ input.config.primaryShardId ∧ shard.state = .healthy ∧
      shard.schemaVersion = input.config.requiredSchemaVersion ∧
      shard.protocolVersion = input.config.requiredProtocolVersion := by
  rw [eligibleAccount, Option.filter_eq_some_iff]
  simp only [Bool.and_eq_true, decide_eq_true_iff, and_assoc]
  constructor
  · rintro ⟨hfind, hchecks⟩
    exact ⟨List.mem_of_find?_eq_some hfind, by simpa using List.find?_some hfind, hchecks⟩
  · rintro ⟨hmem, hkey, hchecks⟩
    refine ⟨?_, hchecks⟩
    cases hfind : input.config.accounts.find? (·.accountKey = shard.accountKey) with
    | none => exact absurd (decide_eq_true hkey) (List.find?_eq_none.mp hfind account hmem)
    | some account' =>
      have hkey' : account'.accountKey = shard.accountKey := by simpa using List.find?_some hfind
      rw [List.inj_on_of_nodup_map hconfig.accounts (List.mem_of_find?_eq_some hfind) hmem (hkey'.trans hkey.symm)]

theorem freshMetrics_iff : freshMetrics input account shard = some (series, size) ↔
    Measured input account shard series size := by
  simp only [freshMetrics, Option.bind_eq_bind, Option.bind_eq_some_iff]
  constructor
  · rintro ⟨series', hseries, size', hsize, h⟩
    split at h
    · rename_i hchecks
      cases h
      rw [Bool.and_eq_true, decide_eq_true_iff] at hchecks
      exact ⟨hseries, hsize, hchecks.1, hchecks.2⟩
    · cases h
  · intro h
    refine ⟨series, h.reported, size, h.sized, if_pos ?_⟩
    rw [Bool.and_eq_true, decide_eq_true_iff]
    exact ⟨h.samples, h.valid⟩

theorem uses_limit (hconfig : Config input.config) (haccount : account ∈ input.config.accounts)
    (hshard : shard ∈ input.config.shards) (series : MetricSeries) (size : ℕ) : ∀ use ∈ uses input account shard series size, 0 < use.limit := by
  obtain ⟨hread, hwrite, hrequests⟩ := hconfig.accountLimits account haccount
  simp only [uses, List.forall_mem_cons, List.not_mem_nil, false_imp_iff, implies_true, and_true]
  exact ⟨hread, hwrite, hrequests, hconfig.shardLimits shard hshard⟩

/-- The candidate that an eligible shard makes. -/
def candidate (input : PlacementInput) (shard : Shard) (used : List Score) : Candidate :=
  ⟨shard.shardId, shard.accountKey, maximumScore used, shard.shardId ∈ input.affinityShards⟩

variable {used : List Score}

theorem Eligible.limits (h : Eligible input shard used) (hconfig : Config input.config) : ∀ use ∈ used, 0 < use.limit := by
  obtain ⟨account, haccount, -, -, series, size, -, rfl⟩ := h.measured
  exact uses_limit hconfig haccount h.mem series size

/-- The candidates are the eligible shards. -/
theorem candidateOf_iff (hconfig : Config input.config) (hshard : shard ∈ input.config.shards) :
    candidateOf input shard = some c ↔ ∃ used, Eligible input shard used ∧ c = candidate input shard used := by
  constructor
  · intro h
    obtain ⟨account, haccount, h⟩ := Option.bind_eq_some_iff.mp h
    obtain ⟨⟨series, size⟩, hfresh, h⟩ := Option.bind_eq_some_iff.mp h
    obtain ⟨hmem, hkey, henabled, hprimary, hhealthy, hschema, hprotocol⟩ := (eligibleAccount_iff hconfig).mp haccount
    obtain ⟨hpos, hratio⟩ := maximumScore_ratio (uses_limit hconfig hmem hshard series size)
    dsimp only at h
    split at h
    · cases h
    · rename_i hroom
      cases h
      rw [headroom_iff hpos, hratio, maxUtilisation_lt (by norm_num)] at hroom
      exact ⟨_, ⟨hshard, hhealthy, hprimary, hschema, hprotocol, ⟨account, hmem, hkey, henabled, series, size,
        freshMetrics_iff.mp hfresh, rfl⟩, hroom⟩, by rw [candidate, hkey]⟩
  · rintro ⟨used, h, rfl⟩
    obtain ⟨account, hmem, hkey, henabled, series, size, hmeasured, rfl⟩ := h.measured
    obtain ⟨hpos, hratio⟩ := maximumScore_ratio (uses_limit hconfig hmem hshard series size)
    have haccount : eligibleAccount input shard = some account :=
      (eligibleAccount_iff hconfig).mpr ⟨hmem, hkey, henabled, h.not_primary, h.healthy, h.schema, h.protocol⟩
    have hroom : ¬ (maximumScore (uses input account shard series size)).limit * 7 ≤
        (maximumScore (uses input account shard series size)).used * 10 := by
      rw [headroom_iff hpos, hratio, maxUtilisation_lt (by norm_num)]
      exact h.headroom
    rw [candidateOf, haccount, Option.bind_some, freshMetrics_iff.mpr hmeasured, Option.bind_some]
    simp only [if_neg hroom, candidate, hkey]

theorem Eligible.ratio (h : Eligible input shard used) (hconfig : Config input.config) :
    (candidate input shard used).score.ratio = maxUtilisation used :=
  (maximumScore_ratio (h.limits hconfig)).2

theorem Eligible.key (h : Eligible input shard used) (hconfig : Config input.config) :
    (candidate input shard used).key = rank input shard used := by
  rw [Candidate.key, h.ratio hconfig, rank, candidate]
  simp

/-- All candidates of the configuration. -/
def candidates (input : PlacementInput) : List Candidate := input.config.shards.filterMap (candidateOf input)

theorem mem_candidates (hconfig : Config input.config) : c ∈ candidates input ↔
    ∃ shard used, Eligible input shard used ∧ c = candidate input shard used := by
  rw [candidates, List.mem_filterMap]
  constructor
  · rintro ⟨shard, hshard, hc⟩
    exact ⟨shard, (candidateOf_iff hconfig hshard).mp hc⟩
  · rintro ⟨shard, used, h, rfl⟩
    exact ⟨shard, h.mem, (candidateOf_iff hconfig h.mem).mpr ⟨used, h, rfl⟩⟩

theorem candidates_limit (hconfig : Config input.config) (hc : c ∈ candidates input) : 0 < c.score.limit := by
  obtain ⟨shard, used, h, rfl⟩ := (mem_candidates hconfig).mp hc
  exact (maximumScore_ratio (h.limits hconfig)).1

/-- Two candidates of one key are one shard. -/
theorem candidate_key_inj (hconfig : Config input.config) {s : Candidate} (hc : c ∈ candidates input)
    (hs : s ∈ candidates input) (h : c.key = s.key) : c = s := by
  obtain ⟨shard, hshard, hc⟩ := List.mem_filterMap.mp hc
  obtain ⟨shard', hshard', hs⟩ := List.mem_filterMap.mp hs
  obtain ⟨used, -, hcand⟩ := (candidateOf_iff hconfig hshard).mp hc
  obtain ⟨used', -, hcand'⟩ := (candidateOf_iff hconfig hshard').mp hs
  have hid : shard.shardId = shard'.shardId := by
    rw [hcand, hcand'] at h
    exact congrArg (fun k => (ofLex (ofLex k).2).2) h
  obtain rfl := List.inj_on_of_nodup_map hconfig.shards hshard hshard' hid
  exact Option.some.inj (hc.symm.trans hs)

/-! ### The decision -/

/-- The candidate of least rank near the one of least utilisation. -/
def decision (candidates : List Candidate) (stale : Bool) : Option PlacementDecision :=
  match candidates.argmin (·.score.ratio) with
  | none => some (if stale then .staleMetrics else .noCapacity)
  | some best =>
    ((candidates.filter fun c => c.score.ratio ≤ best.score.ratio + 1 / 20).argmin Candidate.key).map fun winner =>
      .placed winner.shardId winner.accountKey
        ((winner.score.used * 1000000 + winner.score.limit - 1) / winner.score.limit)

variable {d : Option PlacementDecision}

theorem choosePlacement_iff (hconfig : Config input.config) : choosePlacement input = .ok d ↔
    (∀ shard ∈ input.config.shards, Counted input shard) ∧
      d = decision (candidates input) (input.config.shards.any (isStale input)) := by
  have hbest : (candidates input).foldl (List.argAux fun c best => compareScores c.score best.score = .lt) none =
      (candidates input).argmin (·.score.ratio) :=
    Selection.foldl_argAux _ fun c hc s hs => compareScores_lt (candidates_limit hconfig hc) (candidates_limit hconfig hs)
  rw [choosePlacement, bind_ok]
  simp only [scanShards_iff, foldl_add, List.nil_append, Bool.false_or, and_assoc, exists_and_left, exists_eq_left]
  refine and_congr_right fun _ => ?_
  rw [← candidates, hbest, decision]
  cases hmin : (candidates input).argmin (·.score.ratio) with
  | none => exact ⟨fun h => (Except.ok.inj h).symm, fun h => congrArg _ h.symm⟩
  | some best =>
    have hselect := select_eq (candidates_limit hconfig (List.argmin_mem hmin)) fun c hc => candidates_limit hconfig hc
    simp only [hselect]
    exact ⟨fun h => (Except.ok.inj h).symm, fun h => congrArg _ h.symm⟩

theorem decision_perm {l l' : List Candidate} (h : l.Perm l') (hinj : ∀ c ∈ l, ∀ s ∈ l, c.key = s.key → c = s)
    (stale : Bool) : decision l stale = decision l' stale := by
  have hmap := Selection.argmin_map_perm (f := fun c : Candidate => c.score.ratio) h
  rw [decision, decision]
  cases hl : l.argmin (·.score.ratio) with
  | none =>
    rw [hl, Option.map_none, eq_comm, Option.map_eq_none_iff] at hmap
    rw [hmap]
  | some best =>
    rw [hl, Option.map_some, eq_comm, Option.map_eq_some_iff] at hmap
    obtain ⟨best', hl', hratio⟩ := hmap
    have hwindow := Selection.argmin_perm (f := Candidate.key)
      (h.filter fun c => c.score.ratio ≤ best.score.ratio + 1 / 20)
      fun c hc s hs => hinj c (List.mem_of_mem_filter hc) s (List.mem_of_mem_filter hs)
    simp only [hl', hratio, hwindow]

/-! ### Another order of the configuration -/

/-- The input with its shards and accounts in another order. -/
def PlacementInput.reorder (input : PlacementInput) (shards : List Shard) (accounts : List CloudAccount) :
    PlacementInput :=
  { input with config := { input.config with shards, accounts } }

variable {shards : List Shard} {accounts : List CloudAccount}

theorem Config.reorder (hconfig : Config input.config) (hshards : shards.Perm input.config.shards)
    (haccounts : accounts.Perm input.config.accounts) : Config (input.reorder shards accounts).config where
  accounts := (haccounts.map _).nodup_iff.mpr hconfig.accounts
  shards := (hshards.map _).nodup_iff.mpr hconfig.shards
  accountLimits := fun a ha => hconfig.accountLimits a (haccounts.mem_iff.mp ha)
  shardLimits := fun s hs => hconfig.shardLimits s (hshards.mem_iff.mp hs)

theorem eligibleAccount_reorder (hconfig : Config input.config) (hshards : shards.Perm input.config.shards)
    (haccounts : accounts.Perm input.config.accounts) (shard : Shard) :
    eligibleAccount (input.reorder shards accounts) shard = eligibleAccount input shard := by
  ext account
  rw [eligibleAccount_iff hconfig, eligibleAccount_iff (hconfig.reorder hshards haccounts)]
  exact and_congr_left fun _ => haccounts.mem_iff

theorem choosePlacement_reorder (hconfig : Config input.config) (hshards : shards.Perm input.config.shards)
    (haccounts : accounts.Perm input.config.accounts) :
    choosePlacement (input.reorder shards accounts) = .ok d ↔ choosePlacement input = .ok d := by
  have haccount := eligibleAccount_reorder hconfig hshards haccounts
  have hcandidate : candidateOf (input.reorder shards accounts) = candidateOf input := by
    funext shard
    rw [candidateOf, candidateOf, haccount]
    rfl
  have hstale : isStale (input.reorder shards accounts) = isStale input := by
    funext shard
    rw [isStale, isStale, haccount]
    rfl
  have hcounted : ∀ shard, Counted (input.reorder shards accounts) shard ↔ Counted input shard := by
    intro shard
    rw [Counted, Counted, haccount]
    exact Iff.rfl
  have hperm : (candidates input).Perm (candidates (input.reorder shards accounts)) := by
    rw [candidates, candidates, hcandidate]
    exact (hshards.filterMap _).symm
  have hany : (input.reorder shards accounts).config.shards.any (isStale input) =
      input.config.shards.any (isStale input) := by
    rw [Bool.eq_iff_iff, List.any_eq_true, List.any_eq_true]
    simp only [PlacementInput.reorder, hshards.mem_iff]
  rw [choosePlacement_iff hconfig, choosePlacement_iff (hconfig.reorder hshards haccounts), hstale, hany,
    decision_perm hperm fun c hc s hs => candidate_key_inj hconfig hc hs]
  have hmem : ∀ shard, shard ∈ (input.reorder shards accounts).config.shards ↔ shard ∈ input.config.shards :=
    fun _ => hshards.mem_iff
  simp only [hcounted, hmem]

/-! ### The best shard -/

theorem decision_some (l : List Candidate) (stale : Bool) : ∃ d, decision l stale = some d := by
  rw [decision]
  cases hmin : l.argmin (·.score.ratio) with
  | none => exact ⟨_, rfl⟩
  | some best =>
    obtain ⟨hbest, -⟩ := Selection.argmin_some hmin
    have hwindow : best ∈ l.filter fun c => c.score.ratio ≤ best.score.ratio + 1 / 20 :=
      List.mem_filter.mpr ⟨hbest, decide_eq_true (by linarith)⟩
    dsimp only
    cases hwinner : (l.filter fun c => c.score.ratio ≤ best.score.ratio + 1 / 20).argmin Candidate.key with
    | none => rw [List.argmin_eq_none.mp hwinner] at hwindow; cases hwindow
    | some winner => exact ⟨_, rfl⟩

theorem mem_window (hconfig : Config input.config) {best : Candidate}
    (hbest : (candidates input).argmin (·.score.ratio) = some best) :
    c ∈ (candidates input).filter (fun c => c.score.ratio ≤ best.score.ratio + 1 / 20) ↔
      ∃ shard used, InWindow input shard used ∧ c = candidate input shard used := by
  obtain ⟨hmem, hleast⟩ := Selection.argmin_some hbest
  rw [List.mem_filter, decide_eq_true_iff, mem_candidates hconfig]
  constructor
  · rintro ⟨⟨shard, used, h, rfl⟩, hnear⟩
    refine ⟨shard, used, ⟨h, fun other used' h' => ?_⟩, rfl⟩
    have hle := hleast _ ((mem_candidates hconfig).mpr ⟨other, used', h', rfl⟩)
    rw [h.ratio hconfig] at hnear
    rw [h'.ratio hconfig] at hle
    linarith
  · rintro ⟨shard, used, h, rfl⟩
    obtain ⟨other, used', h', rfl⟩ := (mem_candidates hconfig).mp hmem
    refine ⟨⟨shard, used, h.1, rfl⟩, ?_⟩
    rw [h.1.ratio hconfig, h'.ratio hconfig]
    exact h.2 other used' h'

theorem decision_placed (hconfig : Config input.config) {stale : Bool} {id key : Id} {ppm : ℕ}
    (h : decision (candidates input) stale = some (.placed id key ppm)) :
    ∃ shard used, InWindow input shard used ∧ shard.shardId = id ∧ shard.accountKey = key ∧
      ∀ other used', InWindow input other used' → rank input shard used ≤ rank input other used' := by
  rw [decision] at h
  cases hmin : (candidates input).argmin (·.score.ratio) with
  | none =>
    rw [hmin] at h
    cases stale <;> cases h
  | some best =>
    rw [hmin] at h
    obtain ⟨winner, hwinner, hplaced⟩ := Option.map_eq_some_iff.mp h
    obtain ⟨hmem, hleast⟩ := Selection.argmin_some hwinner
    obtain ⟨shard, used, hwindow, rfl⟩ := (mem_window hconfig hmin).mp hmem
    cases hplaced
    refine ⟨shard, used, hwindow, rfl, rfl, fun other used' h' => ?_⟩
    rw [← hwindow.1.key hconfig, ← h'.1.key hconfig]
    exact hleast _ ((mem_window hconfig hmin).mpr ⟨other, used', h', rfl⟩)

theorem decision_failure (hconfig : Config input.config) {stale : Bool} :
    (∀ id key ppm, decision (candidates input) stale ≠ some (.placed id key ppm)) ↔
      ∀ shard used, ¬ Eligible input shard used := by
  constructor
  · intro h shard used heligible
    have hmem := (mem_candidates hconfig).mpr ⟨shard, used, heligible, rfl⟩
    obtain ⟨d, hd⟩ := decision_some (candidates input) stale
    rw [decision] at h hd
    cases hmin : (candidates input).argmin (·.score.ratio) with
    | none => rw [List.argmin_eq_none.mp hmin] at hmem; cases hmem
    | some best =>
      simp only [hmin] at h hd
      obtain ⟨winner, hwinner, -⟩ := Option.map_eq_some_iff.mp hd
      exact h _ _ _ (by rw [hwinner]; rfl)
  · intro h id key ppm hplaced
    obtain ⟨shard, used, hwindow, -⟩ := decision_placed hconfig hplaced
    exact h shard used hwindow.1

/-- The shard chosen is eligible and has the least rank near the best one; a failure means that no shard is eligible;
    and the order of shards and accounts does not matter. -/
theorem placement_optimal (hvalid : fleetConfig input.config = true) (hlimits : positiveLimits input.config = true)
    (hcounted : ∀ shard ∈ input.config.shards, Counted input shard) :
    ∃ d, choosePlacement input = .ok (some d) ∧
      (∀ id key ppm, d = .placed id key ppm →
        ∃ shard used, InWindow input shard used ∧ shard.shardId = id ∧ shard.accountKey = key ∧
          ∀ other used', InWindow input other used' → rank input shard used ≤ rank input other used') ∧
      ((∀ id key ppm, d ≠ .placed id key ppm) ↔ ∀ shard used, ¬ Eligible input shard used) ∧
      ∀ shards accounts, shards.Perm input.config.shards → accounts.Perm input.config.accounts →
        choosePlacement (input.reorder shards accounts) = .ok (some d) := by
  have hconfig := config_of_valid hvalid hlimits
  obtain ⟨d, hd⟩ := decision_some (candidates input) (input.config.shards.any (isStale input))
  have hchoose : choosePlacement input = .ok (some d) := (choosePlacement_iff hconfig).mpr ⟨hcounted, hd.symm⟩
  refine ⟨d, hchoose, fun id key ppm hplaced => decision_placed hconfig (hplaced ▸ hd), ?_,
    fun shards accounts hshards haccounts => (choosePlacement_reorder hconfig hshards haccounts).mpr hchoose⟩
  rw [← decision_failure hconfig, hd]
  simp only [ne_eq, Option.some.injEq]

/-- Two shards of one account, the second one preferred for affinity at five percentage points more. -/
def inputDemo : PlacementInput where
  config :=
    { accounts := [⟨js "main", js "provider", true, js "token", 100, 100, 100, none⟩]
      shards := [⟨js "primary", js "main", js "https://a.example", .healthy, 1, 1, 100, 0, js "db", js "token"⟩,
        ⟨js "b", js "main", js "https://b.example", .healthy, 1, 1, 100, 0, js "db-b", js "token"⟩,
        ⟨js "c", js "main", js "https://c.example", .healthy, 1, 1, 100, 0, js "db-c", js "token"⟩]
      primaryShardId := js "primary"
      requiredSchemaVersion := 1
      requiredProtocolVersion := 1
      allocationBudget := ⟨1, 1, 1, 1⟩
      maxMailboxes := 10 }
  metrics := AList.singleton (js "main") ⟨⟨⟨js "main", 0, 0, .cloudflareGraphql, 0, 0, 0, .authoritative,
    (AList.singleton (js "b") 10).insert (js "c") 15⟩, 0, 0, 0⟩, 3, none⟩
  accountReservations := ∅
  shardReservedBytes := ∅
  affinityShards := [js "c"]
  now := 0

theorem inputDemo_choice : choosePlacement inputDemo = .ok (some (.placed (js "c") (js "main") 160000)) := by
  decide +kernel

theorem placement_optimal_demo :
    choosePlacement (inputDemo.reorder inputDemo.config.shards.reverse inputDemo.config.accounts.reverse) =
      .ok (some (.placed (js "c") (js "main") 160000)) := by
  have hvalid : fleetConfig inputDemo.config = true := by decide +kernel
  have hlimits : positiveLimits inputDemo.config = true := by decide +kernel
  obtain ⟨hcounted, -⟩ := (choosePlacement_iff (config_of_valid hvalid hlimits)).mp inputDemo_choice
  obtain ⟨d, hd, -, -, hreorder⟩ := placement_optimal hvalid hlimits hcounted
  rw [inputDemo_choice] at hd
  cases hd
  exact hreorder _ _ (List.reverse_perm _) (List.reverse_perm _)

end OneMail.Fleet
