import Mathlib
import OneMail.Lib.Fallible
import OneMail.Lib.Interleave
import OneMail.Lib.Retention

/-! The history of fleet metrics, and what makes an account eligible.

    `recordHistory` stores one sample for each account, UTC date and five-minute bucket, in one
    transaction. A sample is eligible after three valid ones in buckets that follow each other; a later
    sample of a bucket replaces the row, and the stored counters never fall below those they replace.

    Dates are counted in days, `observed_at` in seconds and `now` in microseconds of the Unix clock. -/

namespace OneMail.Metrics

def MAX_SAFE_INTEGER : ℤ := 9007199254740991

def MAX_ACCOUNTS : ℕ := 12

def MAX_DATABASES : ℕ := 10

def SAMPLE_SECONDS : ℕ := 300

def FRESH_SECONDS : ℤ := 900

def HISTORY_DAYS : ℕ := 8

inductive Confidence
  | authoritative | partially | stale
  deriving DecidableEq, Repr

inductive Counter
  | rowsRead | rowsWritten | workerRequests
  deriving DecidableEq, Repr

def Counter.all : List Counter := [.rowsRead, .rowsWritten, .workerRequests]

theorem Counter.mem_all (c : Counter) : c ∈ Counter.all := by cases c <;> decide

structure MetricSnapshot where
  accountKey : String
  utcDate : ℤ
  observedAt : ℤ
  counters : Counter → Option ℤ
  confidence : Confidence
  shardSizes : List (String × ℤ)
  issues : List String
  consecutiveValidSamples : ℕ
  allocationEligible : Bool

/-- The code of a `MetricsError`. -/
inductive MetricsError
  | invalidSnapshotCount | privateHistoryDirectoryRequired | historyOpenFailed | historyWriteFailed
  | invalidCounter | invalidDatabaseCount | invalidShardId | invalidFileSize | outOfOrderSample
  deriving DecidableEq, Repr

/-- `_integer` -/
def integer (value : ℤ) (code : MetricsError) : Except MetricsError Unit :=
  if value < 0 ∨ MAX_SAFE_INTEGER < value then .error code else .ok ()

/-- `[A-Za-z0-9_-]{1,64}\Z` -/
def isKey (value : String) : Bool :=
  1 ≤ value.length && value.length ≤ 64 &&
    value.toList.all fun c => c.isAlphanum || c = '_' || c = '-'

/-- `_string(shard_id, _KEY, "shard_id")` -/
def shardId (value : String) : Except MetricsError Unit :=
  if isKey value then .ok () else .error .invalidShardId

/-- The UTC date of an instant in seconds. -/
def dateOf (observed : ℤ) : ℤ := observed / 86400

/-- The UTC date of `now`. -/
def today (now : ℤ) : ℤ := dateOf (now / 1000000)

/-- The count of valid samples in buckets that follow each other. -/
def streak (valid : Bool) (bucket : ℤ) : ℕ → List (ℤ × Bool) → ℕ
  | consecutive, [] => consecutive
  | consecutive, (oldBucket, oldValid) :: previous =>
    if !valid || !oldValid || oldBucket ≠ bucket - consecutive || 3 ≤ consecutive then consecutive
    else streak valid bucket (consecutive + 1) previous

def isStale (snapshot : MetricSnapshot) (now : ℤ) : Bool :=
  snapshot.utcDate ≠ today now || dateOf snapshot.observedAt ≠ snapshot.utcDate ||
    !(0 ≤ now - snapshot.observedAt * 1000000 && now - snapshot.observedAt * 1000000 ≤ FRESH_SECONDS * 1000000)

def isMissing (snapshot : MetricSnapshot) : Bool :=
  Counter.all.any (fun c => (snapshot.counters c).isNone) || snapshot.shardSizes.isEmpty

/-- `current is not None and old is not None and current < old` -/
def regressed : Option ℤ → Option ℤ → Bool
  | some current, some old => current < old
  | _, _ => false

/-- The issues of the snapshot, and those that its recording finds. -/
def issuesOf (snapshot : MetricSnapshot) (now : ℤ) (highwater : Counter → Option ℤ) : List String :=
  snapshot.issues ++ (if isStale snapshot now then ["STALE_METRICS"] else []) ++
    (if isMissing snapshot then ["MISSING_METRICS"] else []) ++
    (if Counter.all.any fun c => regressed (snapshot.counters c) (highwater c) then ["COUNTER_REGRESSION"] else [])

/-- `_evaluate` -/
def evaluate (snapshot : MetricSnapshot) (now : ℤ) (highwater : Counter → Option ℤ)
    (previous : List (ℤ × Bool)) (bucket : ℤ) : MetricSnapshot :=
  let issues := issuesOf snapshot now highwater
  let valid := snapshot.confidence = .authoritative && issues.isEmpty
  let consecutive := streak valid bucket (if valid then 1 else 0) previous
  { snapshot with
    confidence := if isStale snapshot now then .stale else if issues.isEmpty then snapshot.confidence else .partially
    issues := issues
    consecutiveValidSamples := consecutive
    allocationEligible := valid && 3 ≤ consecutive }

/-- A row of `fleet_samples`. -/
structure Row where
  accountKey : String
  utcDate : ℤ
  bucket : ℤ
  observedAt : ℤ
  counters : Counter → Option ℤ
  valid : Bool
  payload : MetricSnapshot

/-- `PRIMARY KEY(account_key, utc_date, bucket)` -/
def Row.key (r : Row) : String × ℤ × ℤ := (r.accountKey, r.utcDate, r.bucket)

/-- `WHERE account_key=? AND utc_date=?` -/
def ofDay (s : MetricSnapshot) (r : Row) : Bool := r.accountKey = s.accountKey && r.utcDate = s.utcDate

/-- The last bucket of a date takes what is observed later. -/
def bucketOf (s : MetricSnapshot) : ℤ := min s.observedAt ((s.utcDate + 1) * 86400 - 1) / SAMPLE_SECONDS

/-- `SELECT MAX(…)` of a counter. -/
def highwater (rows : List Row) (s : MetricSnapshot) (c : Counter) : Option ℤ :=
  ((rows.filter (ofDay s)).filterMap fun r => r.counters c).max?

/-- `SELECT bucket, valid … ORDER BY bucket DESC LIMIT 2` -/
def previous (rows : List Row) (s : MetricSnapshot) : List (ℤ × Bool) :=
  (Table.selectTop (fun r => ofDay s r && r.bucket < bucketOf s) (fun r r' => r'.bucket ≤ r.bucket) 2 rows).map
    fun r => (r.bucket, r.valid)

/-- `max(new, old) if new is not None and old is not None else new if new is not None else old` -/
def greater : Option ℤ → Option ℤ → Option ℤ
  | some new, some old => some (max new old)
  | some new, none => some new
  | none, old => old

/-- The checks of a snapshot. -/
def checkSnapshot (snapshot : MetricSnapshot) : Except MetricsError Unit := do
  for c in Counter.all do
    if let some counter := snapshot.counters c then integer counter .invalidCounter
  if MAX_DATABASES < snapshot.shardSizes.length then .error .invalidDatabaseCount
  for (id, size) in snapshot.shardSizes do
    shardId id
    integer size .invalidFileSize

/-- A stored sample of the account and date is newer. -/
def isOutOfOrder (rows : List Row) (sample : MetricSnapshot) : Bool :=
  match ((rows.filter (ofDay sample)).map (·.observedAt)).max? with
  | some current => sample.observedAt < current
  | none => false

/-- The row that is written for a sample. -/
def rowOf (rows : List Row) (sample : MetricSnapshot) : Row where
  accountKey := sample.accountKey
  utcDate := sample.utcDate
  bucket := bucketOf sample
  observedAt := sample.observedAt
  counters c := greater (sample.counters c) (highwater rows sample c)
  valid := sample.confidence = .authoritative
  payload := sample

/-- What the loop does with one snapshot. -/
def recordSnapshot (rows : List Row) (snapshot : MetricSnapshot) (now : ℤ) :
    Except MetricsError (MetricSnapshot × List Row) := do
  checkSnapshot snapshot
  let sample := evaluate snapshot now (highwater rows snapshot) (previous rows snapshot) (bucketOf snapshot)
  if isOutOfOrder rows sample then .error .outOfOrderSample
  return (sample, Table.upsert Row.key rows (rowOf rows sample))

/-- `ORDER BY utc_date DESC, bucket DESC, account_key` -/
def newerFirst (r r' : Row) : Prop :=
  r'.utcDate < r.utcDate ∨ r.utcDate = r'.utcDate ∧
    (r'.bucket < r.bucket ∨ r.bucket = r'.bucket ∧ r.accountKey ≤ r'.accountKey)

instance : DecidableRel newerFirst := fun _ _ => inferInstanceAs (Decidable (_ ∨ _))

/-- Where the file system or SQLite can fail. -/
inductive Stage
  | directory | opening | purging | snapshot (position : ℕ) | pruning | committing
  deriving DecidableEq

/-- The statements of a stage: they fail as the outage says, and are run otherwise. -/
def attempt (outage : Stage → Option MetricsError) (stage : Stage) : Except MetricsError Unit :=
  match outage stage with
  | some code => .error code
  | none => .ok ()

def recordAll (outage : Stage → Option MetricsError) (now : ℤ) :
    ℕ → List Row → List MetricSnapshot → Except MetricsError (List MetricSnapshot × List Row)
  | _, rows, [] => .ok ([], rows)
  | k, rows, snapshot :: snapshots => do
    attempt outage (.snapshot k)
    let (sample, rows) ← recordSnapshot rows snapshot now
    let (result, rows) ← recordAll outage now (k + 1) rows snapshots
    return (sample :: result, rows)

def rowLimit : ℕ := MAX_ACCOUNTS * HISTORY_DAYS * (86400 / SAMPLE_SECONDS)

/-- The transaction, on the rows as it sees them. -/
def transaction (outage : Stage → Option MetricsError) (rows : List Row) (snapshots : List MetricSnapshot)
    (now : ℤ) : Except MetricsError (List MetricSnapshot × List Row) := do
  if ¬(1 ≤ snapshots.length ∧ snapshots.length ≤ MAX_ACCOUNTS) ∨ ¬(snapshots.map (·.accountKey)).Nodup then
    .error .invalidSnapshotCount
  attempt outage .directory
  attempt outage .opening
  attempt outage .purging
  let (result, rows) ← recordAll outage now 0
    (Table.deleteWhere (fun r => r.utcDate < today now - (HISTORY_DAYS - 1)) rows) snapshots
  attempt outage .pruning
  attempt outage .committing
  return (result, Table.keepFirst Row.key newerFirst rowLimit rows)

/-- `record_history`: the file after the call is what was committed, or what was there before. -/
def recordHistory (outage : Stage → Option MetricsError) (rows : List Row) (snapshots : List MetricSnapshot)
    (now : ℤ) : Except MetricsError (List MetricSnapshot) × List Row :=
  match transaction outage rows snapshots now with
  | .ok (result, rows') => (.ok result, rows')
  | .error code => (.error code, rows)

/-! ### Evaluation -/

section Evaluate

variable {snapshot : MetricSnapshot} {now bucket : ℤ} {high : Counter → Option ℤ} {prev : List (ℤ × Bool)}

@[simp] theorem evaluate_accountKey :
    (evaluate snapshot now high prev bucket).accountKey = snapshot.accountKey := rfl

@[simp] theorem evaluate_utcDate : (evaluate snapshot now high prev bucket).utcDate = snapshot.utcDate := rfl

@[simp] theorem evaluate_observedAt :
    (evaluate snapshot now high prev bucket).observedAt = snapshot.observedAt := rfl

@[simp] theorem evaluate_counters : (evaluate snapshot now high prev bucket).counters = snapshot.counters := rfl

@[simp] theorem bucketOf_evaluate : bucketOf (evaluate snapshot now high prev bucket) = bucketOf snapshot := rfl

theorem issuesOf_eq_nil (h : issuesOf snapshot now high = []) :
    isStale snapshot now = false ∧ isMissing snapshot = false ∧
    ∀ c, regressed (snapshot.counters c) (high c) = false := by
  simp only [issuesOf, List.append_eq_nil_iff, ite_eq_right_iff, List.cons_ne_nil, imp_false,
    Bool.not_eq_true] at h
  obtain ⟨⟨⟨-, hstale⟩, hmissing⟩, hregressed⟩ := h
  refine ⟨hstale, hmissing, fun c => Bool.eq_false_iff.mpr fun hc => ?_⟩
  rw [List.any_eq_true.mpr ⟨c, c.mem_all, hc⟩] at hregressed
  cases hregressed

/-- A sample is authoritative only without issues. -/
theorem evaluate_authoritative (h : (evaluate snapshot now high prev bucket).confidence = .authoritative) :
    issuesOf snapshot now high = [] := by
  rw [evaluate] at h
  dsimp only at h
  split at h
  · cases h
  · split at h
    · exact List.isEmpty_iff.mp ‹_›
    · cases h

theorem streak_eq_three {prev : List (ℤ × Bool)} (h : 3 ≤ streak true bucket 1 prev) :
    (bucket - 1, true) ∈ prev ∧ (bucket - 2, true) ∈ prev := by
  rcases prev with - | ⟨⟨b₁, v₁⟩, - | ⟨⟨b₂, v₂⟩, prev⟩⟩
  · simp [streak] at h
  · simp only [streak] at h
    split at h <;> omega
  · simp only [streak] at h
    split at h
    · omega
    · rename_i hfirst
      split at h
      · omega
      · rename_i hsecond
        simp only [Bool.not_true, Bool.false_or, Bool.or_eq_true, Bool.not_eq_eq_eq_not, decide_eq_true_eq,
          not_or, Bool.not_eq_false, not_not] at hfirst hsecond
        obtain ⟨⟨hv₁, hb₁⟩, -⟩ := hfirst
        obtain ⟨⟨hv₂, hb₂⟩, -⟩ := hsecond
        push_cast at hb₁ hb₂
        rw [hv₁, hv₂, hb₁, hb₂]
        exact ⟨List.mem_cons_self, List.mem_cons_of_mem _ List.mem_cons_self⟩

/-- An eligible sample is authoritative and stands behind two valid buckets. -/
theorem evaluate_eligible (h : (evaluate snapshot now high prev bucket).allocationEligible = true) :
    (evaluate snapshot now high prev bucket).confidence = .authoritative ∧
    (bucket - 1, true) ∈ prev ∧ (bucket - 2, true) ∈ prev := by
  rw [evaluate] at h ⊢
  dsimp only at h ⊢
  rw [Bool.and_eq_true, decide_eq_true_eq] at h
  obtain ⟨hvalid, hlong⟩ := h
  have hparts := hvalid
  rw [Bool.and_eq_true, decide_eq_true_eq] at hparts
  obtain ⟨hconf, hissues⟩ := hparts
  refine ⟨?_, ?_⟩
  · rw [if_neg (Bool.eq_false_iff.mp (issuesOf_eq_nil (List.isEmpty_iff.mp hissues)).1), if_pos hissues, hconf]
  · rw [hvalid] at hlong
    exact streak_eq_three hlong

end Evaluate

/-! ### What the statements find -/

theorem recordSnapshot_ok {rows rows' : List Row} {snapshot sample : MetricSnapshot} {now : ℤ}
    (h : recordSnapshot rows snapshot now = .ok (sample, rows')) :
    sample = evaluate snapshot now (highwater rows snapshot) (previous rows snapshot) (bucketOf snapshot) ∧
    rows' = Table.upsert Row.key rows (rowOf rows sample) := by
  obtain ⟨-, -, h⟩ := Fallible.bind_ok.mp h
  dsimp only at h
  split at h
  · cases h
  · cases h
    exact ⟨rfl, rfl⟩

theorem ofDay_iff {s : MetricSnapshot} {r : Row} :
    ofDay s r = true ↔ r.accountKey = s.accountKey ∧ r.utcDate = s.utcDate := by
  rw [ofDay, Bool.and_eq_true, decide_eq_true_eq, decide_eq_true_eq]

theorem mem_previous {rows : List Row} {s : MetricSnapshot} {b : ℤ} {v : Bool} (h : (b, v) ∈ previous rows s) :
    ∃ r ∈ rows, r.accountKey = s.accountKey ∧ r.utcDate = s.utcDate ∧ r.bucket = b ∧ r.valid = v := by
  obtain ⟨r, hr, hrv⟩ := List.mem_map.mp h
  obtain ⟨hbucket, hvalid⟩ := Prod.mk.inj hrv
  obtain ⟨hmem, hp⟩ := Table.mem_of_mem_selectTop hr
  obtain ⟨hkey, hdate⟩ := ofDay_iff.mp (Bool.and_eq_true_iff.mp hp).1
  exact ⟨r, hmem, hkey, hdate, hbucket, hvalid⟩

/-- The high-water mark is at least what any row of the day holds. -/
theorem le_highwater {rows : List Row} {s : MetricSnapshot} {r : Row} {c : Counter} {w : ℤ} (hr : r ∈ rows)
    (hday : ofDay s r = true) (hw : r.counters c = some w) : ∃ m, highwater rows s c = some m ∧ w ≤ m := by
  have hmem : w ∈ (rows.filter (ofDay s)).filterMap fun r => r.counters c :=
    List.mem_filterMap.mpr ⟨r, List.mem_filter.mpr ⟨hr, hday⟩, hw⟩
  rcases hmax : ((rows.filter (ofDay s)).filterMap fun r => r.counters c).max? with - | m
  · rw [List.max?_eq_none_iff] at hmax
    rw [hmax] at hmem
    cases hmem
  · exact ⟨m, hmax, (List.max?_eq_some_iff.mp hmax).2 w hmem⟩

theorem greater_left {x y : Option ℤ} {v : ℤ} (h : x = some v) : ∃ w, greater x y = some w ∧ v ≤ w := by
  subst h
  cases y with
  | none => exact ⟨v, rfl, le_refl v⟩
  | some w => exact ⟨max v w, rfl, le_max_left v w⟩

theorem greater_right {x y : Option ℤ} {v : ℤ} (h : y = some v) : ∃ w, greater x y = some w ∧ v ≤ w := by
  subst h
  cases x with
  | none => exact ⟨v, rfl, le_refl v⟩
  | some w => exact ⟨max w v, rfl, le_max_right w v⟩

instance : Std.Total newerFirst where
  total r r' := by
    rcases lt_trichotomy r.utcDate r'.utcDate with h | h | h
    · exact .inr (.inl h)
    · rcases lt_trichotomy r.bucket r'.bucket with hb | hb | hb
      · exact .inr (.inr ⟨h.symm, .inl hb⟩)
      · exact (le_total r.accountKey r'.accountKey).imp (fun hk => .inr ⟨h, .inr ⟨hb, hk⟩⟩)
          fun hk => .inr ⟨h.symm, .inr ⟨hb.symm, hk⟩⟩
      · exact .inl (.inr ⟨h, .inl hb⟩)
    · exact .inl (.inl h)

instance : IsTrans Row newerFirst where
  trans r r' r'' h h' := by
    rcases h with h | ⟨hd, h⟩ <;> rcases h' with h' | ⟨hd', h'⟩
    · exact .inl (h'.trans h)
    · exact .inl (hd' ▸ h)
    · exact .inl (hd ▸ h')
    · refine .inr ⟨hd.trans hd', ?_⟩
      rcases h with h | ⟨hb, hk⟩ <;> rcases h' with h' | ⟨hb', hk'⟩
      · exact .inl (h'.trans h)
      · exact .inl (hb' ▸ h)
      · exact .inl (hb ▸ h')
      · exact .inr ⟨hb.trans hb', hk.trans hk'⟩

/-! ### Runs -/

/-- A sample that an accepted call has recorded and returned. -/
structure Entry where
  sample : MetricSnapshot
  now : ℤ

/-- Authoritative, complete and fresh when it was recorded. -/
structure Entry.Good (e : Entry) : Prop where
  authoritative : e.sample.confidence = .authoritative
  clean : e.sample.issues = []
  counted : ∀ c, e.sample.counters c ≠ none
  sized : e.sample.shardSizes ≠ []
  recorded : e.sample.utcDate = today e.now
  observed : dateOf e.sample.observedAt = e.sample.utcDate
  fresh : 0 ≤ e.now - e.sample.observedAt * 1000000 ∧
    e.now - e.sample.observedAt * 1000000 ≤ FRESH_SECONDS * 1000000

def Entry.inBucket (key : String) (date bucket : ℤ) (e : Entry) : Bool :=
  e.sample.accountKey = key && e.sample.utcDate = date && bucketOf e.sample = bucket

/-- The last sample of a bucket in a log that has the latest entries first. -/
def lastIn (log : List Entry) (key : String) (date bucket : ℤ) : Option Entry :=
  log.find? (Entry.inBucket key date bucket)

/-- What eligibility promises of an entry, given the entries `earlier` than it. -/
def Sound (earlier : List Entry) (e : Entry) : Prop :=
  e.sample.allocationEligible = true →
    e.Good ∧
    (∀ k : ℤ, k = 1 ∨ k = 2 → ∃ p,
      lastIn earlier e.sample.accountKey e.sample.utcDate (bucketOf e.sample - k) = some p ∧ p.Good) ∧
    ∀ p ∈ earlier, p.sample.accountKey = e.sample.accountKey → p.sample.utcDate = e.sample.utcDate →
      ∀ c v, p.sample.counters c = some v → ∃ w, e.sample.counters c = some w ∧ v ≤ w

/-- The history file, the time of the last call, and the samples of the accepted calls, latest first. -/
structure State where
  rows : List Row
  clock : ℤ
  log : List Entry

def State.call (s : State) (outage : Stage → Option MetricsError) (snapshots : List MetricSnapshot) (now : ℤ) :
    State :=
  match recordHistory outage s.rows snapshots now with
  | (.ok result, rows) => ⟨rows, now, (result.map fun sample => ⟨sample, now⟩).reverse ++ s.log⟩
  | (.error _, rows) => ⟨rows, now, s.log⟩

/-- A snapshot that `collect` has built for one of the accounts, delivered at `now`. -/
structure Collected (accounts : List String) (now : ℤ) (s : MetricSnapshot) : Prop where
  known : s.accountKey ∈ accounts
  earliest : dateOf s.observedAt - (HISTORY_DAYS - 1) ≤ s.utcDate
  latest : s.utcDate ≤ dateOf s.observedAt
  delivered : s.observedAt * 1000000 ≤ now

inductive Reach (accounts : List String) : State → Prop
  | start (clock : ℤ) : Reach accounts ⟨[], clock, []⟩
  | call {s : State} {snapshots : List MetricSnapshot} {now : ℤ} (outage : Stage → Option MetricsError) :
      Reach accounts s → s.clock ≤ now → (∀ snapshot ∈ snapshots, Collected accounts now snapshot) →
      Reach accounts (s.call outage snapshots now)

/-- What holds of the rows and the log at every instant. -/
structure Inv (accounts : List String) (clock : ℤ) (rows : List Row) (log : List Entry) : Prop where
  unique : (rows.map Row.key).Nodup
  known : ∀ r ∈ rows, r.accountKey ∈ accounts
  dated : ∀ r ∈ rows, r.utcDate ≤ today clock
  within : ∀ r ∈ rows, r.utcDate * 288 ≤ r.bucket ∧ r.bucket ≤ r.utcDate * 288 + 287
  logged : ∀ e ∈ log, e.sample.utcDate ≤ today clock
  last : ∀ r ∈ rows, today clock ≤ r.utcDate → ∃ e,
    lastIn log r.accountKey r.utcDate r.bucket = some e ∧ (r.valid = true → e.Good)
  covered : ∀ e ∈ log, today clock ≤ e.sample.utcDate → ∀ c v, e.sample.counters c = some v →
    ∃ r ∈ rows, ofDay e.sample r = true ∧ ∃ w, r.counters c = some w ∧ v ≤ w
  sound : Interleave.Historic Sound log

variable {accounts : List String} {now clock : ℤ} {rows rows' : List Row} {log : List Entry}
  {snapshot sample : MetricSnapshot}

theorem bucketOf_bounds (h : snapshot.utcDate ≤ dateOf snapshot.observedAt) :
    snapshot.utcDate * 288 ≤ bucketOf snapshot ∧ bucketOf snapshot ≤ snapshot.utcDate * 288 + 287 := by
  rw [dateOf] at h
  simp only [bucketOf, SAMPLE_SECONDS]
  omega

theorem Collected.date_le (h : Collected accounts now snapshot) : snapshot.utcDate ≤ today now := by
  have hlatest := h.latest
  have hdelivered := h.delivered
  rw [today, dateOf]
  rw [dateOf] at hlatest
  omega

theorem inBucket_iff {e : Entry} {key : String} {date bucket : ℤ} : e.inBucket key date bucket = true ↔
    e.sample.accountKey = key ∧ e.sample.utcDate = date ∧ bucketOf e.sample = bucket := by
  rw [Entry.inBucket, Bool.and_eq_true, Bool.and_eq_true, decide_eq_true_eq, decide_eq_true_eq,
    decide_eq_true_eq, and_assoc]

/-- An authoritative sample is good. -/
theorem evaluate_good {high : Counter → Option ℤ} {prev : List (ℤ × Bool)} {bucket : ℤ}
    (h : (evaluate snapshot now high prev bucket).confidence = .authoritative) :
    Entry.Good ⟨evaluate snapshot now high prev bucket, now⟩ := by
  have hissues := evaluate_authoritative h
  obtain ⟨hstale, hmissing, -⟩ := issuesOf_eq_nil hissues
  simp only [isStale, ne_eq, decide_not, Bool.or_eq_false_iff, Bool.not_eq_eq_eq_not, Bool.not_false,
    decide_eq_true_eq, Bool.and_eq_true] at hstale
  obtain ⟨⟨hrecorded, hobserved⟩, hfresh⟩ := hstale
  rw [isMissing, Bool.or_eq_false_iff, List.any_eq_false] at hmissing
  obtain ⟨hcounted, hsized⟩ := hmissing
  refine ⟨h, hissues, fun c hc => hcounted c c.mem_all ?_, fun hs => ?_, hrecorded, hobserved, hfresh⟩
  · rw [show snapshot.counters c = none from hc]
    rfl
  · rw [show snapshot.shardSizes = [] from hs] at hsized
    cases hsized

/-- The soundness of the sample that is recorded next. -/
theorem Inv.sound_next (hinv : Inv accounts now rows log)
    (hsample : sample =
      evaluate snapshot now (highwater rows snapshot) (previous rows snapshot) (bucketOf snapshot)) :
    Sound log ⟨sample, now⟩ := by
  subst hsample
  intro helig
  obtain ⟨hauth, hone, htwo⟩ := evaluate_eligible helig
  have hgood := evaluate_good hauth
  have htoday : snapshot.utcDate = today now := hgood.recorded
  have hprev : ∀ b, (b, true) ∈ previous rows snapshot → ∃ p,
      lastIn log snapshot.accountKey snapshot.utcDate b = some p ∧ p.Good := by
    intro b hb
    obtain ⟨r, hr, hkey, hdate, hbucket, hvalid⟩ := mem_previous hb
    obtain ⟨p, hp, hpgood⟩ := hinv.last r hr (by rw [hdate, htoday])
    rw [hkey, hdate, hbucket] at hp
    exact ⟨p, hp, hpgood hvalid⟩
  refine ⟨hgood, ?_, ?_⟩
  · rintro k (rfl | rfl)
    · exact hprev _ hone
    · exact hprev _ htwo
  · intro p hp hkey hdate c v hv
    obtain ⟨r, hr, hday, w, hw, hvw⟩ := hinv.covered p hp (by rw [hdate]; exact htoday.ge) c v hv
    obtain ⟨hrkey, hrdate⟩ := ofDay_iff.mp hday
    obtain ⟨m, hm, hwm⟩ := le_highwater hr (ofDay_iff.mpr ⟨hrkey.trans hkey, hrdate.trans hdate⟩) hw
    obtain ⟨x, hx⟩ := Option.ne_none_iff_exists'.mp (hgood.counted c)
    have hreg := (issuesOf_eq_nil (evaluate_authoritative hauth)).2.2 c
    rw [show snapshot.counters c = some x from hx,
      show highwater rows snapshot c = some m from hm, regressed, decide_eq_false_iff_not] at hreg
    exact ⟨x, hx, by omega⟩

/-- What recording one snapshot preserves. -/
theorem Inv.record (hinv : Inv accounts now rows log) (hc : Collected accounts now snapshot)
    (h : recordSnapshot rows snapshot now = .ok (sample, rows')) :
    Inv accounts now rows' (⟨sample, now⟩ :: log) := by
  obtain ⟨hsample, hrows⟩ := recordSnapshot_ok h
  have hcs : Collected accounts now sample := by
    rw [hsample]
    exact ⟨hc.known, hc.earliest, hc.latest, hc.delivered⟩
  have hmem : ∀ {r}, r ∈ rows' → r ∈ rows ∧ r.key ≠ (rowOf rows sample).key ∨ r = rowOf rows sample :=
    fun hr => Table.mem_upsert.mp (hrows ▸ hr)
  have hnew : rowOf rows sample ∈ rows' := hrows ▸ Table.mem_upsert.mpr (.inr rfl)
  refine ⟨hrows ▸ Table.nodup_upsert hinv.unique, ?_, ?_, ?_, ?_, ?_, ?_, ?_⟩
  · intro r hr
    rcases hmem hr with ⟨hr, -⟩ | rfl
    · exact hinv.known r hr
    · exact hcs.known
  · intro r hr
    rcases hmem hr with ⟨hr, -⟩ | rfl
    · exact hinv.dated r hr
    · exact hcs.date_le
  · intro r hr
    rcases hmem hr with ⟨hr, -⟩ | rfl
    · exact hinv.within r hr
    · exact bucketOf_bounds hcs.latest
  · intro e he
    rcases List.mem_cons.mp he with rfl | he
    · exact hcs.date_le
    · exact hinv.logged e he
  · -- the new entry is the last one of its own bucket and of no other
    intro r hr hcur
    rcases hmem hr with ⟨hr, hne⟩ | rfl
    · obtain ⟨e, he, hgood⟩ := hinv.last r hr hcur
      refine ⟨e, ?_, hgood⟩
      rw [lastIn, List.find?_cons_of_neg, ← lastIn, he]
      rw [inBucket_iff]
      rintro ⟨hk, hd, hb⟩
      exact hne (Prod.ext hk.symm (Prod.ext hd.symm hb.symm))
    · refine ⟨⟨sample, now⟩, ?_, fun hvalid => ?_⟩
      · exact List.find?_cons_of_pos (inBucket_iff.mpr ⟨rfl, rfl, rfl⟩)
      · subst hsample
        exact evaluate_good (of_decide_eq_true hvalid)
  · intro e he hcur c v hv
    rcases List.mem_cons.mp he with rfl | he
    · exact ⟨_, hnew, ofDay_iff.mpr ⟨rfl, rfl⟩, greater_left hv⟩
    · obtain ⟨r, hr, hday, w, hw, hvw⟩ := hinv.covered e he hcur c v hv
      by_cases hk : r.key = (rowOf rows sample).key
      · obtain ⟨hrk, hrest⟩ := Prod.mk.inj hk
        obtain ⟨hrd, -⟩ := Prod.mk.inj hrest
        obtain ⟨m, hm, hwm⟩ := le_highwater (s := sample) hr (ofDay_iff.mpr ⟨hrk, hrd⟩) hw
        obtain ⟨x, hx, hmx⟩ := greater_right (x := sample.counters c) hm
        obtain ⟨hek, hed⟩ := ofDay_iff.mp hday
        exact ⟨_, hnew, ofDay_iff.mpr ⟨hrk.symm.trans hek, hrd.symm.trans hed⟩, x, hx, by omega⟩
      · exact ⟨r, hrows ▸ Table.mem_upsert.mpr (.inl ⟨hr, hk⟩), hday, w, hw, hvw⟩
  · exact ⟨hinv.sound_next hsample, hinv.sound⟩

/-- The rows of the current date fit in the limit. -/
theorem Inv.few (hinv : Inv accounts now rows log) (haccounts : accounts.length ≤ MAX_ACCOUNTS) :
    (rows.filter fun r => today now ≤ r.utcDate).length ≤ rowLimit := by
  have hnodup : ((rows.filter fun r => today now ≤ r.utcDate).map Row.key).Nodup :=
    hinv.unique.sublist (List.filter_sublist.map _)
  have hsub : ((rows.filter fun r => today now ≤ r.utcDate).map Row.key).toFinset ⊆
      accounts.toFinset ×ˢ ({today now} ×ˢ Finset.Icc (today now * 288) (today now * 288 + 287)) := by
    intro key hkey
    obtain ⟨r, hr, rfl⟩ := List.mem_map.mp (List.mem_toFinset.mp hkey)
    obtain ⟨hmem, hcur⟩ := List.mem_filter.mp hr
    have hdate : r.utcDate = today now := le_antisymm (hinv.dated r hmem) (of_decide_eq_true hcur)
    have hwithin := hinv.within r hmem
    rw [hdate] at hwithin
    exact Finset.mem_product.mpr ⟨List.mem_toFinset.mpr (hinv.known r hmem),
      Finset.mem_product.mpr ⟨Finset.mem_singleton.mpr hdate, Finset.mem_Icc.mpr hwithin⟩⟩
  have hcard := Finset.card_le_card hsub
  rw [List.toFinset_card_of_nodup hnodup, List.length_map, Finset.card_product, Finset.card_product,
    Finset.card_singleton, Int.card_Icc] at hcard
  have hwidth : (today now * 288 + 287 + 1 - today now * 288).toNat = 288 := by omega
  have hfew : accounts.toFinset.card ≤ 12 := (List.toFinset_card_le accounts).trans haccounts
  rw [hwidth] at hcard
  rw [show rowLimit = 27648 from rfl]
  omega

/-- Statements that delete rows, and keep those of the current date. -/
theorem Inv.subset (hinv : Inv accounts now rows log) (hunique : (rows'.map Row.key).Nodup)
    (hsub : ∀ r ∈ rows', r ∈ rows) (hkeep : ∀ r ∈ rows, today now ≤ r.utcDate → r ∈ rows') :
    Inv accounts now rows' log where
  unique := hunique
  known r hr := hinv.known r (hsub r hr)
  dated r hr := hinv.dated r (hsub r hr)
  within r hr := hinv.within r (hsub r hr)
  logged := hinv.logged
  last r hr := hinv.last r (hsub r hr)
  covered e he hcur c v hv := by
    obtain ⟨r, hr, hday, hw⟩ := hinv.covered e he hcur c v hv
    exact ⟨r, hkeep r hr ((ofDay_iff.mp hday).2 ▸ hcur), hday, hw⟩
  sound := hinv.sound

/-- The clock goes on: no row and no entry is of a later date than it was. -/
theorem Inv.advance (hinv : Inv accounts clock rows log) (h : clock ≤ now) : Inv accounts now rows log := by
  have hle : today clock ≤ today now := by
    rw [today, today, dateOf, dateOf]
    omega
  exact
    { unique := hinv.unique
      known := hinv.known
      dated := fun r hr => (hinv.dated r hr).trans hle
      within := hinv.within
      logged := fun e he => (hinv.logged e he).trans hle
      last := fun r hr hcur => hinv.last r hr (hle.trans hcur)
      covered := fun e he hcur => hinv.covered e he (hle.trans hcur)
      sound := hinv.sound }

theorem Inv.purge (hinv : Inv accounts now rows log) :
    Inv accounts now (Table.deleteWhere (fun r => r.utcDate < today now - (HISTORY_DAYS - 1)) rows) log := by
  refine hinv.subset (hinv.unique.sublist (List.filter_sublist.map _)) (fun r hr => (Table.mem_deleteWhere.mp hr).1)
    fun r hr hcur => Table.mem_deleteWhere.mpr ⟨hr, decide_eq_false_iff_not.mpr ?_⟩
  rw [HISTORY_DAYS]
  omega

theorem Inv.prune (hinv : Inv accounts now rows log) (haccounts : accounts.length ≤ MAX_ACCOUNTS) :
    Inv accounts now (Table.keepFirst Row.key newerFirst rowLimit rows) log := by
  refine hinv.subset (Table.nodup_keepFirst hinv.unique) (fun r hr => Table.mem_of_mem_keepFirst hr)
    fun r hr hcur => Table.mem_keepFirst hinv.unique ?_ (hinv.few haccounts) hr (decide_eq_true hcur)
  intro a b hab hb
  have hle : b.utcDate ≤ a.utcDate := by
    rcases hab with hlt | ⟨heq, -⟩
    · exact hlt.le
    · exact heq.ge
  exact decide_eq_true ((of_decide_eq_true hb).trans hle)

/-- What the loop preserves, the samples being logged one by one. -/
theorem Inv.recordAll {outage : Stage → Option MetricsError} {snapshots result : List MetricSnapshot}
    (hc : ∀ snapshot ∈ snapshots, Collected accounts now snapshot) {k : ℕ} (hinv : Inv accounts now rows log)
    (h : recordAll outage now k rows snapshots = .ok (result, rows')) :
    Inv accounts now rows' ((result.map fun sample => ⟨sample, now⟩).reverse ++ log) := by
  induction snapshots generalizing k rows log result with
  | nil =>
    cases h
    exact hinv
  | cons snapshot snapshots ih =>
    obtain ⟨-, -, h⟩ := Fallible.bind_ok.mp h
    obtain ⟨⟨sample, rows₁⟩, hrecord, h⟩ := Fallible.bind_ok.mp h
    obtain ⟨⟨samples, rows₂⟩, hrest, h⟩ := Fallible.bind_ok.mp h
    cases h
    have hnext := ih (fun s hs => hc s (List.mem_cons_of_mem _ hs)) (hinv.record (hc _ List.mem_cons_self) hrecord)
      hrest
    rw [List.map_cons, List.reverse_cons, List.append_assoc]
    exact hnext

theorem Inv.transaction {outage : Stage → Option MetricsError} {snapshots result : List MetricSnapshot}
    (haccounts : accounts.length ≤ MAX_ACCOUNTS) (hc : ∀ snapshot ∈ snapshots, Collected accounts now snapshot)
    (hinv : Inv accounts now rows log) (h : transaction outage rows snapshots now = .ok (result, rows')) :
    Inv accounts now rows' ((result.map fun sample => ⟨sample, now⟩).reverse ++ log) := by
  rw [Metrics.transaction] at h
  dsimp only at h
  split at h
  · cases h
  · obtain ⟨-, -, h⟩ := Fallible.bind_ok.mp h
    obtain ⟨-, -, h⟩ := Fallible.bind_ok.mp h
    obtain ⟨-, -, h⟩ := Fallible.bind_ok.mp h
    obtain ⟨⟨samples, rows₁⟩, hall, h⟩ := Fallible.bind_ok.mp h
    obtain ⟨-, -, h⟩ := Fallible.bind_ok.mp h
    obtain ⟨-, -, h⟩ := Fallible.bind_ok.mp h
    cases h
    exact (hinv.purge.recordAll hc hall).prune haccounts

/-- The run lemma. -/
theorem Reach.inv (haccounts : accounts.length ≤ MAX_ACCOUNTS) {s : State} (h : Reach accounts s) :
    Inv accounts s.clock s.rows s.log := by
  induction h with
  | start clock =>
    exact
      { unique := List.nodup_nil
        known := fun _ hr => nomatch hr
        dated := fun _ hr => nomatch hr
        within := fun _ hr => nomatch hr
        logged := fun _ he => nomatch he
        last := fun _ hr => nomatch hr
        covered := fun _ he => nomatch he
        sound := trivial }
  | @call s snapshots now outage _ hclock hc ih =>
    have hadv := ih.advance hclock
    rw [State.call, recordHistory]
    rcases htx : Metrics.transaction outage s.rows snapshots now with code | ⟨result, rows'⟩
    · exact hadv
    · exact hadv.transaction haccounts hc htx

/-- Whatever the calls were, an eligible sample and those of the two buckets before it were good, and its
    counters are at least all that were recorded for the day; a call that raises changes no row. -/
theorem eligibility_sound (accounts : List String) (haccounts : accounts.length ≤ MAX_ACCOUNTS) (s : State)
    (h : Reach accounts s) :
    (∀ later e earlier, s.log = later ++ e :: earlier → Sound earlier e) ∧
    ∀ outage snapshots now code, (recordHistory outage s.rows snapshots now).1 = .error code →
      (recordHistory outage s.rows snapshots now).2 = s.rows := by
  refine ⟨Interleave.historic_iff.mp (h.inv haccounts).sound, fun outage snapshots now code hraise => ?_⟩
  rw [recordHistory] at hraise ⊢
  split at hraise
  · cases hraise
  · rfl

/-- A complete sample of the first day, observed at `second`. -/
def polled (second count : ℤ) : MetricSnapshot where
  accountKey := "main"
  utcDate := 0
  observedAt := second
  counters _ := some count
  confidence := .authoritative
  shardSizes := [("mail-1", 4096)]
  issues := []
  consecutiveValidSamples := 0
  allocationEligible := false

/-- Four polls, the second bucket being taken twice. -/
def polls : List (ℤ × ℤ) := [(10, 1), (310, 3), (320, 3), (620, 5)]

def afterPolls (polls : List (ℤ × ℤ)) : State :=
  polls.foldl (fun s poll => s.call (fun _ => none) [polled poll.1 poll.2] (poll.1 * 1000000)) ⟨[], 0, []⟩

@[simp] theorem call_clock (s : State) (outage : Stage → Option MetricsError) (snapshots : List MetricSnapshot)
    (now : ℤ) : (s.call outage snapshots now).clock = now := by
  rw [State.call]
  split <;> rfl

theorem polled_collected {second count : ℤ} (hlow : 0 ≤ second) (hhigh : second < 86400) :
    Collected ["main"] (second * 1000000) (polled second count) := by
  have hday : dateOf (polled second count).observedAt = 0 := by
    simp only [dateOf, polled]
    omega
  refine ⟨List.mem_cons_self, ?_, hday.ge, le_refl _⟩
  rw [hday]
  simp only [polled, HISTORY_DAYS]
  omega

/-- Polls of one day in the order of their times. -/
theorem polled_reach {s : State} {polls : List (ℤ × ℤ)} (hs : Reach ["main"] s)
    (hday : ∀ poll ∈ polls, 0 ≤ poll.1 ∧ poll.1 < 86400)
    (horder : (s.clock :: polls.map fun poll => poll.1 * 1000000).Pairwise (· ≤ ·)) :
    Reach ["main"]
      (polls.foldl (fun s poll => s.call (fun _ => none) [polled poll.1 poll.2] (poll.1 * 1000000)) s) := by
  induction polls generalizing s with
  | nil => exact hs
  | cons poll polls ih =>
    obtain ⟨hfirst, hrest⟩ := List.pairwise_cons.mp horder
    obtain ⟨hlow, hhigh⟩ := hday poll List.mem_cons_self
    refine ih ?_ (fun p hp => hday p (List.mem_cons_of_mem _ hp)) (by rw [call_clock]; exact hrest)
    refine .call _ hs (hfirst _ List.mem_cons_self) fun snapshot hsnapshot => ?_
    rw [List.mem_singleton.mp hsnapshot]
    exact polled_collected hlow hhigh

/-- The fourth poll is eligible, and so the earlier ones of the two buckets before it were good. -/
theorem eligibility_sound_polls : ((afterPolls polls).log.head?.map fun e => e.sample.allocationEligible) = some true ∧
    ∀ later e earlier, (afterPolls polls).log = later ++ e :: earlier → Sound earlier e :=
  ⟨by decide +kernel, (eligibility_sound ["main"] (by decide) (afterPolls polls)
    (polled_reach (.start 0) (by decide) (by decide))).1⟩

end OneMail.Metrics
