import OneMail.Fleet.Optimality
import OneMail.Fleet.Writes

/-! What a count of three samples says.

    The series of an account is what its reports make of nothing, one after the other. A report is accepted if it is
    valid at its clock and not behind the last accepted one of its date. A positive count stands for a streak of
    accepted reports that has reached so many five-minute buckets in succession (`feed_streak`); a rejected report sets
    the count to zero and leaves the baseline alone. The registry keeps such a series for each account, so a mailbox is
    placed only on an account whose reports show the streak. -/

namespace OneMail.Fleet

/-- A report with the clock it is fed at. -/
structure Sample where
  report : MetricReport
  now : ℕ

/-- The series after these reports, newest first. -/
def feed : List Sample → Option MetricSeries
  | [] => none
  | x :: τ => some (updateMetricSeries (feed τ) x.report x.now)

/-! ### What is asked -/

/-- Authoritative, not of the application, of today and fresh, and not behind the baseline of the same date. -/
def accepts (baseline : Option MetricReport) (x : Sample) : Bool :=
  validSample x.report.snapshot x.now &&
    baseline.all fun b => b.snapshot.utcDate ≠ x.report.snapshot.utcDate || !regresses b.snapshot x.report.snapshot

def lastAccepted : List Sample → Option MetricReport
  | [] => none
  | x :: τ => if accepts (lastAccepted τ) x then some x.report else lastAccepted τ

/-- Of the later reports none is rejected. -/
def AllAccepted : List Sample → List Sample → Prop
  | [], _ => True
  | x :: later, earlier => accepts (lastAccepted (later ++ earlier)) x = true ∧ AllAccepted later earlier

def MetricReport.bucket (r : MetricReport) : ℕ := r.snapshot.observedAt / metricSampleIntervalMs

/-- On one date, and no counter goes back. -/
structure Rises (b r : MetricReport) : Prop where
  date : b.snapshot.utcDate = r.snapshot.utcDate
  rowsRead : b.snapshot.rowsRead ≤ r.snapshot.rowsRead
  rowsWritten : b.snapshot.rowsWritten ≤ r.snapshot.rowsWritten
  workerRequests : b.snapshot.workerRequests ≤ r.snapshot.workerRequests

theorem Rises.trans {a b c : MetricReport} (h : Rises a b) (h' : Rises b c) : Rises a c where
  date := h.date.trans h'.date
  rowsRead := h.rowsRead.trans h'.rowsRead
  rowsWritten := h.rowsWritten.trans h'.rowsWritten
  workerRequests := h.workerRequests.trans h'.workerRequests

/-! ### One report -/

variable {x y : Sample} {τ later earlier : List Sample} {series : MetricSeries} {k : ℕ}

theorem rises_of_not_regresses {b r : MetricReport} (hdate : b.snapshot.utcDate = r.snapshot.utcDate)
    (h : regresses b.snapshot r.snapshot = false) : Rises b r := by
  simp only [regresses, Bool.or_eq_false_iff, decide_eq_false_iff_not, not_lt] at h
  exact ⟨hdate, h.1.1.2, h.1.2, h.2⟩

/-- The count that an accepted report leaves: it starts a streak or goes on with the one that ends at the baseline. -/
inductive Continues (previous : Option MetricSeries) (r : MetricReport) : ℕ → Prop
  | first : Continues previous r 1
  | same {series b} (hseries : previous = some series) (hcount : 0 < series.consecutiveValidSamples)
      (hb : acceptedBaseline previous = some b) (hrises : Rises b r) (hbucket : r.bucket = b.bucket) :
      Continues previous r series.consecutiveValidSamples
  | next {series b} (hseries : previous = some series) (hcount : 0 < series.consecutiveValidSamples)
      (hb : acceptedBaseline previous = some b) (hrises : Rises b r) (hbucket : r.bucket = b.bucket + 1) :
      Continues previous r (min (series.consecutiveValidSamples + 1) 3)

theorem updateMetricSeries_rejected {previous : Option MetricSeries} (h : accepts (acceptedBaseline previous) x = false) :
    updateMetricSeries previous x.report x.now = ⟨x.report, 0, acceptedBaseline previous⟩ := by
  rw [updateMetricSeries]
  split
  · rename_i hvalid
    rw [accepts, hvalid, Bool.true_and] at h
    cases hb : acceptedBaseline previous with
    | none => rw [hb] at h; cases h
    | some b =>
      simp only [hb, Option.all_some, Bool.or_eq_false_iff, decide_eq_false_iff_not, not_not, Bool.not_eq_false'] at h
      simp only [if_neg (not_not.mpr h.1), if_pos h.2]
  · rfl

theorem updateMetricSeries_accepted {previous : Option MetricSeries} (h : accepts (acceptedBaseline previous) x = true) :
    ∃ count, Continues previous x.report count ∧
      updateMetricSeries previous x.report x.now = ⟨x.report, count, some x.report⟩ := by
  rw [accepts, Bool.and_eq_true] at h
  rw [updateMetricSeries, if_pos h.1]
  cases hb : acceptedBaseline previous with
  | none => exact ⟨1, .first, rfl⟩
  | some b =>
    rw [hb, Option.all_some, Bool.or_eq_true, decide_eq_true_iff] at h
    dsimp only
    by_cases hdate : b.snapshot.utcDate = x.report.snapshot.utcDate
    · have hregress : regresses b.snapshot x.report.snapshot = false := by
        simpa [hdate] using h.2
      have hrises := rises_of_not_regresses hdate hregress
      rw [if_neg (not_not.mpr hdate), if_neg (by rw [hregress]; exact Bool.false_ne_true)]
      cases previous with
      | none => cases hb
      | some series =>
        rw [Option.map_some, Option.getD_some]
        split_ifs with hsame hnext
        · exact ⟨_, .same rfl hsame.2 hb hrises hsame.1, rfl⟩
        · exact ⟨_, .next rfl hnext.2 hb hrises hnext.1, rfl⟩
        · exact ⟨1, .first, rfl⟩
    · rw [if_pos hdate]
      exact ⟨1, .first, rfl⟩

/-- The baseline is the last accepted report. -/
theorem acceptedBaseline_feed : ∀ τ, acceptedBaseline (feed τ) = lastAccepted τ
  | [] => rfl
  | x :: τ => by
    rw [feed, lastAccepted]
    cases h : accepts (lastAccepted τ) x with
    | false =>
      rw [← acceptedBaseline_feed τ] at h
      rw [updateMetricSeries_rejected h, acceptedBaseline_feed τ]
      cases lastAccepted τ <;> rfl
    | true =>
      rw [← acceptedBaseline_feed τ] at h
      obtain ⟨count, -, hupdate⟩ := updateMetricSeries_accepted h
      rw [hupdate]
      rfl

/-- The newest report is rejected and counts nothing, or it is the baseline and continues the streak. -/
theorem feed_cons (h : feed (x :: τ) = some series) : series.report = x.report ∧
    (accepts (lastAccepted τ) x = false ∧ series.consecutiveValidSamples = 0 ∧ series.baseline = lastAccepted τ ∨
      accepts (lastAccepted τ) x = true ∧ series.baseline = some x.report ∧
        Continues (feed τ) x.report series.consecutiveValidSamples) := by
  rw [feed] at h
  cases haccepts : accepts (lastAccepted τ) x with
  | false =>
    rw [← acceptedBaseline_feed τ] at haccepts
    rw [updateMetricSeries_rejected haccepts, acceptedBaseline_feed τ] at h
    cases h
    exact ⟨rfl, .inl ⟨rfl, rfl, rfl⟩⟩
  | true =>
    rw [← acceptedBaseline_feed τ] at haccepts
    obtain ⟨count, hcontinues, hupdate⟩ := updateMetricSeries_accepted haccepts
    rw [hupdate] at h
    cases h
    exact ⟨rfl, .inr ⟨rfl, rfl, hcontinues⟩⟩

theorem feed_baseline (h : feed τ = some series) : series.baseline = lastAccepted τ := by
  cases τ with
  | nil => cases h
  | cons x τ =>
    rw [lastAccepted]
    rcases (feed_cons h).2 with ⟨hrejected, -, hbaseline⟩ | ⟨haccepts, hbaseline, -⟩
    · rw [hbaseline, hrejected, if_neg Bool.false_ne_true]
    · rw [hbaseline, if_pos haccepts]

/-! ### Streaks -/

/-- The newest reports, all accepted, reach `k` buckets in succession. -/
inductive Streak : ℕ → List Sample → Prop
  | one {x : Sample} {τ : List Sample} : accepts (lastAccepted τ) x = true → Streak 1 (x :: τ)
  | same {k : ℕ} {x y : Sample} {τ : List Sample} : Streak k (y :: τ) → accepts (lastAccepted (y :: τ)) x = true → Rises y.report x.report →
      x.report.bucket = y.report.bucket → Streak k (x :: y :: τ)
  | next {k : ℕ} {x y : Sample} {τ : List Sample} : Streak k (y :: τ) → accepts (lastAccepted (y :: τ)) x = true → Rises y.report x.report →
      x.report.bucket = y.report.bucket + 1 → Streak (k + 1) (x :: y :: τ)

theorem Streak.accepted (h : Streak k (x :: τ)) : accepts (lastAccepted τ) x = true := by
  cases h <;> assumption

/-- A streak over more buckets is one over fewer. -/
theorem Streak.le (h : Streak k τ) : ∀ {n}, 0 < n → n ≤ k → Streak n τ := by
  induction h with
  | one haccepts =>
    intro n hpos hle
    obtain rfl : n = 1 := by omega
    exact .one haccepts
  | same _ haccepts hrises hbucket ih => exact fun hpos hle => .same (ih hpos hle) haccepts hrises hbucket
  | next _ haccepts hrises hbucket ih =>
    intro n hpos hle
    rcases Nat.exists_eq_succ_of_ne_zero hpos.ne' with ⟨n, rfl⟩
    rcases Nat.eq_zero_or_pos n with rfl | hn
    · exact .one haccepts
    · exact .next (ih hn (Nat.le_of_succ_le_succ hle)) haccepts hrises hbucket

/-- A positive count stands for a streak. -/
theorem feed_streak : ∀ {τ series}, feed τ = some series → 0 < series.consecutiveValidSamples →
    Streak series.consecutiveValidSamples τ
  | [], _, h, _ => by cases h
  | x :: τ, series, h, hpos => by
    rcases (feed_cons h).2 with ⟨-, hzero, -⟩ | ⟨haccepts, -, hcontinues⟩
    · omega
    · generalize series.consecutiveValidSamples = count at hcontinues hpos ⊢
      cases hcontinues with
      | first => exact .one haccepts
      | same hseries hcount hb hrises hbucket =>
        have hstreak := feed_streak hseries hcount
        rw [acceptedBaseline_feed] at hb
        cases τ with
        | nil => cases hseries
        | cons y τ =>
          rw [lastAccepted, if_pos hstreak.accepted] at hb
          cases hb
          exact .same hstreak haccepts hrises hbucket
      | @next series _ hseries hcount hb hrises hbucket =>
        have hstreak := feed_streak hseries hcount
        rw [acceptedBaseline_feed] at hb
        cases τ with
        | nil => cases hseries
        | cons y τ =>
          rw [lastAccepted, if_pos hstreak.accepted] at hb
          cases hb
          exact (Streak.next hstreak haccepts hrises hbucket).le hpos (min_le_left _ _)

/-- A streak over two buckets and more comes from the bucket before. -/
theorem Streak.split (h : Streak k τ) : ∀ {n}, k = n + 2 → ∃ x later y earlier, τ = x :: later ++ y :: earlier ∧
    AllAccepted (x :: later) (y :: earlier) ∧ x.report.bucket = y.report.bucket + 1 ∧ Rises y.report x.report ∧
      Streak (n + 1) (y :: earlier) := by
  induction h with
  | one _ => exact fun hk => by omega
  | @same k x y τ _ haccepts hrises hbucket ih =>
    intro n hk
    obtain ⟨x', later, y', earlier, heq, hall, hnext, hrises', hstreak⟩ := ih hk
    cases heq
    exact ⟨x, y :: later, y', earlier, rfl, ⟨haccepts, hall⟩, hbucket.trans hnext, hrises'.trans hrises, hstreak⟩
  | @next k x y τ hstreak haccepts hrises hbucket _ =>
    intro n hk
    obtain rfl : k = n + 1 := by omega
    exact ⟨x, [], y, τ, rfl, ⟨haccepts, trivial⟩, hbucket, hrises, hstreak⟩

theorem AllAccepted.append {later' : List Sample} (h : AllAccepted later (later' ++ earlier))
    (h' : AllAccepted later' earlier) : AllAccepted (later ++ later') earlier := by
  induction later with
  | nil => exact h'
  | cons x later ih =>
    have haccepts := h.1
    rw [← List.append_assoc] at haccepts
    exact ⟨haccepts, ih h.2⟩

/-- Three accepted reports of three successive buckets, the last one the current report, whose counters do not go
    back, and no report rejected since the first. -/
def ThreeBuckets (τ : List Sample) : Prop :=
  ∃ x₃ later₂ x₂ later₁ x₁ earlier, τ = x₃ :: later₂ ++ x₂ :: later₁ ++ x₁ :: earlier ∧
    AllAccepted (x₃ :: later₂ ++ x₂ :: later₁ ++ [x₁]) earlier ∧
      x₂.report.bucket = x₁.report.bucket + 1 ∧ x₃.report.bucket = x₂.report.bucket + 1 ∧
      Rises x₁.report x₂.report ∧ Rises x₂.report x₃.report

theorem Streak.threeBuckets (h : Streak k τ) (hk : 3 ≤ k) : ThreeBuckets τ := by
  obtain ⟨x₃, later₂, x₂, earlier₂, rfl, hall₃, hbucket₃, hrises₃, h₂⟩ := (h.le (by omega) hk).split (n := 1) rfl
  obtain ⟨x₂', later₁, x₁, earlier, heq, hall₂, hbucket₂, hrises₂, h₁⟩ := h₂.split (n := 0) rfl
  cases heq
  refine ⟨x₃, later₂, x₂, later₁, x₁, earlier, by simp, ?_, hbucket₂, hbucket₃, hrises₂, hrises₃⟩
  have hall₁ : AllAccepted [x₁] earlier := ⟨h₁.accepted, trivial⟩
  rw [List.append_assoc]
  exact AllAccepted.append (by simpa using hall₃) (AllAccepted.append hall₂ hall₁)

/-- The baseline is the last accepted report, and a count of three stands for three successive buckets. -/
theorem metric_streak_sound (h : feed τ = some series) : series.baseline = lastAccepted τ ∧
    (3 ≤ series.consecutiveValidSamples → ThreeBuckets τ) :=
  ⟨feed_baseline h, fun hcount => (feed_streak h (by omega)).threeBuckets hcount⟩
/-- The reports of the three buckets in a row, each in the bucket's last second. -/
def samplesDemo : List Sample := [2, 1, 0].map fun n =>
  ⟨⟨⟨js "main", 0, n * 300000 + 299000, .cloudflareGraphql, n, n, n, .authoritative, ∅⟩, n, n, n⟩, 900000⟩

theorem metric_streak_sound_demo : ThreeBuckets samplesDemo :=
  (metric_streak_sound (τ := samplesDemo) rfl).2 (by decide)

/-! ### The registry -/

variable {δ : Type} {s s' : Storage δ} {rm rm' : RegistryMeta} {res : Result} {now : ℕ}

theorem importRoute_metrics {config : FleetConfig} {entry : ImportEntry} (h : importRoute config s entry = .ok s') :
    s'.metrics = s.metrics := by
  obtain ⟨-, -, h⟩ := bind_ok.mp h
  split at h
  · cases h
  · rw [counted_ok h]
    rfl

theorem importAll_metrics {config : FleetConfig} : ∀ {entries : List ImportEntry} {s s' : Storage δ},
    entries.foldlM (importRoute config) s = .ok s' → s'.metrics = s.metrics
  | [], _, _, h => by
    cases h
    rfl
  | entry :: entries, s, s', h => by
    rw [List.foldlM_cons] at h
    obtain ⟨s₁, hs₁, h⟩ := bind_ok.mp h
    rw [importAll_metrics h, importRoute_metrics hs₁]

theorem place_metrics {config : FleetConfig} {mailbox user operation : Id}
    (h : place s rm config mailbox user operation now = .ok (res, rm', s')) : s'.metrics = s.metrics := by
  simp only [place, bind_ok] at h
  obtain ⟨-, -, decision, -, ⟨shard, account⟩, -, budget, -, bytes, -, s₁, hs₁, s₂, hs₂, h⟩ := h
  cases h
  rw [counted_ok (bind_ok.mpr ⟨s₁, hs₁, hs₂⟩)]
  rfl

theorem allocate_metrics {mailbox user operation : Id} {mode : FleetMode}
    (h : allocate s rm mailbox user operation now mode = .ok (res, rm', s')) : s'.metrics = s.metrics := by
  simp only [allocate, bind_ok] at h
  obtain ⟨-, -, config, -, h⟩ := h
  split at h
  · exact place_metrics h
  · simp only [bind_ok] at h
    obtain ⟨-, -, -, -, h⟩ := h
    split at h
    · cases h
      rfl
    · cases h
      rfl
    · exact place_metrics h

theorem confirm_metrics {mailbox operation : Id} {gate : Gate} {mode : FleetMode}
    (h : confirm s rm mailbox operation gate now mode = .ok (res, rm', s')) : s'.metrics = s.metrics := by
  simp only [confirm, bind_ok] at h
  obtain ⟨-, -, config, -, h⟩ := h
  split at h
  · cases h
  · simp only [bind_ok] at h
    obtain ⟨-, -, h⟩ := h
    split at h
    · cases h
    · simp only [bind_ok] at h
      obtain ⟨-, -, -, -, h⟩ := h
      split at h <;> cases h <;> rfl

theorem tombstone_metrics {mailbox : Id} (h : tombstone s rm mailbox now = .ok (res, rm', s')) :
    s'.metrics = s.metrics := by
  simp only [tombstone, bind_ok] at h
  obtain ⟨-, -, h⟩ := h
  split at h
  · obtain ⟨epoch, -, h⟩ := bind_ok.mp h
    cases h
    rfl
  · split at h
    · cases h
      rfl
    · obtain ⟨epoch, -, h⟩ := bind_ok.mp h
      cases h
      rw [release]
      split <;> rfl

/-- What a command does to the series of an account. -/
theorem execute_metrics {c : Command} {mode : FleetMode} (h : execute s rm c now mode = .ok (res, rm', s')) (key : Id) :
    s'.metrics.lookup key = none ∨ s'.metrics.lookup key = s.metrics.lookup key ∧
      (∀ report, c.action = .metrics report → report.snapshot.accountKey ≠ key) ∨
    ∃ report, c.action = .metrics report ∧ report.snapshot.accountKey = key ∧
      s'.metrics.lookup key = some (updateMetricSeries (s.metrics.lookup key) report now) := by
  rw [execute] at h
  cases hc : c.action with
  | configure config =>
    simp only [hc, configure, bind_ok] at h
    obtain ⟨-, -, -, -, -, -, h⟩ := h
    cases h
    have hlookup := KeyValue.lookup_eraseAll id key (invalidated rm.config config) s.metrics
    simp only [id] at hlookup
    by_cases herased : ∃ e ∈ invalidated rm.config config, e = key
    · exact .inl (hlookup.trans (if_pos herased))
    · exact .inr (.inl ⟨hlookup.trans (if_neg herased), fun report hreport => by cases hreport⟩)
  | «import» mailboxes =>
    simp only [hc, importRoutes, bind_ok] at h
    obtain ⟨config, -, -, -, s₁, hs₁, h⟩ := h
    cases h
    exact .inr (.inl ⟨by rw [importAll_metrics hs₁], fun report hreport => by cases hreport⟩)
  | metrics report =>
    simp only [hc, metrics, bind_ok] at h
    obtain ⟨config, -, -, -, -, -, h⟩ := h
    cases h
    by_cases hkey : report.snapshot.accountKey = key
    · refine .inr (.inr ⟨report, rfl, hkey, ?_⟩)
      rw [hkey, AList.lookup_insert]
    · refine .inr (.inl ⟨AList.lookup_insert_ne (Ne.symm hkey), fun report' hreport => ?_⟩)
      cases hreport
      exact hkey
  | allocate mailbox user knownEmpty =>
    simp only [hc] at h
    exact .inr (.inl ⟨by rw [allocate_metrics h], fun report hreport => by cases hreport⟩)
  | confirm mailbox operation gate =>
    simp only [hc] at h
    exact .inr (.inl ⟨by rw [confirm_metrics h], fun report hreport => by cases hreport⟩)
  | tombstone mailbox =>
    simp only [hc] at h
    exact .inr (.inl ⟨by rw [tombstone_metrics h], fun report hreport => by cases hreport⟩)

/-- The report of an account that a command carries. -/
def reportOf (key : Id) (r : Request) : Option Sample :=
  match r.command.action with
  | .metrics report => if report.snapshot.accountKey = key then some ⟨report, r.now⟩ else none
  | _ => none

/-- The reports of an account that the registry has taken, newest first. -/
def reportsOf (key : Id) (τ : List Exchange) : List Sample :=
  (τ.filter (·.applied)).filterMap fun x => reportOf key x.request

variable [DecidableEq δ] {fingerprint : Command → δ} {χ : List Exchange}

/-- A stored series is what the account's reports since some moment make of nothing. -/
theorem Run.series_fed (h : Run fingerprint s χ) {key : Id} (hseries : s.metrics.lookup key = some series) :
    ∃ samples, samples <+: reportsOf key χ ∧ feed samples = some series := by
  induction h generalizing series with
  | start => cases hseries
  | next r hrun ih =>
    rename_i s χ
    rcases fetch_step fingerprint s r with ⟨hsame, hnot⟩ | ⟨mode, response, -, happly, hx⟩
    · rw [hsame] at hseries
      rw [reportsOf, List.filter_cons_of_neg (by rw [hnot]; decide)]
      exact ih hseries
    · obtain ⟨-, -, rm₁, s₁, hexec, hs₁⟩ := applyCommand_ok happly
      obtain ⟨n, o, a, hprune⟩ := pruneOperations_eq (s.registryMeta.getD (emptyMeta r.now)) s r.now
      rw [hprune] at hexec
      have happlied : (exchange fingerprint s r).applied = true := by
        rw [hx]
        rfl
      have hreq : (exchange fingerprint s r).request = r := rfl
      rw [hs₁] at hseries
      rw [reportsOf, List.filter_cons_of_pos happlied, List.filterMap_cons, hreq]
      rcases execute_metrics hexec key with hnone | ⟨hkept, hother⟩ | ⟨report, hc, hkey, hnew⟩
      · cases hnone.symm.trans hseries
      · have hreport : reportOf key r = none := by
          rw [reportOf]
          split
          · rename_i report hc
            exact if_neg (hother report hc)
          · rfl
        rw [hreport]
        exact ih (hkept.symm.trans hseries)
      · have hreport : reportOf key r = some ⟨report, r.now⟩ := by
          rw [reportOf, hc]
          exact if_pos hkey
        rw [hreport]
        cases hnew.symm.trans hseries
        cases hbefore : s.metrics.lookup key with
        | none => exact ⟨[⟨report, r.now⟩], ⟨_, rfl⟩, by rw [feed, feed]⟩
        | some before =>
          obtain ⟨samples, hbegin, hfeed⟩ := ih hbefore
          exact ⟨⟨report, r.now⟩ :: samples, (List.prefix_cons_inj _).mpr hbegin, by rw [feed, hfeed]⟩

/-! ### What a placement rests on -/

theorem mem_reportsOf {key : Id} (hx : x ∈ reportsOf key χ) : x.report.snapshot.accountKey = key := by
  obtain ⟨e, -, he⟩ := List.mem_filterMap.mp hx
  rw [reportOf] at he
  split at he
  · split_ifs at he with hkey
    cases he
    exact hkey
  · cases he

theorem feed_report (h : feed τ = some series) : ∃ x ∈ τ, x.report = series.report := by
  cases τ with
  | nil => cases h
  | cons x τ => exact ⟨x, List.mem_cons_self, (feed_cons h).1.symm⟩

theorem lookup_indexed {key : Id} : ∀ (l : List MetricSeries) {m : KeyValue.Map Id MetricSeries},
    (l.foldl (fun m series => m.insert series.report.snapshot.accountKey series) m).lookup key = some series →
      m.lookup key = some series ∨ series ∈ l ∧ series.report.snapshot.accountKey = key
  | [], _, h => .inl h
  | first :: l, m, h => by
    rcases lookup_indexed l h with h | ⟨hmem, hkey⟩
    · rw [KeyValue.lookup_put] at h
      split_ifs at h with hfirst
      · cases h
        exact .inr ⟨List.mem_cons_self, hfirst.symm⟩
      · exact .inl h
    · exact .inr ⟨List.mem_cons_of_mem _ hmem, hkey⟩

/-- The metrics of a placement are the stored series, each under its own account. -/
theorem Run.placement_metrics (h : Run fingerprint s χ) {config : FleetConfig} {affinity : List Id} {key : Id}
    (hseries : (placementInput s config affinity now).metrics.lookup key = some series) :
    s.metrics.lookup key = some series := by
  rcases lookup_indexed _ hseries with hnone | ⟨hmem, hkey⟩
  · cases hnone
  · obtain ⟨account, -, hlookup⟩ := List.mem_filterMap.mp hmem
    obtain ⟨samples, hbegin, hfeed⟩ := h.series_fed hlookup
    obtain ⟨x, hx, hreport⟩ := feed_report hfeed
    have hown := mem_reportsOf (hbegin.subset hx)
    rw [hreport, hkey] at hown
    rw [hown]
    exact hlookup

theorem choosePlacement_measured {input : PlacementInput} {id key : Id} {ppm : ℕ}
    (h : choosePlacement input = .ok (some (.placed id key ppm))) : ∃ account shard series size,
      account.accountKey = key ∧ Measured input account shard series size := by
  obtain ⟨scan, hscan, h⟩ := bind_ok.mp h
  obtain ⟨-, rfl⟩ := (scanShards_iff _).mp hscan
  rw [foldl_add, List.nil_append] at h
  split at h
  · split at h <;> cases h
  · obtain ⟨winner, hwinner, hplaced⟩ := Option.map_eq_some_iff.mp (Except.ok.inj h)
    cases hplaced
    obtain ⟨shard, -, hcandidate⟩ := List.mem_filterMap.mp (select_mem hwinner)
    obtain ⟨account, -, hcandidate⟩ := Option.bind_eq_some_iff.mp hcandidate
    obtain ⟨⟨series, size⟩, hfresh, hcandidate⟩ := Option.bind_eq_some_iff.mp hcandidate
    dsimp only at hcandidate
    split_ifs at hcandidate
    cases hcandidate
    exact ⟨account, shard, series, size, rfl, freshMetrics_iff.mp hfresh⟩

/-- In every run a mailbox is placed only on an account with accepted reports in three successive buckets. -/
theorem Run.placed_streak (h : Run fingerprint s χ) {config : FleetConfig} {affinity : List Id} {id key : Id} {ppm : ℕ}
    (hplaced : choosePlacement (placementInput s config affinity now) = .ok (some (.placed id key ppm))) :
    ∃ samples, samples <+: reportsOf key χ ∧ ThreeBuckets samples := by
  obtain ⟨account, shard, series, size, rfl, hmeasured⟩ := choosePlacement_measured hplaced
  obtain ⟨samples, hbegin, hfeed⟩ := h.series_fed (h.placement_metrics hmeasured.reported)
  have hpositive : 0 < series.consecutiveValidSamples := by
    have hsamples := hmeasured.samples
    omega
  exact ⟨samples, hbegin, (feed_streak hfeed hpositive).threeBuckets hmeasured.samples⟩

end OneMail.Fleet
