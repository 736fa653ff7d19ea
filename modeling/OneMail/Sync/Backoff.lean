import Mathlib

/-! How long the aggregator waits after failures.

    `SyncState` keeps for each account a failure counter and the end of a pause; `Pauses` are the calls
    that write them, `record_failure` and `record_rate_limit_backoff`. `ClaimSchedule` is the schedule of
    a queue, whose `after_claim` follows each drain: a failure that is only a transport stall is retried
    at the base interval, as often as the budget allows, and any other is backed off.

    Python's floats are taken as exact rationals. -/

namespace OneMail.Backoff

/-! ### Pauses of an account -/

/-- The keys of an account under `per_account` that the backoff uses. -/
structure PerAccount where
  failCount : Option ℤ
  skipUntil : Option ℚ
  deriving DecidableEq

structure SyncState where
  perAccount : String → Option PerAccount

/-- `.get(account_id) or {}` -/
def SyncState.get (st : SyncState) (accountId : String) : PerAccount := (st.perAccount accountId).getD ⟨none, none⟩

/-- `get_fail_state` -/
def SyncState.getFailState (st : SyncState) (accountId : String) : ℤ × ℚ :=
  ((st.get accountId).failCount.getD 0, (st.get accountId).skipUntil.getD 0)

def SyncState.put (st : SyncState) (accountId : String) (pa : PerAccount) : SyncState where
  perAccount := fun id => if id = accountId then some pa else st.perAccount id

def nextBackoffOffset (failCount : ℤ) (backoffSec : ℚ) (maxFail : ℤ) : ℚ :=
  if maxFail ≤ failCount then backoffSec else 0

def SyncState.recordFailure (st : SyncState) (accountId : String) (maxFail : ℤ) (backoffSec now : ℚ) : SyncState :=
  let n := (st.getFailState accountId).1 + 1
  let skipUntil :=
    if nextBackoffOffset n backoffSec maxFail ≠ 0 then now + backoffSec else (st.getFailState accountId).2
  st.put accountId ⟨some n, some skipUntil⟩

def SyncState.recordRateLimitBackoff (st : SyncState) (accountId : String) (backoffSec now : ℚ) : SyncState :=
  let n := (st.getFailState accountId).1 + 1
  let skipUntil := max (st.getFailState accountId).2 (now + backoffSec)
  st.put accountId ⟨some n, some skipUntil⟩

def SyncState.shouldSkipAccount (st : SyncState) (accountId : String) (now : ℚ) : Bool :=
  decide (now < (st.getFailState accountId).2)

/-- A call under the lock. -/
inductive Call
  | failure (accountId : String) (maxFail : ℤ) (backoffSec now : ℚ)
  | rateLimit (accountId : String) (backoffSec now : ℚ)

def SyncState.apply (st : SyncState) : Call → SyncState
  | .failure accountId maxFail backoffSec now => st.recordFailure accountId maxFail backoffSec now
  | .rateLimit accountId backoffSec now => st.recordRateLimitBackoff accountId backoffSec now

def SyncState.after (st : SyncState) (calls : List Call) : SyncState := calls.foldl SyncState.apply st

def SyncState.skipUntil (st : SyncState) (accountId : String) : ℚ := (st.getFailState accountId).2

theorem skipUntil_put {st : SyncState} {id accountId : String} {pa : PerAccount} :
    (st.put accountId pa).skipUntil id = if id = accountId then pa.skipUntil.getD 0 else st.skipUntil id := by
  rw [SyncState.skipUntil, SyncState.getFailState, SyncState.get, SyncState.put]
  dsimp only
  by_cases h : id = accountId
  · rw [if_pos h, if_pos h]
    rfl
  · rw [if_neg h, if_neg h]
    rfl

/-- A failure that opens a window finds none that ends later. -/
def Respects (accountId : String) (st : SyncState) : Call → Prop
  | .failure id maxFail backoffSec now =>
    id = accountId → maxFail ≤ (st.getFailState accountId).1 + 1 → backoffSec ≠ 0 →
      st.skipUntil accountId ≤ now + backoffSec
  | .rateLimit _ _ _ => True

/-- One call shrinks the pause exactly if it does not respect it. -/
theorem skipUntil_apply (st : SyncState) (accountId : String) (call : Call) :
    st.skipUntil accountId ≤ (st.apply call).skipUntil accountId ↔ Respects accountId st call := by
  cases call with
  | failure id maxFail backoffSec now =>
    rw [SyncState.apply, SyncState.recordFailure, skipUntil_put, Respects]
    by_cases hid : accountId = id
    · subst hid
      rw [if_pos rfl, nextBackoffOffset]
      by_cases hmax : maxFail ≤ (st.getFailState accountId).1 + 1
      · rw [if_pos hmax]
        by_cases hzero : backoffSec = 0
        · rw [if_neg (not_not.mpr hzero)]
          exact ⟨fun _ _ _ h => absurd hzero h, fun _ => le_refl _⟩
        · rw [if_pos hzero]
          exact ⟨fun h _ _ _ => h, fun h => h rfl hmax hzero⟩
      · rw [if_neg hmax, if_neg (not_not.mpr rfl)]
        exact ⟨fun _ _ h => absurd h hmax, fun _ => le_refl _⟩
    · rw [if_neg hid]
      exact ⟨fun _ h => absurd h.symm hid, fun _ => le_refl _⟩
  | rateLimit id backoffSec now =>
    rw [SyncState.apply, SyncState.recordRateLimitBackoff, skipUntil_put, Respects]
    refine ⟨fun _ => trivial, fun _ => ?_⟩
    split
    · rename_i hid
      rw [← hid]
      exact le_max_left _ _
    · exact le_refl _

/-- The calls have been made up to some point, and go on from there. -/
def NeverShrinks (accountId : String) (st : SyncState) (calls : List Call) : Prop :=
  ∀ earlier later, earlier ++ later <+: calls →
    (st.after earlier).skipUntil accountId ≤ (st.after (earlier ++ later)).skipUntil accountId ∧
    ∀ now, (st.after earlier).shouldSkipAccount accountId now = true →
      (st.after (earlier ++ later)).shouldSkipAccount accountId now = true

def EachRespects (accountId : String) (st : SyncState) (calls : List Call) : Prop :=
  ∀ earlier call, earlier ++ [call] <+: calls → Respects accountId (st.after earlier) call

theorem after_append (st : SyncState) (calls calls' : List Call) :
    st.after (calls ++ calls') = (st.after calls).after calls' := List.foldl_append

/-- The run lemma: what each call respects the whole run does. -/
theorem skipUntil_after {accountId : String} {calls : List Call} : ∀ {st : SyncState},
    EachRespects accountId st calls → st.skipUntil accountId ≤ (st.after calls).skipUntil accountId := by
  induction calls with
  | nil => exact fun _ => le_refl _
  | cons call calls ih =>
    intro st h
    have hfirst : Respects accountId st call := h [] call (by simp)
    have hrest : EachRespects accountId (st.apply call) calls := fun earlier call' hpre =>
      h (call :: earlier) call' (List.cons_prefix_cons.mpr ⟨rfl, hpre⟩)
    exact ((skipUntil_apply st accountId call).mpr hfirst).trans (ih hrest)

theorem skips_of_le {st st' : SyncState} {accountId : String} (h : st.skipUntil accountId ≤ st'.skipUntil accountId)
    {now : ℚ} (hskip : st.shouldSkipAccount accountId now = true) : st'.shouldSkipAccount accountId now = true :=
  decide_eq_true (lt_of_lt_of_le (of_decide_eq_true hskip) h)

/-- A pause never shrinks, and a paused account stays paused, exactly if each failure that opens a window
    finds none that ends later. -/
theorem pauses_never_shrink (accountId : String) (st : SyncState) (calls : List Call) :
    NeverShrinks accountId st calls ↔ EachRespects accountId st calls := by
  constructor
  · intro h earlier call hpre
    rw [← skipUntil_apply]
    have hle := (h earlier [call] hpre).1
    rwa [after_append] at hle
  · intro h earlier later hpre
    have hlater : EachRespects accountId (st.after earlier) later := by
      intro middle call hmiddle
      rw [← after_append]
      refine h (earlier ++ middle) call (List.IsPrefix.trans ?_ hpre)
      rw [List.append_assoc]
      exact (List.prefix_append_right_inj earlier).mpr hmiddle
    have hle : (st.after earlier).skipUntil accountId ≤ (st.after (earlier ++ later)).skipUntil accountId := by
      rw [after_append]
      exact skipUntil_after hlater
    exact ⟨hle, fun now => skips_of_le hle⟩

/-- A server announces a pause of a day; the third failure in a row replaces it by fifteen minutes. -/
theorem announced_pause_shortened : ¬ NeverShrinks "a1" ⟨fun _ => none⟩
    [.rateLimit "a1" 86400 0, .failure "a1" 3 900 60, .failure "a1" 3 900 120] := fun h => by
  have hle := (h [.rateLimit "a1" 86400 0] [.failure "a1" 3 900 60, .failure "a1" 3 900 120] (List.prefix_refl _)).1
  exact absurd hle (by decide +kernel)

/-! ### The schedule of a queue -/

def queueIdleBackoffSeconds : ℚ := 60

def queueIdleConfirmations : ℕ := 3

def queueErrorBackoffSeconds : ℚ := 60

def queueErrorBackoffCapSeconds : ℚ := 300

def queueTransientRetryLimit : ℕ := 5

structure ClaimSchedule where
  nextAt : ℚ
  emptyClaims : ℕ
  errorDelay : ℚ
  transientRetries : ℕ
  deriving DecidableEq

def ClaimSchedule.afterClaim (schedule : ClaimSchedule) (baseInterval : ℚ) (claimed : Option ℕ) (completedAt : ℚ)
    (isTransient : Bool) : ClaimSchedule :=
  match claimed with
  | none =>
    if isTransient = true ∧ schedule.transientRetries < queueTransientRetryLimit then
      ⟨completedAt + baseInterval, 0, 0, schedule.transientRetries + 1⟩
    else
      let delay := max baseInterval
        (min queueErrorBackoffCapSeconds (max queueErrorBackoffSeconds (schedule.errorDelay * 2)))
      ⟨completedAt + delay, 0, delay, 0⟩
  | some 0 =>
    let emptyClaims := min (schedule.emptyClaims + 1) queueIdleConfirmations
    let delay := if queueIdleConfirmations ≤ emptyClaims then max baseInterval queueIdleBackoffSeconds else baseInterval
    ⟨completedAt + delay, emptyClaims, 0, 0⟩
  | some _ => ⟨completedAt + baseInterval, 0, 0, 0⟩

/-- A failed drain: when it was completed, and whether it is a transport stall. -/
structure Failure where
  completedAt : ℚ
  isTransient : Bool

/-- What a failed drain is granted: a retry at the base interval, or a backoff; and the delay. -/
structure Grant where
  retry : Bool
  delay : ℚ
  deriving DecidableEq

/-- A run of failed drains, as the schedules it leaves show it. -/
def grants (baseInterval : ℚ) : ClaimSchedule → List Failure → List Grant
  | _, [] => []
  | schedule, failure :: failures =>
    let next := schedule.afterClaim baseInterval none failure.completedAt failure.isTransient
    ⟨decide (next.transientRetries ≠ 0), next.nextAt - failure.completedAt⟩ :: grants baseInterval next failures

def backoffs (granted : List Grant) : List ℚ := (granted.filter fun g => !g.retry).map (·.delay)

/-- The retries stay within the budget and at the base interval, and the other delays are bounded and
    never decrease. -/
structure BacksOff (baseInterval : ℚ) (granted : List Grant) : Prop where
  budget : (granted.filter (·.retry)).length ≤ queueTransientRetryLimit
  cadence : ∀ g ∈ granted, g.retry = true → g.delay = baseInterval
  bounds : ∀ d ∈ backoffs granted, max baseInterval 60 ≤ d ∧ d ≤ max baseInterval 300
  increasing : (backoffs granted).Pairwise (· ≤ ·)

/-! ### What a run of failures is granted -/

/-- The retries of a run, of which so many were granted in a row before it. -/
def retries : ℕ → List Bool → List Bool
  | _, [] => []
  | n, stall :: stalls =>
    if stall = true ∧ n < queueTransientRetryLimit then true :: retries (n + 1) stalls
    else false :: retries 0 stalls

/-- The delay that follows the error delay. -/
def nextDelay (baseInterval errorDelay : ℚ) : ℚ := max baseInterval (min 300 (max 60 (errorDelay * 2)))

/-- The grants of a run by its retries. -/
def delays (baseInterval : ℚ) : ℚ → List Bool → List Grant
  | _, [] => []
  | _, true :: granted => ⟨true, baseInterval⟩ :: delays baseInterval 0 granted
  | errorDelay, false :: granted =>
    ⟨false, nextDelay baseInterval errorDelay⟩ :: delays baseInterval (nextDelay baseInterval errorDelay) granted

variable {base e : ℚ}

theorem grants_eq (base : ℚ) : ∀ (failures : List Failure) (schedule : ClaimSchedule),
    grants base schedule failures =
      delays base schedule.errorDelay (retries schedule.transientRetries (failures.map (·.isTransient)))
  | [], _ => rfl
  | failure :: failures, schedule => by
    rw [grants, List.map_cons, retries, ClaimSchedule.afterClaim]
    dsimp only
    by_cases h : failure.isTransient = true ∧ schedule.transientRetries < queueTransientRetryLimit
    · rw [if_pos h, if_pos h, delays, grants_eq base failures]
      simp
    · rw [if_neg h, if_neg h, delays, grants_eq base failures]
      simp [nextDelay, queueErrorBackoffCapSeconds, queueErrorBackoffSeconds]

/-- A successful claim leaves no error delay and no retries. -/
theorem afterClaim_some (schedule : ClaimSchedule) (claimed : ℕ) (completedAt : ℚ) (isTransient : Bool) :
    (schedule.afterClaim base (some claimed) completedAt isTransient).errorDelay = 0 ∧
      (schedule.afterClaim base (some claimed) completedAt isTransient).transientRetries = 0 := by
  cases claimed <;> exact ⟨rfl, rfl⟩

theorem filter_retry_delays : ∀ (granted : List Bool) (e : ℚ),
    ((delays base e granted).filter (·.retry)).length = granted.count true
  | [], _ => rfl
  | true :: granted, _ => by
    rw [delays, List.filter_cons_of_pos rfl, List.length_cons, filter_retry_delays granted, List.count_cons_self]
  | false :: granted, _ => by
    rw [delays, List.filter_cons_of_neg Bool.false_ne_true, filter_retry_delays granted]
    simp

theorem retry_delay : ∀ (granted : List Bool) (e : ℚ), ∀ g ∈ delays base e granted, g.retry = true → g.delay = base
  | [], _ => fun _ hg => nomatch hg
  | true :: granted, _ => by
    intro g hg hretry
    rcases List.mem_cons.mp hg with rfl | hg
    · rfl
    · exact retry_delay granted _ g hg hretry
  | false :: granted, e => by
    intro g hg hretry
    rcases List.mem_cons.mp hg with rfl | hg
    · cases hretry
    · exact retry_delay granted _ g hg hretry

/-- The delays that are no retries, by the error delay that they start from. -/
theorem backoffs_true (granted : List Bool) :
    backoffs (delays base e (true :: granted)) = backoffs (delays base 0 granted) := rfl

theorem backoffs_false (granted : List Bool) : backoffs (delays base e (false :: granted)) =
    nextDelay base e :: backoffs (delays base (nextDelay base e) granted) := rfl

theorem nextDelay_bounds (base e : ℚ) : max base 60 ≤ nextDelay base e ∧ nextDelay base e ≤ max base 300 := by
  rw [nextDelay]
  constructor
  · exact max_le_max (le_refl _) (le_min (by norm_num) (le_max_left _ _))
  · exact max_le_max (le_refl _) (min_le_left _ _)

theorem backoffs_bounds : ∀ (granted : List Bool) (e : ℚ), ∀ d ∈ backoffs (delays base e granted),
    max base 60 ≤ d ∧ d ≤ max base 300
  | [], _ => fun _ hd => nomatch hd
  | true :: granted, _ => backoffs_bounds granted 0
  | false :: granted, e => by
    intro d hd
    rw [backoffs_false] at hd
    rcases List.mem_cons.mp hd with rfl | hd
    · exact nextDelay_bounds base e
    · exact backoffs_bounds granted _ d hd

/-! ### When the delays never decrease -/

theorem nextDelay_zero (base : ℚ) : nextDelay base 0 = max base 60 := by
  norm_num [nextDelay]

theorem nextDelay_of_cap (h : 300 ≤ base) : nextDelay base e = base :=
  max_eq_left ((min_le_left _ _).trans h)

/-- Below the cap a delay grows beyond the first one. -/
theorem nextDelay_grows (hbase : base < 300) (hlow : max base 60 ≤ e) (hhigh : e ≤ 300) :
    e ≤ nextDelay base e ∧ max base 60 < nextDelay base e := by
  have h60 : 60 ≤ e := (le_max_right _ _).trans hlow
  have hdouble : max 60 (e * 2) = e * 2 := max_eq_right (by linarith)
  rw [nextDelay, hdouble]
  refine ⟨(le_min hhigh (by linarith)).trans (le_max_right _ _), lt_of_lt_of_le ?_ (le_max_right _ _)⟩
  refine lt_min (max_lt hbase (by norm_num)) (lt_of_le_of_lt hlow (by linarith))

theorem backoffs_of_cap (h : 300 ≤ base) : ∀ (granted : List Bool) (e : ℚ),
    (backoffs (delays base e granted)).Pairwise (· ≤ ·)
  | [], _ => .nil
  | true :: granted, _ => backoffs_of_cap h granted 0
  | false :: granted, e => by
    rw [backoffs_false]
    refine List.pairwise_cons.mpr ⟨fun d hd => ?_, backoffs_of_cap h granted _⟩
    rw [nextDelay_of_cap h]
    exact (le_max_left _ _).trans (backoffs_bounds granted _ d hd).1

theorem backoffs_eq_nil : ∀ {granted : List Bool} {e : ℚ}, false ∉ granted → backoffs (delays base e granted) = []
  | [], _, _ => rfl
  | true :: granted, _, h => by
    rw [backoffs_true]
    exact backoffs_eq_nil fun hmem => h (List.mem_cons_of_mem _ hmem)
  | false :: _, _, h => absurd List.mem_cons_self h

theorem first_mem_backoffs : ∀ {granted : List Bool}, false ∈ granted → max base 60 ∈ backoffs (delays base 0 granted)
  | true :: granted, h => by
    rw [backoffs_true]
    exact first_mem_backoffs ((List.mem_cons.mp h).resolve_left Bool.false_ne_true)
  | false :: granted, _ => by
    rw [backoffs_false, nextDelay_zero]
    exact List.mem_cons_self

theorem pairwise_cons_cons {d d' : ℚ} {ds : List ℚ} (h : d ≤ d') :
    (d :: d' :: ds).Pairwise (· ≤ ·) ↔ (d' :: ds).Pairwise (· ≤ ·) := by
  refine ⟨fun hp => hp.of_cons, fun hp => List.pairwise_cons.mpr ⟨fun x hx => ?_, hp⟩⟩
  rcases List.mem_cons.mp hx with rfl | hx
  · exact h
  · exact h.trans ((List.pairwise_cons.mp hp).1 x hx)

/-- From a delay beyond the first one on: a retry must not be followed by another backoff. -/
theorem grown_pairwise (hbase : base < 300) : ∀ {granted : List Bool} {e : ℚ}, max base 60 < e → e ≤ 300 →
    ((e :: backoffs (delays base e granted)).Pairwise (· ≤ ·) ↔ ¬ [true, false].Sublist granted)
  | [], e, _, _ => by simp [delays, backoffs]
  | true :: granted, e, hlow, _ => by
    rw [backoffs_true, List.cons_sublist_cons, List.singleton_sublist]
    by_cases hmem : false ∈ granted
    · refine ⟨fun h => ?_, fun h => absurd hmem h⟩
      exact absurd ((List.pairwise_cons.mp h).1 _ (first_mem_backoffs hmem)) (not_le.mpr hlow)
    · rw [backoffs_eq_nil hmem]
      exact ⟨fun _ => hmem, fun _ => List.pairwise_singleton _ _⟩
  | false :: granted, e, hlow, hhigh => by
    obtain ⟨hgrows, hbeyond⟩ := nextDelay_grows hbase hlow.le hhigh
    have hcap : nextDelay base e ≤ 300 := (nextDelay_bounds base e).2.trans (max_le hbase.le (le_refl _))
    rw [backoffs_false, pairwise_cons_cons hgrows, grown_pairwise hbase hbeyond hcap]
    refine not_congr ⟨fun h => h.cons _, fun h => ?_⟩
    rcases List.sublist_cons_iff.mp h with h | ⟨r, hr, -⟩
    · exact h
    · cases hr

/-- After two backoffs in a row the rest of the run is not of that kind. -/
def AfterTwo (bad : List Bool → Prop) (run : List Bool) : Prop :=
  ∀ before rest, run = before ++ false :: false :: rest → ¬ bad rest

section
variable {bad : List Bool → Prop} {run : List Bool}

theorem afterTwo_nil : AfterTwo bad [] := fun before rest h => by simp at h

theorem afterTwo_single : AfterTwo bad [false] := fun before rest h => by
  have hlen := congrArg List.length h
  simp at hlen
  omega

theorem afterTwo_true : AfterTwo bad (true :: run) ↔ AfterTwo bad run := by
  refine ⟨fun h before rest hrun => h (true :: before) rest (by rw [hrun]; rfl), fun h before rest hrun => ?_⟩
  rcases List.cons_eq_append_iff.mp hrun with ⟨-, hnil⟩ | ⟨before', rfl, htail⟩
  · cases hnil
  · exact h before' rest htail

theorem afterTwo_false_true : AfterTwo bad (false :: true :: run) ↔ AfterTwo bad run := by
  rw [← @afterTwo_true _ run]
  refine ⟨fun h before rest hrun => h (false :: before) rest (by rw [hrun]; rfl), fun h before rest hrun => ?_⟩
  rcases List.cons_eq_append_iff.mp hrun with ⟨-, hnil⟩ | ⟨before', rfl, htail⟩
  · cases hnil
  · exact h before' rest htail

theorem afterTwo_false_false : AfterTwo bad (false :: false :: run) ↔ ¬ bad run ∧ AfterTwo bad (false :: run) := by
  refine ⟨fun h => ⟨h [] run rfl, fun before rest hrun => h (false :: before) rest (by rw [hrun]; rfl)⟩,
    fun h before rest hrun => ?_⟩
  rcases List.cons_eq_append_iff.mp hrun with ⟨-, hnil⟩ | ⟨before', rfl, htail⟩
  · obtain rfl : rest = run := by simpa using hnil
    exact h.1
  · exact h.2 before' rest htail

/-- If what follows two backoffs has no retry followed by a backoff, neither has any later part. -/
theorem afterTwo_of_not (h : ¬ [true, false].Sublist run) : AfterTwo (fun rest => [true, false].Sublist rest) (false :: run) := by
  intro before rest hrun hbad
  rcases List.cons_eq_append_iff.mp hrun with ⟨-, hnil⟩ | ⟨before', rfl, htail⟩
  · obtain rfl : false :: rest = run := by simpa using hnil
    exact h (hbad.cons _)
  · rw [htail] at h
    refine h (hbad.trans ?_)
    exact ((List.sublist_cons_self _ _).trans (List.sublist_cons_self _ _)).trans (List.sublist_append_right _ _)

end

/-- The delays of a run never decrease exactly if no two backoffs in a row are followed by a retry and
    then another backoff. -/
theorem fresh_pairwise (hbase : base < 300) : ∀ granted : List Bool,
    (backoffs (delays base 0 granted)).Pairwise (· ≤ ·) ↔
      AfterTwo (fun rest => [true, false].Sublist rest) granted
  | [] => ⟨fun _ => afterTwo_nil, fun _ => .nil⟩
  | true :: granted => (fresh_pairwise hbase granted).trans afterTwo_true.symm
  | [false] => ⟨fun _ => afterTwo_single, fun _ => List.pairwise_singleton _ _⟩
  | false :: true :: granted => by
    rw [afterTwo_false_true, ← fresh_pairwise hbase granted, backoffs_false, backoffs_true, List.pairwise_cons]
    refine ⟨fun h => h.2, fun h => ⟨fun d hd => ?_, h⟩⟩
    rw [nextDelay_zero]
    exact (backoffs_bounds granted 0 d hd).1
  | false :: false :: granted => by
    have hfirst : max base 60 ≤ 300 := max_le hbase.le (by norm_num)
    obtain ⟨hgrows, hbeyond⟩ := nextDelay_grows hbase (le_refl _) hfirst
    have hcap : nextDelay base (max base 60) ≤ 300 := (nextDelay_bounds base _).2.trans (max_le hbase.le (le_refl _))
    rw [backoffs_false, backoffs_false, nextDelay_zero, pairwise_cons_cons hgrows, grown_pairwise hbase hbeyond hcap,
      afterTwo_false_false]
    exact ⟨fun h => ⟨h, afterTwo_of_not h⟩, fun h => h.1⟩

/-! ### When the budget is kept -/

/-- Six stalls in a row, of which the sixth finds the budget used up, and other failures around them. -/
def SixInARow (stalls : List Bool) : Prop :=
  ∃ a b, stalls = List.replicate a false ++ (List.replicate 6 true ++ List.replicate b false)

/-- At most as many stalls as the budget has retries, or one more if they come in a row. -/
def FewStalls (stalls : List Bool) : Prop := stalls.count true ≤ queueTransientRetryLimit ∨ SixInARow stalls

theorem count_replicate_false (b : ℕ) : (List.replicate b false).count true = 0 := by
  simp [List.count_replicate]

theorem eq_replicate_of_count {stalls : List Bool} (h : stalls.count true = 0) :
    stalls = List.replicate stalls.length false :=
  List.eq_replicate_iff.mpr ⟨rfl, fun x hx => by
    cases x with
    | false => rfl
    | true => exact absurd hx (List.count_eq_zero.mp h)⟩

theorem sixInARow_false {stalls : List Bool} : SixInARow (false :: stalls) ↔ SixInARow stalls := by
  constructor
  · rintro ⟨a, b, h⟩
    cases a with
    | zero => simp [List.replicate_succ] at h
    | succ a => exact ⟨a, b, by simpa [List.replicate_succ] using h⟩
  · rintro ⟨a, b, h⟩
    exact ⟨a + 1, b, by rw [h]; rfl⟩

theorem sixInARow_true {stalls : List Bool} : SixInARow (true :: stalls) ↔
    ∃ b, stalls = List.replicate 5 true ++ List.replicate b false := by
  constructor
  · rintro ⟨a, b, h⟩
    cases a with
    | zero => exact ⟨b, by simpa [List.replicate_succ] using h⟩
    | succ a => simp [List.replicate_succ] at h
  · rintro ⟨b, h⟩
    exact ⟨0, b, by rw [h]; rfl⟩

/-- The retries of a run when `used` were granted before it, the last `n` of them in a row. -/
theorem retries_budget : ∀ (stalls : List Bool) {n used : ℕ}, n ≤ used → n ≤ 5 →
    (used + (retries n stalls).count true ≤ 5 ↔ used + stalls.count true ≤ 5 ∨
      (n = used ∧ ∃ b, stalls = List.replicate (6 - n) true ++ List.replicate b false) ∨
      (used = 0 ∧ SixInARow stalls))
  | [], n, used, hn, h5 => by
    have hlong : ∀ b, ([] : List Bool) ≠ List.replicate (6 - n) true ++ List.replicate b false := fun b h => by
      have := congrArg List.length h
      simp at this
      omega
    have hsix : ¬ SixInARow [] := fun ⟨a, b, h⟩ => by
      have := congrArg List.length h
      simp at this
    simp [retries, hlong, hsix]
  | false :: stalls, n, used, hn, h5 => by
    have hretries : retries n (false :: stalls) = false :: retries 0 stalls := by
      rw [retries, if_neg (by simp)]
    have hblock : ¬ ∃ b, false :: stalls = List.replicate (6 - n) true ++ List.replicate b false := by
      rintro ⟨b, h⟩
      obtain ⟨k, hk⟩ : ∃ k, 6 - n = k + 1 := ⟨5 - n, by omega⟩
      rw [hk, List.replicate_succ] at h
      simp at h
    rw [hretries, List.count_cons_of_ne (by decide), List.count_cons_of_ne (by decide),
      retries_budget stalls (Nat.zero_le used) (Nat.zero_le 5), sixInARow_false]
    constructor
    · rintro (h | ⟨h, b, hb⟩ | h)
      · exact .inl h
      · exact .inr (.inr ⟨h.symm, 0, b, hb⟩)
      · exact .inr (.inr h)
    · rintro (h | ⟨-, hb⟩ | h)
      · exact .inl h
      · exact absurd hb hblock
      · exact .inr (.inr h)
  | true :: stalls, n, used, hn, h5 => by
    rcases Nat.lt_or_eq_of_le h5 with hlt | rfl
    · -- a retry is granted
      have hretries : retries n (true :: stalls) = true :: retries (n + 1) stalls := by
        rw [retries, if_pos ⟨rfl, hlt⟩]
      have hblock : (∃ b, true :: stalls = List.replicate (6 - n) true ++ List.replicate b false) ↔
          ∃ b, stalls = List.replicate (6 - (n + 1)) true ++ List.replicate b false := by
        rw [show 6 - n = (6 - (n + 1)) + 1 by omega, List.replicate_succ]
        exact exists_congr fun b => by rw [List.cons_append, List.cons.injEq, and_iff_right rfl]
      have hnext := retries_budget stalls (Nat.add_le_add_right hn 1) hlt
      rw [hretries, List.count_cons_self, List.count_cons_self, hblock]
      constructor
      · intro h
        rcases hnext.mp (by omega) with h | ⟨h, hb⟩ | ⟨h, -⟩
        · exact .inl (by omega)
        · exact .inr (.inl ⟨Nat.succ.inj h, hb⟩)
        · exact absurd h (Nat.succ_ne_zero used)
      · intro h
        have hor : used + 1 + stalls.count true ≤ 5 ∨
            (n + 1 = used + 1 ∧ ∃ b, stalls = List.replicate (6 - (n + 1)) true ++ List.replicate b false) ∨
            (used + 1 = 0 ∧ SixInARow stalls) := by
          rcases h with h | ⟨h, hb⟩ | ⟨h, hs⟩
          · exact .inl (by omega)
          · exact .inr (.inl ⟨congrArg _ h, hb⟩)
          · obtain ⟨b, hb⟩ := sixInARow_true.mp hs
            obtain rfl : n = 0 := by omega
            exact .inr (.inl ⟨by omega, b, hb⟩)
        have := hnext.mpr hor
        omega
    · -- the sixth stall in a row
      have hretries : retries 5 (true :: stalls) = false :: retries 0 stalls := by
        rw [retries, if_neg (by simp [queueTransientRetryLimit])]
      rw [hretries, List.count_cons_of_ne (by decide), List.count_cons_self,
        retries_budget stalls (Nat.zero_le used) (Nat.zero_le 5)]
      constructor
      · rintro (h | ⟨h, -⟩ | ⟨h, -⟩)
        · have hzero : stalls.count true = 0 := by omega
          exact .inr (.inl ⟨by omega, stalls.length, by rw [← eq_replicate_of_count hzero]; rfl⟩)
        · omega
        · omega
      · rintro (h | ⟨h, b, hb⟩ | ⟨h, -⟩)
        · omega
        · left
          obtain rfl : stalls = List.replicate b false := by simpa using hb
          rw [count_replicate_false]
          omega
        · omega

theorem budget_kept (stalls : List Bool) : (retries 0 stalls).count true ≤ queueTransientRetryLimit ↔
    FewStalls stalls := by
  have h := retries_budget stalls (le_refl 0) (Nat.zero_le 5)
  rw [Nat.zero_add, Nat.zero_add] at h
  rw [queueTransientRetryLimit, h, FewStalls]
  refine or_congr_right ⟨?_, fun hs => .inr ⟨rfl, hs⟩⟩
  rintro (⟨-, b, hb⟩ | ⟨-, hs⟩)
  · exact ⟨0, b, hb⟩
  · exact hs

/-! ### The run of failures -/

/-- A backoff that grew is not left for a new one: a stall follows it, and then a failure that is backed
    off, which is no stall or the sixth. -/
def Relapse (rest : List Bool) : Prop := [true, false].Sublist rest ∨ (List.replicate 6 true).Sublist rest

theorem retries_of_few : ∀ {stalls : List Bool} {n : ℕ}, n + stalls.count true ≤ 5 → retries n stalls = stalls
  | [], _, _ => rfl
  | false :: stalls, n, h => by
    rw [List.count_cons_of_ne (by decide)] at h
    rw [retries, if_neg (by simp), retries_of_few (by omega)]
  | true :: stalls, n, h => by
    rw [List.count_cons_self] at h
    rw [retries, if_pos ⟨rfl, by rw [queueTransientRetryLimit]; omega⟩, retries_of_few (by omega)]

theorem retries_false (stalls : List Bool) (n : ℕ) : retries n (false :: stalls) = false :: retries 0 stalls := by
  rw [retries, if_neg (by simp)]

theorem retries_replicate (a : ℕ) (stalls : List Bool) :
    retries 0 (List.replicate a false ++ stalls) = List.replicate a false ++ retries 0 stalls := by
  induction a with
  | zero => rfl
  | succ a ih => rw [List.replicate_succ, List.cons_append, retries_false, ih, List.cons_append]

theorem retries_six (b : ℕ) : retries 0 (List.replicate 6 true ++ List.replicate b false) =
    List.replicate 5 true ++ List.replicate (b + 1) false := by
  have hrest : retries 0 (List.replicate b false) = List.replicate b false :=
    retries_of_few (by rw [count_replicate_false]; omega)
  simp [List.replicate_succ, retries, queueTransientRetryLimit, hrest]

theorem afterTwo_replicate {bad : List Bool → Prop} (h : ∀ b, ¬ bad (List.replicate b false)) (b : ℕ) :
    AfterTwo bad (List.replicate b false) := by
  intro before rest hrun hbad
  refine h rest.length ?_
  have hsuffix : rest.Sublist (List.replicate b false) := by
    rw [hrun]
    exact ((List.sublist_cons_self _ _).trans (List.sublist_cons_self _ _)).trans (List.sublist_append_right _ _)
  rwa [← List.eq_replicate_length.mpr fun x hx => List.eq_of_mem_replicate (hsuffix.subset hx)]

theorem relapse_count {rest : List Bool} (h : Relapse rest) : rest.count true ≠ 0 := by
  rcases h with h | h
  · have hcount : 1 ≤ rest.count true := h.count_le true
    omega
  · have hcount : 6 ≤ rest.count true := h.count_le true
    omega

/-- The bad ends of a run in which so many stalls follow the first failures: only if two of these precede. -/
theorem afterTwo_block {bad : List Bool → Prop} {a k b : ℕ} (hbad : ∀ rest, bad rest → rest.count true ≠ 0)
    (hblock : bad (List.replicate k true ++ List.replicate b false)) :
    AfterTwo bad (List.replicate a false ++ (List.replicate k true ++ List.replicate b false)) ↔ a < 2 := by
  have htail : ∀ j, AfterTwo bad (List.replicate j true ++ List.replicate b false) := by
    intro j
    induction j with
    | zero => exact afterTwo_replicate (fun n h => hbad _ h (count_replicate_false n)) b
    | succ j ih => exact afterTwo_true.mpr ih
  match a with
  | 0 => exact ⟨fun _ => Nat.zero_lt_two, fun _ => htail k⟩
  | 1 =>
    refine ⟨fun _ => Nat.one_lt_two, fun _ => ?_⟩
    cases k with
    | zero => exact absurd (count_replicate_false b) (hbad _ hblock)
    | succ k => exact afterTwo_false_true.mpr (htail k)
  | a + 2 =>
    refine ⟨fun h => absurd hblock (h (List.replicate a false) _ ?_), fun h => by omega⟩
    rw [List.replicate_add, List.append_assoc]
    rfl

/-- Within the budget the delays relapse exactly where the stalls make them. -/
theorem afterTwo_retries {stalls : List Bool} (h : FewStalls stalls) :
    AfterTwo (fun rest => [true, false].Sublist rest) (retries 0 stalls) ↔ AfterTwo Relapse stalls := by
  have hpair : ∀ rest : List Bool, [true, false].Sublist rest → rest.count true ≠ 0 :=
    fun rest hr => relapse_count (.inl hr)
  rcases h with h | ⟨a, b, rfl⟩
  · rw [retries_of_few (by rwa [Nat.zero_add])]
    refine forall₃_congr fun before rest hrun => not_congr ⟨.inl, fun hr => hr.resolve_right fun hsix => ?_⟩
    have hcount : 6 ≤ rest.count true := hsix.count_le true
    have hrest : rest.count true ≤ stalls.count true := by
      rw [hrun, List.count_append]
      simp
    rw [queueTransientRetryLimit] at h
    omega
  · rw [retries_replicate, retries_six, afterTwo_block hpair, afterTwo_block fun rest => relapse_count]
    · exact .inr (List.sublist_append_left _ _)
    · exact (List.singleton_sublist.mpr (by simp)).append (List.singleton_sublist.mpr (by simp))

/-- A run of failures after a success backs off as it should exactly if its stalls are few, and no stall
    interrupts a backoff that has grown and goes on later. -/
theorem queue_backs_off (base : ℚ) (schedule : ClaimSchedule) (claimed : ℕ) (completedAt : ℚ) (isTransient : Bool)
    (failures : List Failure) :
    BacksOff base (grants base (schedule.afterClaim base (some claimed) completedAt isTransient) failures) ↔
      FewStalls (failures.map (·.isTransient)) ∧
        (300 ≤ base ∨ AfterTwo Relapse (failures.map (·.isTransient))) := by
  obtain ⟨hdelay, hretries⟩ := @afterClaim_some base schedule claimed completedAt isTransient
  rw [grants_eq, hdelay, hretries]
  generalize failures.map (·.isTransient) = stalls
  have hparts : BacksOff base (delays base 0 (retries 0 stalls)) ↔
      FewStalls stalls ∧ (backoffs (delays base 0 (retries 0 stalls))).Pairwise (· ≤ ·) := by
    rw [← budget_kept]
    refine ⟨fun h => ⟨@filter_retry_delays base (retries 0 stalls) 0 ▸ h.budget, h.increasing⟩, fun h => ⟨?_,
      retry_delay _ 0, backoffs_bounds _ 0, h.2⟩⟩
    rw [filter_retry_delays]
    exact h.1
  rw [hparts]
  refine and_congr_right fun hfew => ?_
  rcases le_or_gt 300 base with hcap | hbase
  · exact ⟨fun _ => .inl hcap, fun _ => backoffs_of_cap hcap _ 0⟩
  · rw [fresh_pairwise hbase, afterTwo_retries hfew, or_iff_right (not_le.mpr hbase)]

/-- The start of a daemon, as after a success. -/
def freshSchedule : ClaimSchedule := (⟨0, 0, 0, 0⟩ : ClaimSchedule).afterClaim 5 (some 1) 0 false

/-- Five stalls, a failure and another stall: six retries at the base interval. -/
theorem budget_renewed : ¬ BacksOff 5 (grants 5 freshSchedule
    [⟨5, true⟩, ⟨10, true⟩, ⟨15, true⟩, ⟨20, true⟩, ⟨25, true⟩, ⟨30, false⟩, ⟨90, true⟩]) := fun h =>
  absurd h.budget (by decide +kernel)

end OneMail.Backoff
