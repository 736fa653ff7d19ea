import OneMail.Js.JsString
import OneMail.Lib.Interleave
import OneMail.Lib.Table
import OneMail.Outbound.Jobs

/-! The lease queue of outbound jobs, statement by statement (`outbound_jobs.ts`).

    A claim recovers expired leases, selects ready jobs, leases them in one batch and reads them back; a report reads
    the job under its lease, reads the clock again and writes. Each of these D1 round trips is a step of its own, among
    those of any other claims and reports, new jobs, the pruning of old ones and the clock. Every claim brings a token
    that no claim has brought before. -/

namespace OneMail.Leases
open JsString Table Interleave
open Outbound (Status maxAttempts reportOutboundResult)

def maxClaim : ℕ := 50
def leaseMs : ℕ := 60000
def maxRetryMs : ℤ := 5 * 60000

/-! ### Rows -/

inductive JobStatus where | pending | processing | succeeded | failed | unsupported
  deriving DecidableEq

def JobStatus.terminal : JobStatus → Bool
  | .pending | .processing => false
  | _ => true

/-- The columns of `outbound_mail_jobs` that the endpoints write or select by. -/
structure JobRow where
  id : JsString
  status : JobStatus
  attempts : ℕ
  nextAttemptAt : ℕ
  leaseToken : Option JsString
  leaseUntil : Option ℕ
  providerMessageId : Option JsString
  lastError : Option JsString
  createdAt : ℕ
  updatedAt : ℕ
  completedAt : Option ℕ
  deriving DecidableEq

/-- The table in rowid order; `issued` are the tokens that claims have brought, `spent` those of which the lease batch
    has run. -/
structure Store where
  jobs : List JobRow
  clock : ℕ
  issued : List JsString
  spent : List JsString
  deriving DecidableEq

def newJob (id : JsString) (now : ℕ) : JobRow := ⟨id, .pending, 0, 0, none, none, none, none, now, now, none⟩

/-- A parsed claim request. -/
structure Claim where
  leaseToken : JsString
  limit : ℕ
  deriving DecidableEq

def validClaim (claim : Claim) : Bool :=
  claim.leaseToken ≠ [] && claim.leaseToken.length ≤ 200 && 1 ≤ claim.limit && claim.limit ≤ maxClaim

/-- A parsed report. `retryAfterMs` is absent, not a finite number, or the truncated number. -/
structure Report where
  jobId : JsString
  leaseToken : JsString
  status : Status
  error : Option JsString
  retryAfterMs : Option (Option ℤ)
  providerMessageId : Option JsString
  deriving DecidableEq

/-- A job as leased, with the clock then; a job as an accepted report found and left it; a job pruned; the jobs a claim
    is answered with. -/
inductive Event where
  | leased (job : JobRow) (now : ℕ)
  | reported (job job' : JobRow)
  | pruned (job : JobRow)
  | answered (jobs : List JobRow) (leaseUntil : ℕ)
  deriving DecidableEq

/-! ### Claim -/

def expired (now : ℕ) (j : JobRow) : Bool := j.status = .processing && j.leaseUntil.any (· ≤ now)

def recoverRow (now : ℕ) (j : JobRow) : JobRow :=
  { j with status := .pending, leaseToken := none, leaseUntil := none, updatedAt := now }

def recoverExpired (now : ℕ) (t : List JobRow) : List JobRow := updateWhere (expired now) (recoverRow now) t

def ready (now : ℕ) (j : JobRow) : Bool := j.status = .pending && j.nextAttemptAt ≤ now

/-- `ORDER BY created_at ASC, rowid ASC`: the sort keeps the order of the table. -/
def claimOrder (j k : JobRow) : Prop := j.createdAt ≤ k.createdAt

instance : DecidableRel claimOrder := fun j k => by unfold claimOrder; infer_instance

def selectCandidates (claim : Claim) (now : ℕ) (t : List JobRow) : List JsString :=
  (selectTop (ready now) claimOrder claim.limit t).map (·.id)

def leaseRow (claim : Claim) (now : ℕ) (j : JobRow) : JobRow :=
  { j with
    status := .processing, attempts := j.attempts + 1, leaseToken := some claim.leaseToken,
    leaseUntil := some (now + leaseMs), updatedAt := now }

/-- One UPDATE for each candidate. -/
def leaseBatch (claim : Claim) (now : ℕ) (candidates : List JsString) (t : List JobRow) : List JobRow :=
  candidates.foldl (fun t id => updateWhere (fun j => j.id = id && ready now j) (leaseRow claim now) t) t

/-- The row is leased by the batch. -/
def leasable (now : ℕ) (candidates : List JsString) (j : JobRow) : Bool := decide (j.id ∈ candidates) && ready now j

def claimedJobs (claim : Claim) (t : List JobRow) : List JobRow :=
  (t.filter fun j => j.status = .processing && j.leaseToken = some claim.leaseToken).insertionSort claimOrder

/-! ### Report -/

/-- `id = ? AND status = 'processing' AND lease_token = ? AND lease_until IS NOT NULL AND lease_until > ?` -/
def holdsLease (id token : JsString) (now : ℕ) (j : JobRow) : Bool :=
  j.id = id && j.status = .processing && j.leaseToken = some token && j.leaseUntil.any (now < ·)

/-- `body.error ? String(body.error).slice(0, 1000) : null` -/
def Report.errorText (r : Report) : Option JsString := (orElse r.error none).map (List.take 1000)

/-- The delay of a retry: the requested one, else a doubling backoff, kept within bounds. -/
def retryAfter (r : Report) (attempts : ℕ) : ℕ :=
  let clamp := fun n : ℤ => (max 1000 (min maxRetryMs n)).toNat
  match r.retryAfterMs with
  | some none => 5000
  | some (some n) => clamp n
  | none => clamp (5000 * 2 ^ (attempts - 1))

def closeRow (status : JobStatus) (error : Option JsString) (now : ℕ) (j : JobRow) : JobRow :=
  { j with
    status := status, lastError := error, leaseToken := none, leaseUntil := none, completedAt := some now,
    updatedAt := now }

def retryRow (retryAt : ℕ) (error : Option JsString) (now : ℕ) (j : JobRow) : JobRow :=
  { j with
    status := .pending, nextAttemptAt := retryAt, lastError := error, leaseToken := none, leaseUntil := none,
    updatedAt := now }

def terminalRow (status : JobStatus) (r : Report) (now : ℕ) (j : JobRow) : JobRow :=
  { closeRow status r.errorText now j with providerMessageId := r.providerMessageId.map fun id => (trim id).take 256 }

/-- What the report writes; `attempts` is what its first read has found. -/
def reportRow (r : Report) (attempts now : ℕ) : JobRow → JobRow :=
  match r.status with
  | .retry =>
    if maxAttempts ≤ attempts then closeRow .failed (orElse r.errorText (some (js "retry limit exceeded"))) now
    else retryRow (now + retryAfter r attempts) r.errorText now
  | .succeeded => terminalRow .succeeded r now
  | .failed => terminalRow .failed r now
  | .unsupported => terminalRow .unsupported r now

/-! ### The system -/

/-- Where a call stands. -/
inductive Call where
  | idle
  | claiming (claim : Claim) (now : ℕ)
  | recovered (claim : Claim) (now : ℕ)
  | selected (claim : Claim) (now : ℕ) (candidates : List JsString)
  | leased (claim : Claim) (now : ℕ)
  | reporting (r : Report) (claimNow : ℕ)
  | fetched (r : Report) (attempts : ℕ)
  | writing (r : Report) (attempts now : ℕ)

/-- `pruneTerminalJobs` deletes some of these. -/
def prunable (cutoff : ℕ) (j : JobRow) : Bool := j.status.terminal && j.completedAt.getD j.updatedAt < cutoff

inductive QueueStep : Store → Call → Store → Call → List Event → Prop
  | tick {s} (d : ℕ) : QueueStep s .idle { s with clock := s.clock + d } .idle []
  | enqueue {s} (id : JsString) (now : ℕ) (h : ∀ j ∈ s.jobs, j.id ≠ id) :
      QueueStep s .idle { s with jobs := s.jobs ++ [newJob id now] } .idle []
  | prune {s} (cutoff : ℕ) (p : JobRow → Bool) (h : ∀ j, p j = true → prunable cutoff j = true) :
      QueueStep s .idle { s with jobs := deleteWhere p s.jobs } .idle ((s.jobs.filter p).map .pruned)
  -- claims
  | beginClaim {s} (claim : Claim) (h : validClaim claim) (hnew : claim.leaseToken ∉ s.issued) :
      QueueStep s .idle { s with issued := claim.leaseToken :: s.issued } (.claiming claim s.clock) []
  | recover {s claim now} :
      QueueStep s (.claiming claim now) { s with jobs := recoverExpired now s.jobs } (.recovered claim now) []
  | select {s claim now} :
      QueueStep s (.recovered claim now) s (.selected claim now (selectCandidates claim now s.jobs)) []
  | lease {s claim now candidates} :
      QueueStep s (.selected claim now candidates)
        { s with jobs := leaseBatch claim now candidates s.jobs, spent := claim.leaseToken :: s.spent }
        (.leased claim now)
        ((s.jobs.filter (leasable now candidates)).map fun j => .leased (leaseRow claim now j) s.clock)
  | answerClaim {s claim now} :
      QueueStep s (.leased claim now) s .idle [.answered (claimedJobs claim s.jobs) (now + leaseMs)]
  -- reports
  | beginReport {s} (r : Report) (h : r.leaseToken ≠ []) : QueueStep s .idle s (.reporting r s.clock) []
  | fetch {s r claimNow} (job : JobRow) (h : s.jobs.find? (holdsLease r.jobId r.leaseToken claimNow) = some job) :
      QueueStep s (.reporting r claimNow) s (.fetched r job.attempts) []
  | stale {s r claimNow} (h : s.jobs.find? (holdsLease r.jobId r.leaseToken claimNow) = none) :
      QueueStep s (.reporting r claimNow) s .idle []
  | readClock {s r attempts} : QueueStep s (.fetched r attempts) s (.writing r attempts s.clock) []
  | write {s r attempts now} :
      QueueStep s (.writing r attempts now)
        { s with jobs := updateWhere (holdsLease r.jobId r.leaseToken now) (reportRow r attempts now) s.jobs } .idle
        ((s.jobs.filter (holdsLease r.jobId r.leaseToken now)).map fun j => .reported j (reportRow r attempts now j))

/-- The queue: an empty table, and calls that have not started. -/
def queue : Prog Store Call Event where
  idle := .idle
  init s := s.jobs = [] ∧ s.issued = [] ∧ s.spent = []
  step := QueueStep

/-! ### What the statements do to a row -/

variable {j : JobRow} {claim : Claim} {r : Report} {attempts now : ℕ}

@[simp] theorem recoverRow_id : (recoverRow now j).id = j.id := rfl

@[simp] theorem leaseRow_id : (leaseRow claim now j).id = j.id := rfl

theorem holdsLease_iff {id token : JsString} : holdsLease id token now j = true ↔
    j.id = id ∧ j.status = .processing ∧ j.leaseToken = some token ∧ ∃ u, j.leaseUntil = some u ∧ now < u := by
  simp only [holdsLease, Bool.and_eq_true, decide_eq_true_iff, Option.any_eq_true, and_assoc]

theorem ready_iff : ready now j = true ↔ j.status = .pending ∧ j.nextAttemptAt ≤ now := by
  simp only [ready, Bool.and_eq_true, decide_eq_true_iff]

theorem expired_iff : expired now j = true ↔ j.status = .processing ∧ ∃ u, j.leaseUntil = some u ∧ u ≤ now := by
  simp only [expired, Bool.and_eq_true, decide_eq_true_iff, Option.any_eq_true]

/-- The batch leases the candidates that are still ready. -/
theorem leaseBatch_eq (t : List JobRow) (candidates : List JsString) :
    leaseBatch claim now candidates t = updateWhere (leasable now candidates) (leaseRow claim now) t := by
  induction candidates generalizing t with
  | nil => exact (updateWhere_eq_self fun j _ => by simp [leasable]).symm
  | cons id candidates ih =>
    rw [leaseBatch, List.foldl_cons, ← leaseBatch, ih, updateWhere, updateWhere, updateWhere, List.map_map]
    refine List.map_congr_left fun j _ => ?_
    rw [Function.comp_apply]
    by_cases hid : j.id = id
    · by_cases hready : ready now j = true
      · have hdone : ready now (leaseRow claim now j) = false := by simp [ready, leaseRow]
        simp [leasable, hid, hready, hdone]
      · simp [leasable, hid, hready]
    · simp [leasable, hid]

/-- A report closes the job, or puts it back to pending while its attempts last. -/
theorem reportRow_spec (r : Report) (attempts now : ℕ) (j : JobRow) :
    (reportRow r attempts now j).id = j.id ∧ (reportRow r attempts now j).leaseToken = none ∧
      ((reportRow r attempts now j).status.terminal = true ∨
        (reportRow r attempts now j).status = .pending ∧ attempts < maxAttempts) := by
  unfold reportRow
  cases r.status with
  | retry =>
    dsimp only
    split_ifs with h
    · exact ⟨rfl, rfl, .inl rfl⟩
    · exact ⟨rfl, rfl, .inr ⟨rfl, not_le.mp h⟩⟩
  | succeeded => exact ⟨rfl, rfl, .inl rfl⟩
  | failed => exact ⟨rfl, rfl, .inl rfl⟩
  | unsupported => exact ⟨rfl, rfl, .inl rfl⟩

/-- The status of an attempt as the attempts of a job have it. -/
def ofAttempt : Outbound.JobStatus → JobStatus
  | .pending => .pending
  | .succeeded => .succeeded
  | .failed => .failed
  | .unsupported => .unsupported

theorem reportRow_status : (reportRow r attempts now j).status = ofAttempt (reportOutboundResult attempts r.status) := by
  unfold reportRow reportOutboundResult
  cases r.status with
  | retry =>
    dsimp only
    split_ifs <;> rfl
  | succeeded => rfl
  | failed => rfl
  | unsupported => rfl

end OneMail.Leases
