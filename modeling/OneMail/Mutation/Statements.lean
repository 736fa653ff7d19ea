import OneMail.Lib.Table
import OneMail.Mutation.Rows

/-! The D1 statements of the mutation queue.

    Every statement and batch that `queueExternalMutation`, `claimMutationJobs`,
    `claimLegacyMutationJobs` and `reportMutationResult` send, as a function on the job table (and,
    for a report, on the `emails` table). The two claim endpoints differ only in the operations
    they see and in the second collapse statement, so they share one definition each. -/

namespace OneMail.Mutation
open JsString Table

structure Store where
  jobs : List JobRow
  emails : List EmailRow
  clock : ℕ
  deriving DecidableEq

/-- `claimMutationJobs` (v2) or the rolling-deploy `claimLegacyMutationJobs`. -/
inductive Endpoint where | v2 | legacy
  deriving DecidableEq

/-- The operations an endpoint hands out: the legacy one never sees move and delete. -/
def Endpoint.sees : Endpoint → Operation → Bool
  | .v2, _ => true
  | .legacy, operation => (desiredStateColumn operation).isSome

/-- A parsed claim request. -/
structure Claim where
  endpoint : Endpoint
  leaseToken : JsString
  limit : ℕ
  deriving DecidableEq

def validClaim (claim : Claim) : Bool :=
  claim.leaseToken ≠ [] && claim.leaseToken.length ≤ 200 && 1 ≤ claim.limit &&
    claim.limit ≤ maxClaim

/-- A parsed report. `retryAfterMs` is absent, not a finite number, or the truncated number. -/
structure Report where
  jobId : JsString
  leaseToken : JsString
  status : ReportStatus
  error : Option JsString
  retryAfterMs : Option (Option ℤ)
  projection : Option MutationProjection
  deriving DecidableEq

/-- What an aggregator observes: a job row it leased, and a report accepted for the row that held
    the lease when the report was written. -/
inductive Event where
  | leased (job : JobRow)
  | reported (job : JobRow) (report : Report) (now : ℕ)
  deriving DecidableEq

/-! ### Enqueue -/

def supersedeRow (now : ℕ) (j : JobRow) : JobRow :=
  { j with status := .superseded, completedAt := some now, updatedAt := now }

/-- `j.rowid < (SELECT rowid FROM mail_mutation_jobs WHERE id = ?)`. -/
def beforeRow (t : List JobRow) (id : JsString) (j : JobRow) : Bool :=
  t.any fun k => k.id = id && j.rowid < k.rowid

/-- `j.rowid > (SELECT rowid FROM mail_mutation_jobs WHERE id = ?)`. -/
def afterRow (t : List JobRow) (id : JsString) (j : JobRow) : Bool :=
  t.any fun k => k.id = id && k.rowid < j.rowid

def supersedeOlderPendingIntent (row : EmailRow) (operation : Operation) (id : JsString) (now : ℕ)
    (t : List JobRow) : List JobRow :=
  if isLocationOperation operation then
    updateWhere (fun j => j.emailId = row.id && isLocationOperation j.operation &&
      j.status = .pending && j.attempts = 0 && j.id ≠ id && beforeRow t id j) (supersedeRow now) t
  else
    updateWhere (fun j => j.emailId = row.id && j.operation = operation && j.status = .pending &&
      j.id ≠ id && beforeRow t id j) (supersedeRow now) t

/-- `UPDATE emails SET <column> = ?, updated_at = ? WHERE id = ?`. -/
def EmailRow.setFlag (column : FlagColumn) (value now : ℕ) (row : EmailRow) : EmailRow :=
  match column with
  | .isRead => { row with isRead := some value, updatedAt := some now }
  | .isStarred => { row with isStarred := some value, updatedAt := some now }

def projectFlag (column : FlagColumn) (value now : ℕ) (emailId : JsString)
    (emails : List EmailRow) : List EmailRow :=
  updateWhere (·.id = emailId) (EmailRow.setFlag column value now) emails

/-! ### Claim -/

def expired (now : ℕ) (j : JobRow) : Bool :=
  j.status = .processing && j.leaseUntil.any (· ≤ now)

def recoverRow (now : ℕ) (j : JobRow) : JobRow :=
  { j with status := .pending, leaseToken := none, leaseUntil := none, updatedAt := now }

def recoverExpired (now : ℕ) (t : List JobRow) : List JobRow :=
  updateWhere (expired now) (recoverRow now) t

/-- A newer pending job of the same email whose operation is in `same`. -/
def newerPending (t : List JobRow) (same : Operation → Bool) (j : JobRow) : Bool :=
  t.any fun k => k.emailId = j.emailId && same k.operation && k.status = .pending &&
    j.rowid < k.rowid

def collapseDesired (now : ℕ) (t : List JobRow) : List JobRow :=
  updateWhere (fun j => j.status = .pending && (desiredStateColumn j.operation).isSome &&
    newerPending t (· = j.operation) j) (supersedeRow now) t

def collapseLocation (now : ℕ) (t : List JobRow) : List JobRow :=
  updateWhere (fun j => j.status = .pending && isLocationOperation j.operation && j.attempts = 0 &&
    newerPending t isLocationOperation j) (supersedeRow now) t

def collapseDuplicatePendingIntents (now : ℕ) (t : List JobRow) : List JobRow :=
  collapseLocation now (collapseDesired now t)

/-- The first batch of a claim: lease recovery, then the collapse of duplicate intents. -/
def Endpoint.repair (endpoint : Endpoint) (now : ℕ) (t : List JobRow) : List JobRow :=
  match endpoint with
  | .v2 => collapseDuplicatePendingIntents now (recoverExpired now t)
  | .legacy => collapseDesired now (recoverExpired now t)

structure Candidate where
  id : JsString
  emailId : JsString
  deriving DecidableEq

/-- Some job of the email is processing. -/
def busy (t : List JobRow) (emailId : JsString) : Bool :=
  t.any fun p => p.emailId = emailId && p.status = .processing

def claimable (claim : Claim) (now : ℕ) (t : List JobRow) (j : JobRow) : Bool :=
  j.status = .pending && claim.endpoint.sees j.operation && j.nextAttemptAt ≤ now &&
    !busy t j.emailId &&
    !t.any fun k => k.emailId = j.emailId && k.status = .pending && k.rowid < j.rowid

/-- `ORDER BY created_at ASC, rowid ASC`. -/
def claimOrder (j k : JobRow) : Prop :=
  j.createdAt < k.createdAt ∨ (j.createdAt = k.createdAt ∧ j.rowid ≤ k.rowid)

instance : DecidableRel claimOrder := fun j k => by unfold claimOrder; infer_instance

def selectCandidates (claim : Claim) (now : ℕ) (t : List JobRow) : List Candidate :=
  (selectTop (claimable claim now t) claimOrder claim.limit t).map fun j => ⟨j.id, j.emailId⟩

/-- The guard of one lease UPDATE; it repeats neither the earlier-pending test nor rowid order. -/
def leasable (claim : Claim) (now : ℕ) (t : List JobRow) (c : Candidate) (j : JobRow) : Bool :=
  j.id = c.id && j.status = .pending && j.nextAttemptAt ≤ now &&
    claim.endpoint.sees j.operation && !busy t c.emailId

def leaseRow (claim : Claim) (now : ℕ) (j : JobRow) : JobRow :=
  { j with
    status := .processing, attempts := j.attempts + 1, leaseToken := some claim.leaseToken,
    leaseUntil := some (now + leaseMs), updatedAt := now }

/-- The lease batch: one UPDATE for each candidate, in order; later leases come first in the
    events. -/
def leaseBatch (claim : Claim) (now : ℕ) : List Candidate → List JobRow → List JobRow × List Event
  | [], t => (t, [])
  | c :: cs, t =>
    let rest := leaseBatch claim now cs
      (updateWhere (leasable claim now t c) (leaseRow claim now) t)
    (rest.1, rest.2 ++ (t.filter (leasable claim now t c)).map fun j => .leased (leaseRow claim now j))

/-- The jobs a claim answers with. -/
def claimedJobs (claim : Claim) (t : List JobRow) : List JobRow :=
  (t.filter fun j => j.status = .processing && j.leaseToken = some claim.leaseToken &&
    claim.endpoint.sees j.operation).insertionSort claimOrder

/-! ### Report -/

/-- The lease fence: `id = ? AND status = 'processing' AND lease_token = ? AND lease_until > ?`. -/
def holdsLease (id token : JsString) (now : ℕ) (j : JobRow) : Bool :=
  j.id = id && j.status = .processing && j.leaseToken = some token && j.leaseUntil.any (now < ·)

def newerIntentExists (t : List JobRow) (job : JobRow) : Bool :=
  t.any fun k => k.emailId = job.emailId &&
    (if isLocationOperation job.operation then isLocationOperation k.operation
      else k.operation = job.operation) &&
    afterRow t job.id k && k.status ≠ .superseded

/-- `body.error ? String(body.error).slice(0, 500) : null`. -/
def Report.errorText (r : Report) : Option JsString :=
  (orElse r.error none).map (List.take 500)

/-- A job closed with a terminal status: the lease is dropped. -/
def closeRow (status : JobStatus) (error : Option JsString) (now : ℕ) (j : JobRow) : JobRow :=
  { j with
    status := status, lastError := error, leaseToken := none, leaseUntil := none,
    completedAt := some now, updatedAt := now }

def retryRow (retryAt : ℕ) (error : Option JsString) (now : ℕ) (j : JobRow) : JobRow :=
  { j with
    status := .pending, nextAttemptAt := retryAt, lastError := error, leaseToken := none,
    leaseUntil := none, updatedAt := now }

/-- The delay of a retry: the requested one, else a doubling backoff, kept within bounds. A backoff
    that overflows a double is not finite and falls to the flat five seconds. -/
def retryAfter (r : Report) (job : JobRow) : ℕ :=
  let clamp := fun n : ℤ => (max 1000 (min maxRetryMs n)).toNat
  match r.retryAfterMs with
  | some none => 5000
  | some (some n) => clamp n
  | none =>
    if 5000 * 2 ^ (job.attempts - 1) < 2 ^ 1024 then clamp (5000 * 2 ^ (job.attempts - 1)) else 5000

/-- What the report makes of the row that still holds its lease. -/
def reportOutcome (r : Report) (job : JobRow) (newer : Bool) (now : ℕ) : JobRow → JobRow :=
  match r.status with
  | .retry =>
    if newer && !isLocationOperation job.operation then closeRow .superseded r.errorText now
    else if maxAttempts ≤ job.attempts && !isLocationOperation job.operation then
      closeRow .failed (orElse r.errorText (some (js "retry limit exceeded"))) now
    else retryRow (now + retryAfter r job) r.errorText now
  | .succeeded => closeRow .succeeded r.errorText now
  | .failed => closeRow .failed r.errorText now
  | .unsupported => closeRow .unsupported r.errorText now

/-- The job status a report asks for. -/
def ReportStatus.jobStatus : ReportStatus → JobStatus
  | .succeeded => .succeeded
  | .retry => .pending
  | .failed => .failed
  | .unsupported => .unsupported

/-- A report closes its row, or puts it back to pending. A retry closes only a read/star job: with
    `superseded` under a newer intent, with `failed` past the retry budget. -/
theorem reportOutcome_spec (r : Report) (job : JobRow) (newer : Bool) (now : ℕ) (j : JobRow) :
    (∃ status error, reportOutcome r job newer now j = closeRow status error now j ∧
      (r.status ≠ .retry ∧ status = r.status.jobStatus ∨
        r.status = .retry ∧ isLocationOperation job.operation = false ∧
          (status = .superseded ∨ status = .failed))) ∨
    (r.status = .retry ∧
      ∃ retryAt error, reportOutcome r job newer now j = retryRow retryAt error now j) := by
  unfold reportOutcome
  cases hr : r.status with
  | retry =>
    dsimp only
    split_ifs with h₁ h₂
    · simp only [Bool.and_eq_true, Bool.not_eq_true'] at h₁
      exact .inl ⟨_, _, rfl, .inr ⟨rfl, h₁.2, .inl rfl⟩⟩
    · simp only [Bool.and_eq_true, Bool.not_eq_true'] at h₂
      exact .inl ⟨_, _, rfl, .inr ⟨rfl, h₂.2, .inr rfl⟩⟩
    · exact .inr ⟨rfl, _, _, rfl⟩
  | _ => exact .inl ⟨_, _, rfl, .inl ⟨by decide, rfl⟩⟩

/-- Some row still holds the lease the report presents. -/
def leaseGuard (r : Report) (job : JobRow) (now : ℕ) (t : List JobRow) : Bool :=
  t.any (holdsLease job.id r.leaseToken now)

/-- `UPDATE emails` of a succeeded move. -/
def relocateEmail (p : MoveProjection) (now : ℕ) (row : EmailRow) : EmailRow :=
  { row with
    sourceFolder := some p.sourceFolder, sourceFolderId := p.sourceFolderId,
    sourceKey := some p.sourceKey, providerMessageId := p.providerMessageId,
    imapUid := if row.provider = some (js "imap") then some p.sourceKey else row.imapUid,
    updatedAt := some now }

/-- The identity a succeeded move writes into the jobs still pending behind it. -/
def relocateRow (p : MoveProjection) (now : ℕ) (j : JobRow) : JobRow :=
  { j with
    sourceFolder := some p.sourceFolder, sourceFolderId := p.sourceFolderId,
    sourceKey := some p.sourceKey, providerMessageId := p.providerMessageId, updatedAt := now }

/-- A job superseded by a succeeded delete of its message. -/
def sweepRow (now : ℕ) (j : JobRow) : JobRow :=
  { j with
    status := .superseded, completedAt := some now, updatedAt := now,
    lastError := some (j.lastError.getD (js "message deleted by earlier provider mutation")) }

/-- Pending jobs of the same email behind the reported one. -/
def pendingBehind (job : JobRow) (t : List JobRow) (j : JobRow) : Bool :=
  j.emailId = job.emailId && j.status = .pending && afterRow t job.id j

/-- What the report's write sends before the statement that closes its job. -/
def beforeClose (s : Store) (r : Report) (job : JobRow) (newer : Bool) (now : ℕ) : Store :=
  match r.status, job.operation with
  | .succeeded, .move =>
    match normalizedMoveProjection job r.projection with
    | none => s
    | some p =>
      if leaseGuard r job now s.jobs then
        { s with
          emails := updateWhere (·.id = job.emailId) (relocateEmail p now) s.emails
          jobs := updateWhere (pendingBehind job s.jobs) (relocateRow p now) s.jobs }
      else s
  | .succeeded, .delete =>
    if leaseGuard r job now s.jobs then
      { s with
        jobs := updateWhere (pendingBehind job s.jobs) (sweepRow now) s.jobs
        emails := deleteWhere (·.id = job.emailId) s.emails }
    else s
  | .succeeded, operation =>
    match desiredStateColumn operation with
    | some column =>
      if !newer && leaseGuard r job now s.jobs then
        { s with
          emails := projectFlag column (if job.desiredValue.getD 0 = 0 then 0 else 1) now
            job.emailId s.emails }
      else s
    | none => s
  | _, _ => s

/-- A move report whose projection does not match its job writes nothing. -/
def acceptsProjection (r : Report) (job : JobRow) : Bool :=
  !(r.status = .succeeded && job.operation = .move) ||
    (normalizedMoveProjection job r.projection).isSome

/-- The final write of `reportMutationResult`: the projection statements and, last in the batch,
    the UPDATE that closes the leased job. Its row count decides the answer. -/
def reportWrite (s : Store) (r : Report) (job : JobRow) (newer : Bool) (now : ℕ) :
    Store × List Event :=
  if acceptsProjection r job then
    let s' := beforeClose s r job newer now
    ({ s' with
        jobs := updateWhere (holdsLease job.id r.leaseToken now) (reportOutcome r job newer now)
          s'.jobs },
      (s'.jobs.filter (holdsLease job.id r.leaseToken now)).map fun j => .reported j r now)
  else (s, [])

end OneMail.Mutation
