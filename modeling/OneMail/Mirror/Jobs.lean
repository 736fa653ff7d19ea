import Mathlib
import OneMail.Js.JsString
import OneMail.Lib.Interleave
import OneMail.Lib.KeyValue
import OneMail.Lib.Table

/-! Native mail and its mirror in the unified inbox.

    `email()` stores a message in `raw_mails` with the marker `mirror_pending`, mirrors it, and clears the
    marker; a mirror that fails is queued. `reconcileUnifiedMirrorJobs` queues marked rows that have no
    mirror, and `processUnifiedMirrorJobs` works the queue off under leases. Every statement or batch is
    one step; a run that crashes is a task that never moves again. A statement that fails may have been
    applied. `saveUnifiedEmail` inserts the row, ignores it as a duplicate, or throws. -/

namespace OneMail.Mirror

open Interleave Table
open KeyValue (Map putNew lookup_put lookup_del lookup_putNewAll)

def mirrorBatchLimit : ℕ := 20
def mirrorReconcileBatchLimit : ℕ := 100
def mirrorBaseDelayMs : ℤ := 60000
def mirrorMaxDelayMs : ℤ := 21600000
def mirrorLeaseMs : ℤ := 300000

/-- The text `native-` and a uuid, by the number of the draw. -/
abbrev UnifiedId := ℕ

structure RawMail where
  id : ℕ
  unifiedId : Option UnifiedId
  mirrorPending : Bool
  deriving DecidableEq

structure MirrorJob where
  rawMailId : ℕ
  nextAttemptAt : ℤ
  attempts : ℕ
  lastError : JsString
  createdAt : ℤ
  updatedAt : ℤ
  deriving DecidableEq

/-- The three tables, the emails by their id, and the uuids drawn. -/
structure Store where
  rawMails : List RawMail
  jobs : Map UnifiedId MirrorJob
  emails : Finset UnifiedId
  uuids : ℕ

/-- A due job joined with its raw mail. -/
structure MirrorRow where
  jobUnifiedId : UnifiedId
  rawMailId : ℕ
  attempts : ℕ
  raw : Option RawMail

/-- `unified_id` of the joined row: null without a raw mail. -/
def MirrorRow.unifiedId (row : MirrorRow) : Option UnifiedId := row.raw.bind (·.unifiedId)

/-! ### Statements -/

/-- `UPDATE raw_mails SET mirror_pending = 0 WHERE unified_id = ? AND mirror_pending = 1`. -/
def Store.clearPending (s : Store) (u : UnifiedId) : Store :=
  { s with
    rawMails := updateWhere (fun r => r.unifiedId = some u && r.mirrorPending)
      (fun r => { r with mirrorPending := false }) s.rawMails }

/-- `DELETE FROM unified_mirror_jobs WHERE unified_id = ? AND next_attempt_at = ?`. -/
def Store.deleteJob (s : Store) (u : UnifiedId) (leaseUntil : ℤ) : Store :=
  match s.jobs.lookup u with
  | some job => if job.nextAttemptAt = leaseUntil then { s with jobs := s.jobs.erase u } else s
  | none => s

/-- `INSERT OR IGNORE INTO emails`, by `saveUnifiedEmail`. -/
def Store.insertEmail (s : Store) (u : UnifiedId) : Store := { s with emails := insert u s.emails }

/-- The batch of `enqueueUnifiedMirror`. -/
def Store.enqueue (s : Store) (rawMailId : ℕ) (u : UnifiedId) (error : JsString) (now : ℤ) : Store :=
  Store.clearPending { s with
    jobs := s.jobs.insert u (match s.jobs.lookup u with
      | some job => { job with nextAttemptAt := now, lastError := error.take 100, updatedAt := now }
      | none => ⟨rawMailId, now, 0, error.take 100, now, now⟩) } u

def safeLimit (cap : ℕ) (limit : ℤ) : ℕ := if 0 < limit then min limit.toNat cap else cap

/-- The page that `reconcileUnifiedMirrorJobs` selects. -/
def Store.pendingPage (s : Store) (limit : ℤ) : List ℕ :=
  (selectTop (·.mirrorPending) (fun a b => a.id ≤ b.id) (safeLimit mirrorReconcileBatchLimit limit)
    s.rawMails).map (·.id)

/-- The rows of the page that have neither a mirror nor a job. -/
def Store.unmirrored (s : Store) (page : List ℕ) : List (UnifiedId × ℕ) :=
  s.rawMails.filterMap fun r => r.unifiedId.bind fun u =>
    if r.id ∈ page ∧ u ∉ s.emails ∧ s.jobs.lookup u = none then some (u, r.id) else none

/-- The batch of `reconcileUnifiedMirrorJobs`: the page was selected in an earlier round trip. -/
def Store.reconcile (s : Store) (page : List ℕ) (now : ℤ) : Store :=
  { s with
    jobs := (s.unmirrored page).foldl
      (putNew (·.1) fun e => ⟨e.2, now, 0, js "reconciled", now, now⟩) s.jobs
    rawMails := updateWhere (fun r => r.id ∈ page && r.mirrorPending)
      (fun r => { r with mirrorPending := false }) s.rawMails }

def createdBefore (a b : Σ _ : UnifiedId, MirrorJob) : Prop := a.2.createdAt ≤ b.2.createdAt

instance : DecidableRel createdBefore := fun _ _ => inferInstanceAs (Decidable (_ ≤ _))

/-- The due jobs that `processUnifiedMirrorJobs` selects, joined with the raw mails as they are now. -/
def Store.dueRows (s : Store) (now limit : ℤ) : List MirrorRow :=
  (selectTop (·.2.nextAttemptAt ≤ now) createdBefore (safeLimit mirrorBatchLimit limit)
    s.jobs.entries).map fun e =>
      ⟨e.1, e.2.rawMailId, e.2.attempts, s.rawMails.find? (·.unifiedId = some e.1)⟩

/-- The lease, unless the job is gone or not due. -/
def Store.lease (s : Store) (u : UnifiedId) (dueAt : ℤ) : Option Store :=
  match s.jobs.lookup u with
  | some job =>
    if job.nextAttemptAt ≤ dueAt then
      some { s with
        jobs := s.jobs.insert u { job with nextAttemptAt := dueAt + mirrorLeaseMs, updatedAt := dueAt } }
    else none
  | none => none

def retryDelay (attempts : ℕ) : ℤ :=
  min mirrorMaxDelayMs (mirrorBaseDelayMs * 2 ^ min (attempts - 1) 9)

/-- The retry is scheduled if the lease is still held. -/
def Store.reschedule (s : Store) (row : MirrorRow) (leaseUntil : ℤ) (error : JsString) (now : ℤ) :
    Store :=
  match s.jobs.lookup row.jobUnifiedId with
  | some job =>
    if job.nextAttemptAt = leaseUntil then
      { s with
        jobs := s.jobs.insert row.jobUnifiedId { job with
          attempts := row.attempts + 1
          nextAttemptAt := now + retryDelay (row.attempts + 1)
          lastError := error.take 100
          updatedAt := now } }
    else s
  | none => s

/-! ### What the statements leave -/

section Statements

variable {s s' : Store} {u v : UnifiedId} {row : MirrorRow} {leaseUntil dueAt now : ℤ} {page : List ℕ}
  {error : JsString} {rawMailId : ℕ}

def Store.Queued (s : Store) (u : UnifiedId) : Prop := s.jobs.lookup u ≠ none

def Store.Pending (s : Store) (u : UnifiedId) : Prop :=
  ∃ r ∈ s.rawMails, r.unifiedId = some u ∧ r.mirrorPending = true

/-- The raw mail is there. -/
def Store.Present (s : Store) (u : UnifiedId) : Prop := ∃ r ∈ s.rawMails, r.unifiedId = some u

theorem clearPending_pending : (s.clearPending u).Pending v ↔ s.Pending v ∧ v ≠ u := by
  simp only [Store.Pending, Store.clearPending]
  constructor
  · rintro ⟨_, hmem, hv, hp⟩
    obtain ⟨r, hr, rfl⟩ := mem_updateWhere.mp hmem
    by_cases hclear : r.unifiedId = some u ∧ r.mirrorPending = true
    · simp [hclear] at hp
    · rw [if_neg (by simpa using hclear)] at hv hp
      refine ⟨⟨r, hr, hv, hp⟩, ?_⟩
      rintro rfl
      exact hclear ⟨hv, hp⟩
  · rintro ⟨⟨r, hr, hv, hp⟩, hne⟩
    refine ⟨r, mem_updateWhere.mpr ⟨r, hr, ?_⟩, hv, hp⟩
    rw [if_neg]
    simp [hv, hne]

/-- The rows keep their ids under the statements that clear markers. -/
theorem clear_mem (p : RawMail → Bool) (rawMails : List RawMail) {id : ℕ} {w : Option UnifiedId} :
    (∃ r ∈ updateWhere p (fun r => { r with mirrorPending := false }) rawMails,
      r.id = id ∧ r.unifiedId = w) ↔ ∃ r ∈ rawMails, r.id = id ∧ r.unifiedId = w := by
  constructor
  · rintro ⟨_, hr, rfl, rfl⟩
    obtain ⟨r, hr', heq⟩ := mem_updateWhere.mp hr
    refine ⟨r, hr', ?_⟩
    rw [heq]
    split <;> exact ⟨rfl, rfl⟩
  · rintro ⟨r, hr, rfl, rfl⟩
    refine ⟨_, mem_updateWhere_of_mem hr, ?_⟩
    split <;> exact ⟨rfl, rfl⟩

/-- Clearing markers keeps every raw mail. -/
theorem clear_present (p : RawMail → Bool) : Store.Present { s with
    rawMails := updateWhere p (fun r => { r with mirrorPending := false }) s.rawMails } v ↔
    s.Present v := by
  constructor
  · rintro ⟨r, hr, hv⟩
    obtain ⟨r, hr, -, hv⟩ := (clear_mem p s.rawMails).mp ⟨r, hr, rfl, hv⟩
    exact ⟨r, hr, hv⟩
  · rintro ⟨r, hr, hv⟩
    obtain ⟨r, hr, -, hv⟩ := (clear_mem p s.rawMails).mpr ⟨r, hr, rfl, hv⟩
    exact ⟨r, hr, hv⟩

theorem deleteJob_rawMails : (s.deleteJob u leaseUntil).rawMails = s.rawMails := by
  rw [Store.deleteJob]
  split
  · split <;> rfl
  · rfl

theorem deleteJob_emails : (s.deleteJob u leaseUntil).emails = s.emails := by
  rw [Store.deleteJob]
  split
  · split <;> rfl
  · rfl

theorem deleteJob_uuids : (s.deleteJob u leaseUntil).uuids = s.uuids := by
  rw [Store.deleteJob]
  split
  · split <;> rfl
  · rfl

theorem deleteJob_queued (h : (s.deleteJob u leaseUntil).Queued v) : s.Queued v := by
  rw [Store.deleteJob] at h
  split at h
  · split at h
    · rw [Store.Queued, lookup_del] at h
      split at h
      · exact absurd rfl h
      · exact h
    · exact h
  · exact h

theorem deleteJob_queued_ne (h : s.Queued v) (hne : v ≠ u) : (s.deleteJob u leaseUntil).Queued v := by
  rw [Store.deleteJob]
  split
  · split
    · rw [Store.Queued, lookup_del, if_neg hne]
      exact h
    · exact h
  · exact h

theorem enqueue_queued : (s.enqueue rawMailId u error now).Queued v ↔ v = u ∨ s.Queued v := by
  rw [Store.Queued, Store.enqueue, Store.clearPending, lookup_put, Store.Queued]
  split
  · rename_i h
    simp [h]
  · rename_i h
    simp [h]

/-- A lease, and likewise a retry, only rewrites a job that is there. -/
structure Rewrites (s s' : Store) : Prop where
  rawMails : s'.rawMails = s.rawMails
  emails : s'.emails = s.emails
  uuids : s'.uuids = s.uuids
  queued : ∀ v, s'.Queued v ↔ s.Queued v

theorem rewrites_insert {job job' : MirrorJob} (h : s.jobs.lookup u = some job) :
    Rewrites s { s with jobs := s.jobs.insert u job' } := by
  refine ⟨rfl, rfl, rfl, fun v => ?_⟩
  rw [Store.Queued, lookup_put, Store.Queued]
  split
  · rename_i hv
    rw [hv, h]
    simp
  · rfl

theorem lease_some (h : s.lease u dueAt = some s') : Rewrites s s' ∧ s.Queued u := by
  rw [Store.lease] at h
  split at h
  · rename_i job hjob
    split at h
    · obtain rfl := Option.some.inj h
      exact ⟨rewrites_insert hjob, by rw [Store.Queued, hjob]; simp⟩
    · cases h
  · cases h

theorem reschedule_rewrites : Rewrites s (s.reschedule row leaseUntil error now) := by
  rw [Store.reschedule]
  split
  · rename_i job hjob
    split
    · exact rewrites_insert hjob
    · exact ⟨rfl, rfl, rfl, fun _ => .rfl⟩
  · exact ⟨rfl, rfl, rfl, fun _ => .rfl⟩

theorem mem_unmirrored {e : UnifiedId × ℕ} : e ∈ s.unmirrored page ↔
    (∃ r ∈ s.rawMails, r.id = e.2 ∧ r.unifiedId = some e.1) ∧ e.2 ∈ page ∧ e.1 ∉ s.emails ∧
      ¬ s.Queued e.1 := by
  simp only [Store.unmirrored, List.mem_filterMap, Option.bind_eq_some_iff, Store.Queued, not_not]
  constructor
  · rintro ⟨r, hr, w, hw, he⟩
    split at he
    · rename_i hcond
      obtain rfl := Option.some.inj he
      exact ⟨⟨r, hr, rfl, hw⟩, hcond⟩
    · cases he
  · rintro ⟨⟨r, hr, hid, hw⟩, hcond⟩
    refine ⟨r, hr, e.1, hw, ?_⟩
    rw [hid, if_pos hcond]

theorem reconcile_queued : (s.reconcile page now).Queued v ↔
    s.Queued v ∨ ∃ e ∈ s.unmirrored page, e.1 = v := lookup_putNewAll v _

end Statements

/-! ### Tasks -/

/-- Where a run of `email()`, of one of the two recovery functions or of `deleteEmail` stands. -/
inductive Task where
  | idle
  /-- `email()` has stored the message and mirrors it. -/
  | saving (u : UnifiedId) (rawMailId : Option ℕ)
  | marking (u : UnifiedId) (rawMailId : Option ℕ)
  | enqueueing (u : UnifiedId) (rawMailId : ℕ) (error : JsString)
  | reconciling (page : List ℕ)
  | processing (rows : List MirrorRow)
  /-- The leased row has no raw mail. -/
  | dropping (row : MirrorRow) (leaseUntil : ℤ) (rest : List MirrorRow)
  | mirroring (u : UnifiedId) (row : MirrorRow) (leaseUntil : ℤ) (rest : List MirrorRow)
  | finishing (u : UnifiedId) (row : MirrorRow) (leaseUntil : ℤ) (rest : List MirrorRow)
  | rescheduling (row : MirrorRow) (leaseUntil : ℤ) (error : JsString) (rest : List MirrorRow)
  /-- `deleteEmail` has loaded the row. -/
  | deleting (u : UnifiedId)

/-- The mirror of `email()` failed: it is queued if the row id is known. -/
def Task.failed (u : UnifiedId) (error : JsString) : Option ℕ → Task
  | some rawMailId => .enqueueing u rawMailId error
  | none => .idle

def Task.leased (row : MirrorRow) (leaseUntil : ℤ) (rest : List MirrorRow) : Task :=
  match row.unifiedId with
  | some u => .mirroring u row leaseUntil rest
  | none => .dropping row leaseUntil rest

inductive Event where
  /-- `email()` stored the message. -/
  | stored (u : UnifiedId)
  /-- The emails row was inserted. -/
  | inserted (u : UnifiedId)
  /-- `deleteEmail` deleted the emails row. -/
  | deleted (u : UnifiedId)
  /-- The raw mail was deleted. -/
  | discarded (u : UnifiedId)
  deriving DecidableEq

/-- The insertion is an event unless the row is there. -/
def Store.insertion (s : Store) (u : UnifiedId) : List Event := if u ∈ s.emails then [] else [.inserted u]

inductive MirrorStep : Store → Task → Store → Task → List Event → Prop
  | receive {s} (id : ℕ) (known : Bool) : (∀ r ∈ s.rawMails, r.id ≠ id) →
      MirrorStep s .idle
        { s with
          uuids := s.uuids + 1
          rawMails := s.rawMails ++ [⟨id, some s.uuids, true⟩] }
        (.saving s.uuids (if known then some id else none)) [.stored s.uuids]
  | save {s u rawMailId} :
      MirrorStep s (.saving u rawMailId) (s.insertEmail u) (.marking u rawMailId) (s.insertion u)
  | saveFails {s u rawMailId} (error : JsString) :
      MirrorStep s (.saving u rawMailId) s (.failed u error rawMailId) []
  | saveThrows {s u rawMailId} (error : JsString) :
      MirrorStep s (.saving u rawMailId) (s.insertEmail u) (.failed u error rawMailId) (s.insertion u)
  | mark {s u rawMailId} : MirrorStep s (.marking u rawMailId) (s.clearPending u) .idle []
  | markFails {s u rawMailId} (error : JsString) :
      MirrorStep s (.marking u rawMailId) s (.failed u error rawMailId) []
  | markThrows {s u rawMailId} (error : JsString) :
      MirrorStep s (.marking u rawMailId) (s.clearPending u) (.failed u error rawMailId) []
  | enqueue {s u rawMailId error} (now : ℤ) :
      MirrorStep s (.enqueueing u rawMailId error) (s.enqueue rawMailId u error now) .idle []
  | select {s} (limit : ℤ) : MirrorStep s .idle s (.reconciling (s.pendingPage limit)) []
  | reconcile {s page} (now : ℤ) : MirrorStep s (.reconciling page) (s.reconcile page now) .idle []
  | due {s} (now limit : ℤ) : MirrorStep s .idle s (.processing (s.dueRows now limit)) []
  | finished {s} : MirrorStep s (.processing []) s .idle []
  | skip {s row rest} (dueAt : ℤ) : s.lease row.jobUnifiedId dueAt = none →
      MirrorStep s (.processing (row :: rest)) s (.processing rest) []
  | lease {s s' row rest} (dueAt : ℤ) : s.lease row.jobUnifiedId dueAt = some s' →
      MirrorStep s (.processing (row :: rest)) s' (.leased row (dueAt + mirrorLeaseMs) rest) []
  | drop {s row leaseUntil rest} :
      MirrorStep s (.dropping row leaseUntil rest) (s.deleteJob row.jobUnifiedId leaseUntil)
        (.processing rest) []
  | mirror {s u row leaseUntil rest} :
      MirrorStep s (.mirroring u row leaseUntil rest) (s.insertEmail u) (.finishing u row leaseUntil rest)
        (s.insertion u)
  | mirrorFails {s u row leaseUntil rest} (error : JsString) :
      MirrorStep s (.mirroring u row leaseUntil rest) s (.rescheduling row leaseUntil error rest) []
  | mirrorThrows {s u row leaseUntil rest} (error : JsString) :
      MirrorStep s (.mirroring u row leaseUntil rest) (s.insertEmail u)
        (.rescheduling row leaseUntil error rest) (s.insertion u)
  | finish {s u row leaseUntil rest} :
      MirrorStep s (.finishing u row leaseUntil rest)
        ((s.clearPending u).deleteJob row.jobUnifiedId leaseUntil) (.processing rest) []
  | finishFails {s u row leaseUntil rest} (error : JsString) :
      MirrorStep s (.finishing u row leaseUntil rest) s (.rescheduling row leaseUntil error rest) []
  | finishThrows {s u row leaseUntil rest} (error : JsString) :
      MirrorStep s (.finishing u row leaseUntil rest)
        ((s.clearPending u).deleteJob row.jobUnifiedId leaseUntil)
        (.rescheduling row leaseUntil error rest) []
  | reschedule {s row leaseUntil error rest} (now : ℤ) :
      MirrorStep s (.rescheduling row leaseUntil error rest) (s.reschedule row leaseUntil error now)
        (.processing rest) []
  | openDelete {s u} : u ∈ s.emails → MirrorStep s .idle s (.deleting u) []
  | delete {s u} :
      MirrorStep s (.deleting u) { s with emails := s.emails.erase u } .idle
        (if u ∈ s.emails then [.deleted u] else [])
  /-- The raw mails that a condition names are deleted by another part of the program. -/
  | discard {s} (p : RawMail → Bool) :
      MirrorStep s .idle { s with rawMails := deleteWhere p s.rawMails } .idle
        (((s.rawMails.filter p).filterMap (·.unifiedId)).map .discarded)
  /-- The emails rows that a condition names are deleted by another part of the program. -/
  | purge {s} (p : UnifiedId → Bool) :
      MirrorStep s .idle { s with emails := s.emails.filter fun u => !p u } .idle []

/-- Mails from before the markers have no unified id. -/
def Store.Initial (s : Store) : Prop :=
  s.jobs = ∅ ∧ s.emails = ∅ ∧ s.uuids = 0 ∧ (s.rawMails.map (·.id)).Nodup ∧
    ∀ r ∈ s.rawMails, r.unifiedId = none ∧ r.mirrorPending = false

def mirror : Prog Store Task Event where
  idle := .idle
  init := Store.Initial
  step := MirrorStep

end OneMail.Mirror
