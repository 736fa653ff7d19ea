import OneMail.Lib.Batch
import OneMail.Mutation.Mailbox

/-! A report from its first read to its answer (`reportMutationResult`).

    The handler reads the job and its newer intents, reads the clock again, and sends one statement or one batch. The
    reads and the write meet three states of the database, whatever other requests do in between. Every statement
    repeats the lease guard as a subquery of its own: a batch that finds the lease gone writes nothing, and one that
    finds it writes everything (`moveStatements_held`, `deleteStatements_held`). -/

namespace OneMail.Mutation
open JsString Table Batch

/-! ### The statements -/

/-- `UPDATE mail_mutation_jobs SET … WHERE …`; the condition may look at the whole table. -/
def updateJobs (p : List JobRow → JobRow → Bool) (f : JobRow → JobRow) : Statement Store := fun s =>
  some ({ s with jobs := updateWhere (p s.jobs) f s.jobs }, (s.jobs.filter (p s.jobs)).length)

/-- `UPDATE emails SET … WHERE …`, which the unique indexes may refuse. -/
def updateEmails (p : Store → EmailRow → Bool) (f : EmailRow → EmailRow) : Statement Store := fun s =>
  let emails := updateWhere (p s) f s.emails
  if Unique emails then some ({ s with emails := emails }, (s.emails.filter (p s)).length) else none

/-- `DELETE FROM emails WHERE …` -/
def deleteEmails (p : Store → EmailRow → Bool) : Statement Store := fun s =>
  some ({ s with emails := deleteWhere (p s) s.emails }, (s.emails.filter (p s)).length)

variable (r : Report) (job : JobRow) (now : ℕ)

/-- An UPDATE of the job under its lease, as every terminal or retry statement is. -/
def leasedStatement (f : JobRow → JobRow) : Statement Store := updateJobs (fun _ => holdsLease job.id r.leaseToken now) f

def terminalJobStatement (status : JobStatus) (error : Option JsString) : Statement Store :=
  leasedStatement r job now (closeRow status error now)

def moveStatements (p : MoveProjection) : List (Statement Store) :=
  [updateEmails (fun s row => row.id = job.emailId && leaseGuard r job now s.jobs) (relocateEmail p now),
    updateJobs (fun t j => pendingBehind job t j && leaseGuard r job now t) (relocateRow p now),
    terminalJobStatement r job now .succeeded r.errorText]

def deleteStatements : List (Statement Store) :=
  [updateJobs (fun t j => pendingBehind job t j && leaseGuard r job now t) (sweepRow now),
    deleteEmails fun s row => row.id = job.emailId && leaseGuard r job now s.jobs,
    terminalJobStatement r job now .succeeded r.errorText]

def desiredStatements (newer : Bool) : List (Statement Store) :=
  (if newer then [] else
    [updateEmails (fun s row => row.id = job.emailId && leaseGuard r job now s.jobs)
      (EmailRow.setFlag (if job.operation = .setRead then .isRead else .isStarred)
        (if job.desiredValue.getD 0 = 0 then 0 else 1) now)]) ++
    [terminalJobStatement r job now .succeeded r.errorText]

/-! ### The handler -/

inductive Answer where
  | reported (status : JobStatus)
  | invalidResult
  | staleLease
  | invalidProjection
  /-- The batch broke a constraint. -/
  | thrown
  deriving DecidableEq

def Answer.isError : Answer → Bool
  | .reported _ => false
  | _ => true

/-- What a retry asks of the row, and the status it is answered with. -/
def retryPlan (newer : Bool) : List (Statement Store) × JobStatus :=
  if newer && !isLocationOperation job.operation then
    ([leasedStatement r job now (closeRow .superseded r.errorText now)], .superseded)
  else if maxAttempts ≤ job.attempts && !isLocationOperation job.operation then
    ([leasedStatement r job now (closeRow .failed (orElse r.errorText (some (js "retry limit exceeded"))) now)], .failed)
  else ([leasedStatement r job now (retryRow (now + retryAfter r job) r.errorText now)], .pending)

/-- The statements of a report and the status they are answered with, or the answer given without them. -/
def reportPlan (newer : Bool) : Except Answer (List (Statement Store) × JobStatus) :=
  match r.status, job.operation with
  | .retry, _ => .ok (retryPlan r job now newer)
  | .failed, _ => .ok ([terminalJobStatement r job now .failed r.errorText], .failed)
  | .unsupported, _ => .ok ([terminalJobStatement r job now .unsupported r.errorText], .unsupported)
  | .succeeded, .move =>
    match normalizedMoveProjection job r.projection with
    | none => .error .invalidProjection
    | some p => .ok (moveStatements r job now p, .succeeded)
  | .succeeded, .delete => .ok (deleteStatements r job now, .succeeded)
  | .succeeded, _ => .ok (desiredStatements r job now newer, .succeeded)

/-- What the handler has decided when it comes to write. The body is `none` when it names none of the four statuses;
    `s₀` and `s₁` are the states at its two reads. -/
def reportReads (body : Option Report) (s₀ s₁ : Store) (claimNow now : ℕ) :
    Except Answer (List (Statement Store) × JobStatus) :=
  match body with
  | none => .error .invalidResult
  | some r =>
    if r.leaseToken = [] then .error .invalidResult
    else match s₀.jobs.find? (holdsLease r.jobId r.leaseToken claimNow) with
      | none => .error .staleLease
      | some job => reportPlan r job now (newerIntentExists s₁.jobs job)

/-- The state after the call and its answer; `s` is the state at the write. -/
def reportMutationResult (body : Option Report) (s₀ s₁ s : Store) (claimNow now : ℕ) : Store × Answer :=
  match reportReads body s₀ s₁ claimNow now with
  | .error answer => (s, answer)
  | .ok (statements, status) =>
    match run statements s with
    | none => (s, .thrown)
    | some (s', counts) => (s', if changes counts = 1 then .reported status else .staleLease)

/-! ### Without the lease -/

variable {r : Report} {job : JobRow} {now : ℕ} {s s₀ s₁ : Store}

theorem fenced_updateJobs {p : List JobRow → JobRow → Bool} {f : JobRow → JobRow}
    (h : ∀ t j, leaseGuard r job now t = false → j ∈ t → p t j = false) :
    Fenced (fun s => leaseGuard r job now s.jobs) (updateJobs p f) := by
  intro s out hg hout
  cases hout
  have hnone := fun j hj => h s.jobs j hg hj
  rw [updateWhere_eq_self hnone, List.filter_eq_nil_iff.mpr fun j hj => by rw [hnone j hj]; exact Bool.false_ne_true]
  rfl

theorem fenced_leasedStatement (f : JobRow → JobRow) :
    Fenced (fun s => leaseGuard r job now s.jobs) (leasedStatement r job now f) :=
  fenced_updateJobs fun t j hg hj => by
    rw [leaseGuard, List.any_eq_false] at hg
    exact Bool.eq_false_of_not_eq_true (hg j hj)

theorem fenced_updateEmails {p : EmailRow → Bool} {f : EmailRow → EmailRow} :
    Fenced (fun s => leaseGuard r job now s.jobs) (updateEmails (fun s row => p row && leaseGuard r job now s.jobs) f) := by
  intro s out hg hout
  dsimp only at hg
  have hnone : ∀ row ∈ s.emails, (p row && leaseGuard r job now s.jobs) = false := fun row _ => by rw [hg, Bool.and_false]
  simp only [updateEmails] at hout
  split at hout
  · cases hout
    rw [updateWhere_eq_self hnone,
      List.filter_eq_nil_iff.mpr fun row hrow => by rw [hnone row hrow]; exact Bool.false_ne_true]
    rfl
  · cases hout

theorem fenced_deleteEmails {p : EmailRow → Bool} :
    Fenced (fun s => leaseGuard r job now s.jobs) (deleteEmails fun s row => p row && leaseGuard r job now s.jobs) := by
  intro s out hg hout
  cases hout
  simp [hg, deleteWhere]

/-- Every statement of a report carries the guard. -/
theorem reportPlan_fenced {newer : Bool} {statements : List (Statement Store)} {status : JobStatus}
    (h : reportPlan r job now newer = .ok (statements, status)) :
    ∀ statement ∈ statements, Fenced (fun s => leaseGuard r job now s.jobs) statement := by
  have hjobs : ∀ f, Fenced (fun s => leaseGuard r job now s.jobs)
      (updateJobs (fun t j => pendingBehind job t j && leaseGuard r job now t) f) := fun f =>
    fenced_updateJobs fun t j hg _ => by rw [hg, Bool.and_false]
  unfold reportPlan at h
  split at h
  · obtain rfl : (retryPlan r job now newer).1 = statements := congrArg Prod.fst (Except.ok.inj h)
    rw [retryPlan]
    split_ifs <;> exact List.forall_mem_singleton.mpr (fenced_leasedStatement _)
  · cases h
    exact List.forall_mem_singleton.mpr (fenced_leasedStatement _)
  · cases h
    exact List.forall_mem_singleton.mpr (fenced_leasedStatement _)
  · split at h
    · cases h
    · cases h
      simp only [moveStatements, List.forall_mem_cons, List.not_mem_nil, false_imp_iff, implies_true, and_true]
      exact ⟨fenced_updateEmails, hjobs _, fenced_leasedStatement _⟩
  · cases h
    simp only [deleteStatements, List.forall_mem_cons, List.not_mem_nil, false_imp_iff, implies_true, and_true]
    exact ⟨hjobs _, fenced_deleteEmails, fenced_leasedStatement _⟩
  · cases h
    rw [desiredStatements]
    intro statement hmem
    rcases List.mem_append.mp hmem with hmem | hmem
    · split at hmem
      · cases hmem
      · obtain rfl := List.mem_singleton.mp hmem
        exact fenced_updateEmails
    · obtain rfl := List.mem_singleton.mp hmem
      exact fenced_leasedStatement _

/-- Without the lease nothing is written, and the answer is an error. -/
theorem report_fenced (body : Option Report) (claimNow : ℕ)
    (h : ∀ r, body = some r → s.jobs.any (holdsLease r.jobId r.leaseToken now) = false) :
    (reportMutationResult body s₀ s₁ s claimNow now).1 = s ∧
      (reportMutationResult body s₀ s₁ s claimNow now).2.isError = true := by
  rw [reportMutationResult]
  cases hreads : reportReads body s₀ s₁ claimNow now with
  | error answer =>
    refine ⟨rfl, ?_⟩
    unfold reportReads at hreads
    split at hreads
    · cases hreads
      rfl
    · split at hreads
      · cases hreads
        rfl
      · split at hreads
        · cases hreads
          rfl
        · unfold reportPlan at hreads
          split at hreads <;> first | cases hreads | skip
          split at hreads <;> cases hreads
          rfl
  | ok plan =>
    obtain ⟨statements, status⟩ := plan
    obtain ⟨r, job, newer, hjob, hbody, hplan⟩ : ∃ r job newer, job.id = r.jobId ∧ body = some r ∧
        reportPlan r job now newer = .ok (statements, status) := by
      unfold reportReads at hreads
      split at hreads
      · cases hreads
      · split at hreads
        · cases hreads
        · split at hreads
          · cases hreads
          · rename_i r _ _ job hfind
            exact ⟨r, job, _, (holdsLease_iff.mp (List.find?_some hfind)).1, rfl, hreads⟩
    have hguard : leaseGuard r job now s.jobs = false := by
      rw [leaseGuard, hjob]
      exact h r hbody
    dsimp only
    cases hrun : run statements s with
    | none => exact ⟨rfl, rfl⟩
    | some out =>
      obtain ⟨hsame, hzero⟩ := @run_fenced Store (fun s => leaseGuard r job now s.jobs) s hguard _
        (reportPlan_fenced hplan) _ hrun
      refine ⟨hsame, ?_⟩
      dsimp only
      rw [changes_eq_zero hzero]
      rfl

/-! ### Under the lease -/

/-- The statements on the jobs behind leave them pending or closed. -/
def KeepsUnleased (behind : JobRow → JobRow) : Prop := ∀ j, j.status = .pending → (behind j).status ≠ .processing

theorem relocateRow_unleased (p : MoveProjection) : KeepsUnleased (relocateRow p now) := fun j h => by
  rw [relocateRow, h]
  decide

theorem sweepRow_unleased : KeepsUnleased (sweepRow now) := fun _ _ h => by cases h

variable {behind : JobRow → JobRow} {t : List JobRow} {j : JobRow}

theorem not_held_of_behind (h : pendingBehind job t j = true) : holdsLease job.id r.leaseToken now j = false := by
  simp only [pendingBehind, Bool.and_eq_true, decide_eq_true_iff] at h
  simp [holdsLease, h.1.2]

/-- Rewriting the jobs behind does not change who holds the lease. -/
theorem holdsLease_behind (hbehind : KeepsUnleased behind) :
    holdsLease job.id r.leaseToken now (if pendingBehind job t j then behind j else j) =
      holdsLease job.id r.leaseToken now j := by
  by_cases h : pendingBehind job t j = true
  · rw [if_pos h, not_held_of_behind h]
    simp only [pendingBehind, Bool.and_eq_true, decide_eq_true_iff] at h
    simp [holdsLease, hbehind j h.1.2]
  · rw [if_neg h]

theorem leaseGuard_behind (hbehind : KeepsUnleased behind) :
    leaseGuard r job now (updateWhere (pendingBehind job t) behind t) = leaseGuard r job now t := by
  rw [leaseGuard, updateWhere, List.any_map]
  congr 1
  funext j
  exact holdsLease_behind hbehind

theorem held_once (hids : (t.map (·.id)).Nodup) (hg : leaseGuard r job now t = true) :
    (t.filter (holdsLease job.id r.leaseToken now)).length = 1 := by
  obtain ⟨h, hh, hl⟩ := List.any_eq_true.mp hg
  rw [filter_eq_singleton hids hh hl fun k _ hk => (holdsLease_iff.mp hk).1.trans (holdsLease_iff.mp hl).1.symm]
  rfl

/-- The job is closed as succeeded, and the jobs pending behind it are rewritten. -/
def settle (r : Report) (job : JobRow) (now : ℕ) (behind : JobRow → JobRow) (t : List JobRow) : List JobRow :=
  t.map fun j =>
    if holdsLease job.id r.leaseToken now j then closeRow .succeeded r.errorText now j
    else if pendingBehind job t j then behind j else j

/-- A succeeded move: the email and the jobs pending behind have the new identity. -/
def moved (s : Store) (r : Report) (job : JobRow) (now : ℕ) (p : MoveProjection) : Store :=
  { s with
    emails := updateWhere (·.id = job.emailId) (relocateEmail p now) s.emails
    jobs := settle r job now (relocateRow p now) s.jobs }

/-- A succeeded delete: the email is gone and the jobs pending behind are superseded. -/
def deleted (s : Store) (r : Report) (job : JobRow) (now : ℕ) : Store :=
  { s with
    emails := deleteWhere (·.id = job.emailId) s.emails
    jobs := settle r job now (sweepRow now) s.jobs }

theorem behindStatement_held (hg : leaseGuard r job now s.jobs = true) :
    updateJobs (fun t j => pendingBehind job t j && leaseGuard r job now t) behind s =
      some ({ s with jobs := updateWhere (pendingBehind job s.jobs) behind s.jobs },
        (s.jobs.filter (pendingBehind job s.jobs)).length) := by
  simp only [updateJobs, hg, Bool.and_true]

/-- The two updates of the jobs, one after the other. -/
theorem settle_eq (hbehind : KeepsUnleased behind) :
    updateWhere (holdsLease job.id r.leaseToken now) (closeRow .succeeded r.errorText now)
      (updateWhere (pendingBehind job t) behind t) = settle r job now behind t := by
  rw [updateWhere, updateWhere, List.map_map, settle]
  refine List.map_congr_left fun j _ => ?_
  rw [Function.comp_apply, holdsLease_behind hbehind]
  by_cases h : pendingBehind job t j = true
  · rw [if_pos h, if_neg (by rw [not_held_of_behind h]; exact Bool.false_ne_true),
      if_neg (by rw [not_held_of_behind h]; exact Bool.false_ne_true)]
  · rw [if_neg h]

/-- The last statement of the batch finds the lease and closes one job. -/
theorem terminal_held (hids : (s.jobs.map (·.id)).Nodup) (hg : leaseGuard r job now s.jobs = true)
    (hbehind : KeepsUnleased behind) :
    terminalJobStatement r job now .succeeded r.errorText
        { s with jobs := updateWhere (pendingBehind job s.jobs) behind s.jobs } =
      some ({ s with jobs := settle r job now behind s.jobs }, 1) := by
  have hone : ((updateWhere (pendingBehind job s.jobs) behind s.jobs).filter
      (holdsLease job.id r.leaseToken now)).length = 1 := by
    rw [updateWhere, List.filter_map, List.length_map, ← held_once hids hg]
    congr 2
    funext j
    exact holdsLease_behind hbehind
  simp only [terminalJobStatement, leasedStatement, updateJobs, settle_eq hbehind, hone]

theorem moveStatements_held (hids : (s.jobs.map (·.id)).Nodup) (hg : leaseGuard r job now s.jobs = true)
    (p : MoveProjection) : (run (moveStatements r job now p) s).map (fun out => (out.1, changes out.2)) =
      if Unique (moved s r job now p).emails then some (moved s r job now p, 1) else none := by
  have hemails : updateEmails (fun s row => row.id = job.emailId && leaseGuard r job now s.jobs) (relocateEmail p now) s =
      if Unique (moved s r job now p).emails then
        some ({ s with emails := (moved s r job now p).emails }, (s.emails.filter (·.id = job.emailId)).length)
      else none := by
    simp only [updateEmails, hg, Bool.and_true]
    rfl
  split_ifs at hemails ⊢ with hunique
  · rw [moveStatements, run_cons hemails,
      run_cons (behindStatement_held (s := { s with emails := (moved s r job now p).emails }) hg),
      run_cons (terminal_held (s := { s with emails := (moved s r job now p).emails }) hids hg (relocateRow_unleased p))]
    rfl
  · rw [moveStatements, run, hemails]
    rfl

theorem deleteStatements_held (hids : (s.jobs.map (·.id)).Nodup) (hg : leaseGuard r job now s.jobs = true) :
    (run (deleteStatements r job now) s).map (fun out => (out.1, changes out.2)) = some (deleted s r job now, 1) := by
  have hemails : deleteEmails (fun s row => row.id = job.emailId && leaseGuard r job now s.jobs)
      { s with jobs := updateWhere (pendingBehind job s.jobs) (sweepRow now) s.jobs } =
      some ({ s with
        jobs := updateWhere (pendingBehind job s.jobs) (sweepRow now) s.jobs
        emails := (deleted s r job now).emails }, (s.emails.filter (·.id = job.emailId)).length) := by
    simp only [deleteEmails, leaseGuard_behind sweepRow_unleased, hg, Bool.and_true]
    rfl
  rw [deleteStatements, run_cons (behindStatement_held hg), run_cons hemails,
    run_cons (terminal_held (s := { s with emails := (deleted s r job now).emails }) hids hg sweepRow_unleased)]
  rfl

/-- The call as its plan and the counts of its batch. -/
theorem reportMutationResult_ok {body : Option Report} {claimNow : ℕ} {statements : List (Statement Store)}
    {status : JobStatus} (h : reportReads body s₀ s₁ claimNow now = .ok (statements, status)) :
    reportMutationResult body s₀ s₁ s claimNow now =
      match (run statements s).map (fun out => (out.1, changes out.2)) with
      | none => (s, .thrown)
      | some (s', n) => (s', if n = 1 then .reported status else .staleLease) := by
  rw [reportMutationResult, h]
  dsimp only
  cases run statements s <;> rfl

theorem reportReads_some {claimNow : ℕ} (htoken : r.leaseToken ≠ [])
    (hread : s₀.jobs.find? (holdsLease r.jobId r.leaseToken claimNow) = some job) :
    reportReads (some r) s₀ s₁ claimNow now = reportPlan r job now (newerIntentExists s₁.jobs job) := by
  simp only [reportReads, if_neg htoken, hread]

theorem report_move {claimNow : ℕ} (hids : (s.jobs.map (·.id)).Nodup) (htoken : r.leaseToken ≠ [])
    (hread : s₀.jobs.find? (holdsLease r.jobId r.leaseToken claimNow) = some job)
    (hg : s.jobs.any (holdsLease r.jobId r.leaseToken now) = true) (hr : r.status = .succeeded)
    (hmove : job.operation = .move) : reportMutationResult (some r) s₀ s₁ s claimNow now =
      match normalizedMoveProjection job r.projection with
      | none => (s, .invalidProjection)
      | some p => if Unique (moved s r job now p).emails then (moved s r job now p, .reported .succeeded) else (s, .thrown) := by
  rw [← (holdsLease_iff.mp (List.find?_some hread)).1] at hg
  have hplan : reportReads (some r) s₀ s₁ claimNow now = _ := reportReads_some htoken hread
  cases hp : normalizedMoveProjection job r.projection with
  | none =>
    simp only [reportPlan, hr, hmove, hp] at hplan
    rw [reportMutationResult, hplan]
  | some p =>
    simp only [reportPlan, hr, hmove, hp] at hplan
    rw [reportMutationResult_ok hplan, moveStatements_held hids hg]
    dsimp only
    split_ifs <;> rfl

theorem report_delete {claimNow : ℕ} (hids : (s.jobs.map (·.id)).Nodup) (htoken : r.leaseToken ≠ [])
    (hread : s₀.jobs.find? (holdsLease r.jobId r.leaseToken claimNow) = some job)
    (hg : s.jobs.any (holdsLease r.jobId r.leaseToken now) = true) (hr : r.status = .succeeded)
    (hdelete : job.operation = .delete) :
    reportMutationResult (some r) s₀ s₁ s claimNow now = (deleted s r job now, .reported .succeeded) := by
  rw [← (holdsLease_iff.mp (List.find?_some hread)).1] at hg
  have hplan : reportReads (some r) s₀ s₁ claimNow now = _ := reportReads_some htoken hread
  simp only [reportPlan, hr, hdelete] at hplan
  rw [reportMutationResult_ok hplan, deleteStatements_held hids hg]
  rfl

/-- A call whose job is not leased under its token at the write writes nothing and answers an error. Under the lease a
    succeeded delete takes effect as a whole, and so does a succeeded move, unless its projection is refused or its
    batch breaks a unique index: then nothing does. -/
theorem report_fenced_atomic (body : Option Report) (s₀ s₁ : Store) (claimNow : ℕ) (hids : (s.jobs.map (·.id)).Nodup) :
    ((∀ r, body = some r → s.jobs.any (holdsLease r.jobId r.leaseToken now) = false) →
      (reportMutationResult body s₀ s₁ s claimNow now).1 = s ∧
        (reportMutationResult body s₀ s₁ s claimNow now).2.isError = true) ∧
    ∀ r job, body = some r → r.leaseToken ≠ [] →
      s₀.jobs.find? (holdsLease r.jobId r.leaseToken claimNow) = some job →
      s.jobs.any (holdsLease r.jobId r.leaseToken now) = true → r.status = .succeeded →
        (job.operation = .move → reportMutationResult body s₀ s₁ s claimNow now =
          match normalizedMoveProjection job r.projection with
          | none => (s, .invalidProjection)
          | some p =>
            if Unique (moved s r job now p).emails then (moved s r job now p, .reported .succeeded) else (s, .thrown)) ∧
        (job.operation = .delete →
          reportMutationResult body s₀ s₁ s claimNow now = (deleted s r job now, .reported .succeeded)) := by
  refine ⟨report_fenced body claimNow, ?_⟩
  rintro r job rfl htoken hread hg hr
  exact ⟨report_move hids htoken hread hg hr, report_delete hids htoken hread hg hr⟩

/-- The move of `demoEmail` is leased and a read intent is pending behind it. -/
def leasedDemo : Store := ⟨[movedJob, newJob 2 demoEmail (readIntent 1) (js "j2") 0], [demoEmail], 0⟩

theorem report_fenced_atomic_demo :
    reportMutationResult (some (movedReport (js "j1"))) leasedDemo leasedDemo leasedDemo 0 0 =
      (moved leasedDemo (movedReport (js "j1")) movedJob 0 ⟨js "Trash", none, js "k2", none⟩, .reported .succeeded) := by
  have hids : (leasedDemo.jobs.map (·.id)).Nodup := by decide
  have hheld : leasedDemo.jobs.any (holdsLease (js "j1") (movedReport (js "j1")).leaseToken 0) = true := by decide
  have h := (report_fenced_atomic (some (movedReport (js "j1"))) leasedDemo leasedDemo 0 hids).2
    (movedReport (js "j1")) movedJob rfl (by decide) (by decide) hheld rfl
  rw [h.1 rfl]
  decide

/-- The same, with another email that already has the new source key. -/
def collidingDemo : Store :=
  { leasedDemo with
    emails := [demoEmail, { demoEmail with id := js "m2", sourceKey := some (js "k2"), imapUid := none }] }

/-- A succeeded move that holds its lease may take no effect: its projection is refused, or its batch rolled back. -/
theorem succeeded_move_without_effect :
    (¬ ∀ (r : Report) (job : JobRow) (s₀ s₁ s : Store) (claimNow now : ℕ), (s.jobs.map (·.id)).Nodup →
      Unique s.emails → r.leaseToken ≠ [] → s₀.jobs.find? (holdsLease r.jobId r.leaseToken claimNow) = some job →
        s.jobs.any (holdsLease r.jobId r.leaseToken now) = true → r.status = .succeeded → job.operation = .move →
          ∃ j ∈ (reportMutationResult (some r) s₀ s₁ s claimNow now).1.jobs, j.id = r.jobId ∧ j.status = .succeeded) ∧
    ¬ ∀ (r : Report) (job : JobRow) (s₀ s₁ s : Store) (claimNow now : ℕ), (s.jobs.map (·.id)).Nodup →
      Unique s.emails → r.leaseToken ≠ [] → s₀.jobs.find? (holdsLease r.jobId r.leaseToken claimNow) = some job →
        s.jobs.any (holdsLease r.jobId r.leaseToken now) = true → r.status = .succeeded → job.operation = .move →
          (normalizedMoveProjection job r.projection).isSome = true →
            ∃ j ∈ (reportMutationResult (some r) s₀ s₁ s claimNow now).1.jobs, j.id = r.jobId ∧ j.status = .succeeded := by
  constructor
  · intro h
    have hclosed := h { movedReport (js "j1") with projection := none } movedJob leasedDemo leasedDemo leasedDemo 0 0
      (by decide) (by decide) (by decide) (by decide) (by decide) rfl rfl
    revert hclosed
    decide
  · intro h
    have hclosed := h (movedReport (js "j1")) movedJob collidingDemo collidingDemo collidingDemo 0 0
      (by decide) (by decide) (by decide) (by decide) (by decide) rfl rfl (by decide)
    revert hclosed
    decide

/-! ### The queue's write -/

theorem beforeClose_of_not_succeeded {newer : Bool} (h : r.status ≠ .succeeded) : beforeClose s r job newer now = s := by
  unfold beforeClose
  split <;> first | exact absurd ‹_› h | rfl

theorem reportBatch_eq {newer : Bool} {s' : Store} (h : (reportWrite s r job newer now).1 = s') :
    ((reportBatch s r job newer now).map (·.1)).getD s = if Unique s'.emails then s' else s := by
  rw [reportBatch, h]
  split_ifs
  · rw [Option.map_some, Option.getD_some, h]
  · rfl

/-- A report of another outcome is one UPDATE of the leased job. -/
theorem reportPlan_leased (newer : Bool) (job : JobRow) (now : ℕ) (h : r.status ≠ .succeeded) : ∃ status,
    reportPlan r job now newer = .ok ([leasedStatement r job now (reportOutcome r job newer now)], status) := by
  unfold reportPlan reportOutcome
  cases hr : r.status with
  | succeeded => exact absurd hr h
  | retry =>
    dsimp only
    rw [retryPlan]
    split_ifs <;> exact ⟨_, rfl⟩
  | failed => exact ⟨_, rfl⟩
  | unsupported => exact ⟨_, rfl⟩

/-- The statements of a desired state under the lease. -/
theorem desiredStatements_held (newer : Bool) {column : FlagColumn} (hunique : Unique s.emails)
    (hg : leaseGuard r job now s.jobs = true) (hr : r.status = .succeeded) (hop : job.operation = flagOperation column) :
    (run (desiredStatements r job now newer) s).map (·.1) = some (reportWrite s r job newer now).1 ∧
      Unique (reportWrite s r job newer now).1.emails := by
  have houtcome : reportOutcome r job newer now = closeRow .succeeded r.errorText now := by
    unfold reportOutcome
    rw [hr]
  have hcolumn : (if job.operation = .setRead then .isRead else .isStarred) = column := by
    rw [hop]
    cases column <;> rfl
  have hbefore : beforeClose s r job newer now = if newer then s else { s with
      emails := projectFlag column (if job.desiredValue.getD 0 = 0 then 0 else 1) now job.emailId s.emails } := by
    cases column <;> cases newer <;> simp [beforeClose, hr, hop, flagOperation, desiredStateColumn, hg]
  have hprojected : Unique (projectFlag column (if job.desiredValue.getD 0 = 0 then 0 else 1) now job.emailId s.emails) :=
    hunique.moved (sameKeys_updateWhere (fun row => by cases column <;> constructor <;> rfl) _)
  have haccepts : acceptsProjection r job = true := by
    cases column <;> simp [acceptsProjection, hop, flagOperation]
  rw [reportWrite_accepted newer now haccepts, houtcome, hbefore, desiredStatements, hcolumn]
  cases newer with
  | true => exact ⟨rfl, hunique⟩
  | false =>
    have hflag : updateEmails (fun s row => row.id = job.emailId && leaseGuard r job now s.jobs)
        (EmailRow.setFlag column (if job.desiredValue.getD 0 = 0 then 0 else 1) now) s =
        some ({ s with
          emails := projectFlag column (if job.desiredValue.getD 0 = 0 then 0 else 1) now job.emailId s.emails },
          (s.emails.filter (·.id = job.emailId)).length) := by
      simp only [updateEmails, hg, Bool.and_true]
      exact if_pos hprojected
    refine ⟨?_, hprojected⟩
    rw [if_neg Bool.false_ne_true, List.singleton_append, run_cons hflag]
    rfl

theorem report_desired {claimNow : ℕ} (column : FlagColumn) (hunique : Unique s.emails) (htoken : r.leaseToken ≠ [])
    (hread : s₀.jobs.find? (holdsLease r.jobId r.leaseToken claimNow) = some job)
    (hg : leaseGuard r job now s.jobs = true) (hr : r.status = .succeeded) (hop : job.operation = flagOperation column) :
    (reportMutationResult (some r) s₀ s₁ s claimNow now).1 =
      ((reportBatch s r job (newerIntentExists s₁.jobs job) now).map (·.1)).getD s := by
  obtain ⟨hrun, hkept⟩ := desiredStatements_held (newerIntentExists s₁.jobs job) hunique hg hr hop
  have hplan : reportPlan r job now (newerIntentExists s₁.jobs job) =
      .ok (desiredStatements r job now (newerIntentExists s₁.jobs job), .succeeded) := by
    unfold reportPlan
    rw [hr, hop]
    cases column <;> rfl
  obtain ⟨out, hout, hstate⟩ := Option.map_eq_some_iff.mp hrun
  rw [reportBatch_eq rfl, if_pos hkept, reportMutationResult, reportReads_some htoken hread, hplan]
  simp only [hout, hstate]

/-- The call does to the database what the queue's write of it does. -/
theorem reportMutationResult_write {claimNow : ℕ} (hunique : Unique s.emails) (hids : (s.jobs.map (·.id)).Nodup)
    (htoken : r.leaseToken ≠ []) (hread : s₀.jobs.find? (holdsLease r.jobId r.leaseToken claimNow) = some job) :
    (reportMutationResult (some r) s₀ s₁ s claimNow now).1 =
      ((reportBatch s r job (newerIntentExists s₁.jobs job) now).map (·.1)).getD s := by
  have hid := (holdsLease_iff.mp (List.find?_some hread)).1
  have hplan : reportReads (some r) s₀ s₁ claimNow now = _ := reportReads_some htoken hread
  generalize hnewer : newerIntentExists s₁.jobs job = newer at hplan ⊢
  cases hg : leaseGuard r job now s.jobs with
  | false =>
    rw [reportBatch_eq (by rw [reportWrite_stale hg]), if_pos hunique]
    refine (report_fenced (some r) claimNow fun r' hr' => ?_).1
    cases hr'
    rw [← hid]
    exact hg
  | true =>
    have hheld : s.jobs.any (holdsLease r.jobId r.leaseToken now) = true := hid ▸ hg
    by_cases hr : r.status = .succeeded
    · have houtcome : reportOutcome r job newer now = closeRow .succeeded r.errorText now := by
        unfold reportOutcome
        rw [hr]
      cases hop : job.operation with
      | move =>
        rw [report_move hids htoken hread hheld hr hop]
        cases hp : normalizedMoveProjection job r.projection with
        | none =>
          have hrefused : acceptsProjection r job = false := by simp [acceptsProjection, hr, hop, hp]
          have hwrite : (reportWrite s r job newer now).1 = s := by
            rw [reportWrite, hrefused]
            rfl
          rw [reportBatch_eq hwrite, if_pos hunique]
        | some p =>
          have haccepts : acceptsProjection r job = true := by simp [acceptsProjection, hp]
          have hwrite : (reportWrite s r job newer now).1 = moved s r job now p := by
            rw [reportWrite_accepted newer now haccepts, houtcome]
            simp only [beforeClose, hr, hop, hp, hg, if_true, settle_eq (relocateRow_unleased p)]
            rfl
          rw [reportBatch_eq hwrite]
          dsimp only
          split_ifs <;> rfl
      | delete =>
        have haccepts : acceptsProjection r job = true := by simp [acceptsProjection, hop]
        have hwrite : (reportWrite s r job newer now).1 = deleted s r job now := by
          rw [reportWrite_accepted newer now haccepts, houtcome]
          simp only [beforeClose, hr, hop, hg, if_true, settle_eq sweepRow_unleased]
          rfl
        have hkept : Unique (deleted s r job now).emails := hunique.sublist List.filter_sublist
        rw [report_delete hids htoken hread hheld hr hop, reportBatch_eq hwrite, if_pos hkept]
      | setRead => exact hnewer ▸ report_desired .isRead hunique htoken hread hg hr hop
      | setStarred => exact hnewer ▸ report_desired .isStarred hunique htoken hread hg hr hop
    · obtain ⟨status, hleased⟩ := reportPlan_leased newer job now hr
      have hwrite : (reportWrite s r job newer now).1 =
          { s with jobs := updateWhere (holdsLease job.id r.leaseToken now) (reportOutcome r job newer now) s.jobs } := by
        rw [reportWrite_accepted newer now (by simp [acceptsProjection, hr]), beforeClose_of_not_succeeded hr]
      rw [reportMutationResult_ok (hplan.trans hleased), reportBatch_eq hwrite, if_pos hunique]
      rfl

end OneMail.Mutation
