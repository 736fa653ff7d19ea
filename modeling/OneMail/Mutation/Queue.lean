import OneMail.Lib.Interleave
import OneMail.Mutation.Statements

/-! The mutation queue as concurrent requests.

    A `Call` is where one request stands between two D1 round trips, with everything it has read so
    far; `QueueStep` is one atomic move: a statement, a batch, or a reading of the clock. `JobMove`
    says once what a move can do to a job row, guards included, and `step_jobs` that every move does
    only that; the invariants below and in the modules after this one are read off `JobMove`. -/

namespace OneMail.Mutation
open Interleave Table

inductive Call where
  | idle
  /-- `loadMutableEmail` has returned. -/
  | loaded (row : EmailRow)
  /-- `queueExternalMutation` has read the clock and drawn an id; the INSERT is next. -/
  | stamped (row : EmailRow) (intent : Intent) (id : JsString) (now : ℕ)
  | inserted (row : EmailRow) (intent : Intent) (id : JsString) (now : ℕ)
  /-- The older intents are superseded; the UPDATE of `emails` is next. -/
  | superseded (row : EmailRow) (intent : Intent) (id : JsString) (now : ℕ)
  | claiming (claim : Claim) (now : ℕ)
  | repaired (claim : Claim) (now : ℕ)
  /-- The candidate list has been read; the lease batch is next. -/
  | selected (claim : Claim) (now : ℕ) (candidates : List Candidate)
  | leased (claim : Claim)
  | reporting (r : Report) (claimNow : ℕ)
  | fetched (r : Report) (job : JobRow)
  | compared (r : Report) (job : JobRow) (newer : Bool)
  /-- The second clock reading is taken; the fenced write is next. -/
  | writing (r : Report) (job : JobRow) (newer : Bool) (now : ℕ)
  deriving DecidableEq

/-- After the supersede statement: only a desired-state intent goes on to write its flag. -/
def afterSupersede (row : EmailRow) (intent : Intent) (id : JsString) (now : ℕ) : Call :=
  if (desiredStateColumn intent.operation).isSome ∧ (intent.desired = some 0 ∨ intent.desired = some 1)
  then .superseded row intent id now
  else .idle

inductive QueueStep : Store → Call → Store → Call → List Event → Prop
  | tick {s} (d : ℕ) : QueueStep s .idle { s with clock := s.clock + d } .idle []
  -- user requests
  | load {s} (row : EmailRow) (emailId : JsString) (h : s.emails.find? (·.id = emailId) = some row) :
      QueueStep s .idle s (.loaded row) []
  | decline {s row} : QueueStep s (.loaded row) s .idle []
  | plan {s row} (intent : Intent) (request : Request) (id : JsString)
      (h : planMutation row request = some intent) :
      QueueStep s (.loaded row) s (.stamped row intent id s.clock) []
  | insert {s row intent id now} (rowid : ℕ) (hid : ∀ j ∈ s.jobs, j.id ≠ id)
      (hrow : ∀ j ∈ s.jobs, j.rowid < rowid) :
      QueueStep s (.stamped row intent id now)
        { s with jobs := s.jobs ++ [newJob rowid row intent id now] }
        (.inserted row intent id now) []
  | supersede {s row intent id now} :
      QueueStep s (.inserted row intent id now)
        { s with jobs := supersedeOlderPendingIntent row intent.operation id now s.jobs }
        (afterSupersede row intent id now) []
  | project {s row intent id now column} (h : desiredStateColumn intent.operation = some column) :
      QueueStep s (.superseded row intent id now)
        { s with emails := projectFlag column (intent.desired.getD 0) now row.id s.emails }
        .idle []
  -- claims
  | beginClaim {s} (claim : Claim) (h : validClaim claim) : QueueStep s .idle s (.claiming claim s.clock) []
  | repair {s claim now} :
      QueueStep s (.claiming claim now) { s with jobs := claim.endpoint.repair now s.jobs }
        (.repaired claim now) []
  | select {s claim now} :
      QueueStep s (.repaired claim now) s (.selected claim now (selectCandidates claim now s.jobs)) []
  | lease {s claim now candidates} :
      QueueStep s (.selected claim now candidates)
        { s with jobs := (leaseBatch claim now candidates s.jobs).1 } (.leased claim)
        (leaseBatch claim now candidates s.jobs).2
  | answerClaim {s claim} : QueueStep s (.leased claim) s .idle []
  -- reports
  | beginReport {s} (r : Report) (h : r.leaseToken ≠ []) : QueueStep s .idle s (.reporting r s.clock) []
  | fetch {s r claimNow} (job : JobRow)
      (h : s.jobs.find? (holdsLease r.jobId r.leaseToken claimNow) = some job) :
      QueueStep s (.reporting r claimNow) s (.fetched r job) []
  | stale {s r claimNow} (h : s.jobs.find? (holdsLease r.jobId r.leaseToken claimNow) = none) :
      QueueStep s (.reporting r claimNow) s .idle []
  | compare {s r job} :
      QueueStep s (.fetched r job) s (.compared r job (newerIntentExists s.jobs job)) []
  | readClock {s r job newer} :
      QueueStep s (.compared r job newer) s (.writing r job newer s.clock) []
  | write {s r job newer now} :
      QueueStep s (.writing r job newer now) (reportWrite s r job newer now).1 .idle
        (reportWrite s r job newer now).2

/-- The queue: any emails, an empty job table, and requests that have not started. -/
def queue : Prog Store Call Event where
  idle := .idle
  init s := s.jobs = []
  step := QueueStep

/-! ### What one move does to one job -/

/-- The job table holds a newer job of the same email whose operation is in `same`. -/
def HasNewer (t : List JobRow) (same : Operation → Bool) (j : JobRow) : Prop :=
  ∃ k ∈ t, k.emailId = j.emailId ∧ same k.operation = true ∧ j.rowid < k.rowid

/-- The intents an intent of this operation replaces. -/
def sameIntent (operation : Operation) : Operation → Bool :=
  if isLocationOperation operation then isLocationOperation else (· = operation)

theorem sameIntent_location {operation : Operation} (h : isLocationOperation operation = true) :
    sameIntent operation = isLocationOperation := if_pos h

theorem sameIntent_desired {operation : Operation} (h : isLocationOperation operation = false) :
    sameIntent operation = (decide <| · = operation) := if_neg (by rw [h]; decide)

/-- One job row under one move of a request that stands at `c`, over the job table `t`. -/
inductive JobMove (t : List JobRow) : Call → JobRow → JobRow → Prop
  | recover {claim now j} (hs : j.status = .processing) (he : j.leaseUntil.any (· ≤ now)) :
      JobMove t (.claiming claim now) j (recoverRow now j)
  | collapse {claim now j} (hs : j.status = .pending)
      (ha : isLocationOperation j.operation = true → j.attempts = 0)
      (hn : HasNewer t (sameIntent j.operation) j) :
      JobMove t (.claiming claim now) j (supersedeRow now j)
  | replace {row intent id now j} (hs : j.status = .pending)
      (ha : isLocationOperation j.operation = true → j.attempts = 0)
      (hn : HasNewer t (sameIntent j.operation) j) :
      JobMove t (.inserted row intent id now) j (supersedeRow now j)
  | lease {claim now candidates c j} (hc : c ∈ candidates) (hid : j.id = c.id)
      (hs : j.status = .pending) :
      JobMove t (.selected claim now candidates) j (leaseRow claim now j)
  | relocate {r job newer now p j} (hr : r.status = .succeeded) (ho : job.operation = .move)
      (hp : normalizedMoveProjection job r.projection = some p)
      (hg : leaseGuard r job now t = true) (hb : pendingBehind job t j = true) :
      JobMove t (.writing r job newer now) j (relocateRow p now j)
  | sweep {r job newer now j} (hr : r.status = .succeeded) (ho : job.operation = .delete)
      (hg : leaseGuard r job now t = true) (hb : pendingBehind job t j = true) :
      JobMove t (.writing r job newer now) j (sweepRow now j)
  | close {r job newer now j} (ha : acceptsProjection r job = true)
      (hl : holdsLease job.id r.leaseToken now j = true) :
      JobMove t (.writing r job newer now) j (reportOutcome r job newer now j)

/-- A row under the statements of one move, in order. -/
abbrev JobMoves (t : List JobRow) (c : Call) : JobRow → JobRow → Prop :=
  Relation.ReflTransGen (JobMove t c)

/-- The columns no statement of the queue writes. -/
structure SameKey (j j' : JobRow) : Prop where
  rowid : j'.rowid = j.rowid
  id : j'.id = j.id
  emailId : j'.emailId = j.emailId
  operation : j'.operation = j.operation
  desired : j'.desiredValue = j.desiredValue
  provider : j'.provider = j.provider
  targetFolder : j'.targetFolder = j.targetFolder
  targetFolderId : j'.targetFolderId = j.targetFolderId

theorem SameKey.refl (j : JobRow) : SameKey j j := by constructor <;> rfl

theorem SameKey.trans {i j k : JobRow} (h : SameKey i j) (h' : SameKey j k) : SameKey i k :=
  ⟨h'.rowid.trans h.rowid, h'.id.trans h.id, h'.emailId.trans h.emailId,
    h'.operation.trans h.operation, h'.desired.trans h.desired, h'.provider.trans h.provider,
    h'.targetFolder.trans h.targetFolder, h'.targetFolderId.trans h.targetFolderId⟩

theorem reportOutcome_key (r : Report) (job : JobRow) (newer : Bool) (now : ℕ) (j : JobRow) :
    SameKey j (reportOutcome r job newer now j) := by
  rcases reportOutcome_spec r job newer now j with ⟨_, _, h, -⟩ | ⟨-, _, _, h⟩ <;> rw [h] <;>
    constructor <;> rfl

theorem JobMove.key {t : List JobRow} {c : Call} {j j' : JobRow} (h : JobMove t c j j') :
    SameKey j j' := by
  cases h with
  | close => exact reportOutcome_key ..
  | _ => constructor <;> rfl

theorem JobMoves.key {t : List JobRow} {c : Call} {j j' : JobRow} (h : JobMoves t c j j') :
    SameKey j j' := by
  induction h with
  | refl => exact .refl _
  | tail _ hm ih => exact ih.trans hm.key

theorem holdsLease_iff {id token : JsString} {now : ℕ} {j : JobRow} :
    holdsLease id token now j = true ↔
      j.id = id ∧ j.status = .processing ∧ j.leaseToken = some token ∧
        ∃ u, j.leaseUntil = some u ∧ now < u := by
  simp [holdsLease, Option.any_eq_true, and_assoc]

/-- Every move starts from a live row. -/
theorem JobMove.live {t : List JobRow} {c : Call} {j j' : JobRow} (h : JobMove t c j j') :
    j.status.terminal = false := by
  cases h with
  | recover hs => rw [hs]; rfl
  | collapse hs => rw [hs]; rfl
  | replace hs => rw [hs]; rfl
  | lease _ _ hs => rw [hs]; rfl
  | relocate _ _ _ _ hb =>
    simp only [pendingBehind, Bool.and_eq_true, decide_eq_true_eq] at hb
    rw [hb.1.2]; rfl
  | sweep _ _ _ hb =>
    simp only [pendingBehind, Bool.and_eq_true, decide_eq_true_eq] at hb
    rw [hb.1.2]; rfl
  | close _ hl => rw [(holdsLease_iff.mp hl).2.1]; rfl

/-- Terminal statuses absorb: a terminal row is never written again. -/
theorem JobMoves.settled {t : List JobRow} {c : Call} {j j' : JobRow} (h : JobMoves t c j j')
    (hj : j.status.terminal = true) : j' = j := by
  rcases Relation.ReflTransGen.cases_head h with rfl | ⟨k, hk, -⟩
  · rfl
  · rw [hk.live] at hj
    cases hj

/-! ### Every statement moves its rows -/

variable {t u : List JobRow} {c : Call}

/-- An update whose selected rows all make one move. -/
theorem moves_updateWhere {p : JobRow → Bool} {f : JobRow → JobRow}
    (h : ∀ j ∈ u, p j = true → JobMove t c j (f j)) :
    List.Forall₂ (JobMoves t c) u (updateWhere p f u) :=
  forall₂_updateWhere (fun j hj hp => .single (h j hj hp)) fun _ _ => .refl

theorem moves_trans {v : List JobRow} (h₁ : List.Forall₂ (JobMoves t c) t u)
    (h₂ : List.Forall₂ (JobMoves t c) u v) : List.Forall₂ (JobMoves t c) t v :=
  forall₂_trans (fun _ _ _ h h' => h.trans h') h₁ h₂

/-- A newer row found in the table as it stands now was there, with the same key, at the start. -/
theorem HasNewer.of_moved {same : Operation → Bool} {j : JobRow}
    (hu : List.Forall₂ (JobMoves t c) t u) (h : HasNewer u same j) : HasNewer t same j := by
  obtain ⟨k, hk, he, ho, hr⟩ := h
  obtain ⟨i, hi, hm⟩ := Forall₂.prev hu hk
  have key := JobMoves.key hm
  exact ⟨i, hi, by rw [← key.emailId, he], by rw [← key.operation, ho], by rw [← key.rowid]; exact hr⟩

theorem hasNewer_of_newerPending {same : Operation → Bool} {j : JobRow}
    (h : newerPending t same j = true) : HasNewer t same j := by
  simp only [newerPending, List.any_eq_true, Bool.and_eq_true, decide_eq_true_eq] at h
  obtain ⟨k, hk, ⟨⟨he, ho⟩, -⟩, hr⟩ := h
  exact ⟨k, hk, he, ho, hr⟩

theorem not_location_of_desired {operation : Operation}
    (h : (desiredStateColumn operation).isSome = true) : isLocationOperation operation = false := by
  cases operation <;> simp_all [desiredStateColumn, isLocationOperation]

theorem moves_recoverExpired (claim : Claim) (now : ℕ) :
    List.Forall₂ (JobMoves t (.claiming claim now)) t (recoverExpired now t) := by
  refine moves_updateWhere fun j _ hp => ?_
  simp only [expired, Bool.and_eq_true, decide_eq_true_eq] at hp
  exact .recover hp.1 hp.2

theorem moves_collapseDesired (claim : Claim) (now : ℕ)
    (hu : List.Forall₂ (JobMoves t (.claiming claim now)) t u) :
    List.Forall₂ (JobMoves t (.claiming claim now)) u (collapseDesired now u) := by
  refine moves_updateWhere fun j _ hp => ?_
  simp only [Bool.and_eq_true, decide_eq_true_eq] at hp
  have hop := not_location_of_desired hp.1.2
  refine .collapse hp.1.1 (fun hl => by rw [hop] at hl; cases hl) ?_
  rw [sameIntent_desired hop]
  exact (hasNewer_of_newerPending hp.2).of_moved hu

theorem moves_collapseLocation (claim : Claim) (now : ℕ)
    (hu : List.Forall₂ (JobMoves t (.claiming claim now)) t u) :
    List.Forall₂ (JobMoves t (.claiming claim now)) u (collapseLocation now u) := by
  refine moves_updateWhere fun j _ hp => ?_
  simp only [Bool.and_eq_true, decide_eq_true_eq] at hp
  refine .collapse hp.1.1.1 (fun _ => hp.1.2) ?_
  rw [sameIntent_location hp.1.1.2]
  exact (hasNewer_of_newerPending hp.2).of_moved hu

theorem moves_repair (claim : Claim) (now : ℕ) :
    List.Forall₂ (JobMoves t (.claiming claim now)) t (claim.endpoint.repair now t) := by
  have h₁ := moves_recoverExpired (t := t) claim now
  have h₂ := moves_trans h₁ (moves_collapseDesired claim now h₁)
  unfold Endpoint.repair
  split
  · exact moves_trans h₂ (moves_collapseLocation claim now h₂)
  · exact h₂

/-- The queued job itself is the newer intent, so the statement needs it in the table. -/
theorem moves_supersede (row : EmailRow) (intent : Intent) (id : JsString) (now : ℕ)
    (hown : ∀ k ∈ t, k.id = id → k.emailId = row.id ∧ k.operation = intent.operation) :
    List.Forall₂ (JobMoves t (.inserted row intent id now)) t
      (supersedeOlderPendingIntent row intent.operation id now t) := by
  have newer : ∀ {same : Operation → Bool} {j : JobRow}, same intent.operation = true →
      j.emailId = row.id → beforeRow t id j = true → HasNewer t same j := by
    intro same j hsame he hb
    simp only [beforeRow, List.any_eq_true, Bool.and_eq_true, decide_eq_true_eq] at hb
    obtain ⟨k, hk, hid, hlt⟩ := hb
    obtain ⟨hke, hko⟩ := hown k hk hid
    exact ⟨k, hk, by rw [hke, he], by rw [hko, hsame], hlt⟩
  unfold supersedeOlderPendingIntent
  split
  · rename_i hloc
    refine moves_updateWhere fun j _ hp => ?_
    simp only [Bool.and_eq_true, decide_eq_true_eq] at hp
    obtain ⟨⟨⟨⟨⟨he, ho⟩, hs⟩, ha⟩, -⟩, hb⟩ := hp
    exact .replace hs (fun _ => ha) (by rw [sameIntent_location ho]; exact newer hloc he hb)
  · rename_i hloc
    refine moves_updateWhere fun j _ hp => ?_
    simp only [Bool.and_eq_true, decide_eq_true_eq] at hp
    obtain ⟨⟨⟨⟨he, ho⟩, hs⟩, -⟩, hb⟩ := hp
    have hop : isLocationOperation j.operation = false := by rw [ho]; simpa using hloc
    refine .replace hs (fun hl => by rw [hop] at hl; cases hl) ?_
    rw [sameIntent_desired hop]
    exact newer (by simp [ho]) he hb

/-- The lease batch, one candidate at a time. -/
theorem moves_leaseBatch (claim : Claim) (now : ℕ) (candidates : List Candidate) :
    ∀ (cs : List Candidate), cs ⊆ candidates → ∀ u : List JobRow,
      List.Forall₂ (JobMoves t (.selected claim now candidates)) u (leaseBatch claim now cs u).1
  | [], _, u => forall₂_refl_of fun _ _ => .refl
  | c :: cs, hcs, u => by
    refine forall₂_trans (fun _ _ _ h h' => h.trans h') (moves_updateWhere fun j _ hp => ?_)
      (moves_leaseBatch claim now candidates cs (fun x hx => hcs (List.mem_cons_of_mem _ hx)) _)
    simp only [leasable, Bool.and_eq_true, decide_eq_true_eq] at hp
    exact .lease (hcs List.mem_cons_self) hp.1.1.1.1 hp.1.1.1.2

theorem moves_beforeClose (s : Store) (r : Report) (job : JobRow) (newer : Bool) (now : ℕ) :
    List.Forall₂ (JobMoves s.jobs (.writing r job newer now)) s.jobs
      (beforeClose s r job newer now).jobs := by
  have same : List.Forall₂ (JobMoves s.jobs (.writing r job newer now)) s.jobs s.jobs :=
    forall₂_refl_of fun _ _ => .refl
  unfold beforeClose
  split
  · split
    · exact same
    · split
      · exact moves_updateWhere fun j _ hb => .relocate ‹_› ‹_› ‹_› ‹_› hb
      · exact same
  · split
    · exact moves_updateWhere fun j _ hb => .sweep ‹_› ‹_› ‹_› hb
    · exact same
  · split
    · split <;> exact same
    · exact same
  · exact same

theorem moves_reportWrite (s : Store) (r : Report) (job : JobRow) (newer : Bool) (now : ℕ) :
    List.Forall₂ (JobMoves s.jobs (.writing r job newer now)) s.jobs
      (reportWrite s r job newer now).1.jobs := by
  unfold reportWrite
  split
  · exact moves_trans (moves_beforeClose s r job newer now)
      (moves_updateWhere fun j _ hl => .close ‹_› hl)
  · exact forall₂_refl_of fun _ _ => .refl

/-- The job a request queued, as its later statements rely on it. -/
def Owned (t : List JobRow) (row : EmailRow) (intent : Intent) (id : JsString) : Prop :=
  ∃ k ∈ t, k.id = id ∧ k.emailId = row.id ∧ k.operation = intent.operation ∧
    k.desiredValue = intent.desired

/-- A move either takes every row through `JobMove`s or appends the queued job. -/
theorem step_jobs {s s' : Store} {c c' : Call} {ev : List Event} (h : QueueStep s c s' c' ev)
    (hids : (s.jobs.map (·.id)).Nodup)
    (hown : ∀ row intent id now, c = .inserted row intent id now → Owned s.jobs row intent id) :
    List.Forall₂ (JobMoves s.jobs c) s.jobs s'.jobs ∨
      ∃ row intent id now rowid, c = .stamped row intent id now ∧
        s'.jobs = s.jobs ++ [newJob rowid row intent id now] ∧
        (∀ j ∈ s.jobs, j.id ≠ id) ∧ ∀ j ∈ s.jobs, j.rowid < rowid := by
  cases h with
  | insert rowid hid hrow => exact .inr ⟨_, _, _, _, rowid, rfl, rfl, hid, hrow⟩
  | @supersede row intent id now =>
    refine .inl (moves_supersede row intent id now fun k hk hkid => ?_)
    obtain ⟨k', hk', hid, he, ho, -⟩ := hown row intent id now rfl
    obtain rfl : k = k' := eq_of_key hids hk hk' (by rw [hkid, hid])
    exact ⟨he, ho⟩
  | repair => exact .inl (moves_repair ..)
  | lease => exact .inl (moves_leaseBatch _ _ _ _ (List.Subset.refl _) _)
  | write => exact .inl (moves_reportWrite ..)
  | _ => exact .inl (forall₂_refl_of fun _ _ => .refl)

end OneMail.Mutation
