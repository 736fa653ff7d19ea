import OneMail.Mutation.Barrier

/-! Where a leased job says its message is.

    A job copies the provider identity of its email when it is queued; a succeeded move rewrites the
    jobs that exist then, a succeeded delete supersedes them. Both statements reach every live job,
    because the reported job is the oldest live one of its email (`behind_holder`). What they cannot
    reach is a job whose INSERT still carries a row that was read before them, so freshness holds
    along the runs whose INSERTs find the row they read (`leases_current`), and not along all runs
    (`stale_identity_leased`). -/

namespace OneMail.Mutation
open Interleave Table

variable {t u : List JobRow} {c : Call} {s : Store}

/-! ### The write of a report -/

theorem reportWrite_accepted {r : Report} {job : JobRow} (newer : Bool) (now : ℕ)
    (h : acceptsProjection r job = true) : reportWrite s r job newer now =
      ({ beforeClose s r job newer now with
          jobs := updateWhere (holdsLease job.id r.leaseToken now) (reportOutcome r job newer now)
            (beforeClose s r job newer now).jobs },
        ((beforeClose s r job newer now).jobs.filter (holdsLease job.id r.leaseToken now)).map
          fun j => .reported j r now) := if_pos h

/-- A report that no longer holds its lease writes nothing. -/
theorem reportWrite_stale {r : Report} {job : JobRow} {newer : Bool} {now : ℕ}
    (h : leaseGuard r job now s.jobs = false) : reportWrite s r job newer now = (s, []) := by
  have hnone : ∀ j ∈ s.jobs, holdsLease job.id r.leaseToken now j = false := by
    simpa [leaseGuard] using h
  have hbefore : beforeClose s r job newer now = s := by
    unfold beforeClose
    simp only [h, Bool.and_false, Bool.false_eq_true, if_false]
    split <;> first | rfl | (split <;> rfl)
  by_cases ha : acceptsProjection r job = true
  · rw [reportWrite_accepted newer now ha, hbefore, updateWhere_eq_self hnone,
      List.filter_eq_nil_iff.mpr (by simpa using hnone), List.map_nil]
  · rw [reportWrite, if_neg ha]

/-- A report either writes nothing, or exactly one job held its lease and is on record. -/
theorem reportWrite_cases (ho : Ordered s.jobs) (r : Report) (job : JobRow) (newer : Bool) (now : ℕ) :
    reportWrite s r job newer now = (s, []) ∨
    ∃ h ∈ s.jobs, holdsLease job.id r.leaseToken now h = true ∧ acceptsProjection r job = true ∧
      (reportWrite s r job newer now).2 = [.reported h r now] := by
  by_cases hg : leaseGuard r job now s.jobs = true
  · by_cases ha : acceptsProjection r job = true
    · obtain ⟨h, hh, hl⟩ := List.any_eq_true.mp hg
      refine .inr ⟨h, hh, hl, ha, ?_⟩
      have hids : ((beforeClose s r job newer now).jobs.map (·.id)).Nodup := by
        rw [Forall₂.map_eq (·.id) (fun _ _ hm => (JobMoves.key hm).id)
          (moves_beforeClose s r job newer now)]
        exact ho.ids
      have hone := filter_eq_singleton hids
        (mem_beforeClose hh (holdsLease_iff.mp hl).2.1) hl
        (fun k _ hk => (holdsLease_iff.mp hk).1.trans (holdsLease_iff.mp hl).1.symm)
      rw [reportWrite_accepted newer now ha, hone, List.map_singleton]
    · exact .inl (by rw [reportWrite, if_neg ha])
  · exact .inl (reportWrite_stale (by simpa using hg))

/-- Every live job of the reported job's email, other than itself, is pending behind it. -/
theorem behind_holder (ho : Ordered t) {job h : JobRow} {token : JsString} {now : ℕ} (hh : h ∈ t)
    (hl : holdsLease job.id token now h = true) (he : h.emailId = job.emailId) {j : JobRow}
    (hj : j ∈ t) (hje : j.emailId = job.emailId) (hlive : j.status.terminal = false)
    (hne : j ≠ h) : pendingBehind job t j = true := by
  obtain ⟨hid, hp, -⟩ := holdsLease_iff.mp hl
  have hsame : j.emailId = h.emailId := hje.trans he.symm
  have hrow : j.rowid ≠ h.rowid := fun hr =>
    hne (eq_of_key (List.pairwise_map.mpr ho.rowids).nodup hj hh hr)
  have hlt : h.rowid < j.rowid := by
    rcases Nat.lt_or_gt_of_ne hrow with hr | hr
    · rw [ho.attempted h hh (ho.processing h hh hp) j hj hsame hr] at hlive
      cases hlive
    · exact hr
  have hpend : j.status = .pending := by
    cases hs : j.status with
    | pending => rfl
    | processing => exact absurd (ho.single hj hh hsame hs hp) hrow
    | _ => rw [hs] at hlive; cases hlive
  simp only [pendingBehind, afterRow, Bool.and_eq_true, decide_eq_true_eq, List.any_eq_true]
  exact ⟨⟨hje, hpend⟩, h, hh, hid, hlt⟩

/-! ### What is on record -/

/-- The last succeeded move of an email: the job and the report that closed it. -/
def lastMove (emailId : JsString) : List Event → Option (JobRow × Report)
  | [] => none
  | .reported j r _ :: τ =>
    if j.emailId = emailId ∧ j.operation = .move ∧ r.status = .succeeded then some (j, r)
    else lastMove emailId τ
  | .leased _ :: τ => lastMove emailId τ

/-- Some delete of the email was reported succeeded. -/
def Deleted (emailId : JsString) (τ : List Event) : Prop :=
  ∃ j r now, .reported j r now ∈ τ ∧ j.emailId = emailId ∧ j.operation = .delete ∧
    r.status = .succeeded

/-- The email still exists, and `identity` is the one its last succeeded move projected. -/
structure Current (τ : List Event) (emailId : JsString) (identity : Identity) : Prop where
  alive : ¬ Deleted emailId τ
  moved : ∀ j r, lastMove emailId τ = some (j, r) →
    ∃ p, normalizedMoveProjection j r.projection = some p ∧ identity = p.identity

/-- An event that neither moves nor deletes the email keeps its identity current. -/
theorem Current.cons {τ : List Event} {emailId : JsString} {identity : Identity} {e : Event}
    (h : Current τ emailId identity)
    (he : ∀ j r now, e = .reported j r now → j.emailId = emailId → r.status = .succeeded →
      j.operation ≠ .move ∧ j.operation ≠ .delete) : Current (e :: τ) emailId identity where
  alive := by
    rintro ⟨j, r, now, hmem, hje, hop, hr⟩
    rcases List.mem_cons.mp hmem with heq | hmem
    · exact (he j r now heq.symm hje hr).2 hop
    · exact h.alive ⟨j, r, now, hmem, hje, hop, hr⟩
  moved j r hlast := by
    refine h.moved j r ?_
    cases e with
    | leased => exact hlast
    | reported k r' now =>
      rw [lastMove, if_neg] at hlast
      · exact hlast
      · rintro ⟨hke, hop, hr⟩
        exact (he k r' now rfl hke hr).1 hop

/-- An event about another email says nothing about this one. -/
theorem Current.cons_other {τ : List Event} {emailId : JsString} {identity : Identity} {j : JobRow}
    {r : Report} {now : ℕ} (h : Current τ emailId identity) (hne : j.emailId ≠ emailId) :
    Current (.reported j r now :: τ) emailId identity := by
  refine h.cons ?_
  rintro _ _ _ ⟨⟩ he
  exact absurd he hne

theorem Current.of_move {τ : List Event} {j : JobRow} {r : Report} {p : MoveProjection} (now : ℕ)
    (h : ¬ Deleted j.emailId τ) (hop : j.operation = .move) (hr : r.status = .succeeded)
    (hp : normalizedMoveProjection j r.projection = some p) :
    Current (.reported j r now :: τ) j.emailId p.identity where
  alive := by
    rintro ⟨k, r', now', hmem, he, hop', hr'⟩
    rcases List.mem_cons.mp hmem with heq | hmem
    · cases heq
      rw [hop] at hop'
      cases hop'
    · exact h ⟨k, r', now', hmem, he, hop', hr'⟩
  moved k r' hlast := by
    rw [lastMove, if_pos ⟨rfl, hop, hr⟩] at hlast
    cases hlast
    exact ⟨p, hp, rfl⟩

theorem Current.append {τ : List Event} {emailId : JsString} {identity : Identity} :
    ∀ {ev : List Event}, (∀ e ∈ ev, ∃ j, e = .leased j) → Current τ emailId identity →
      Current (ev ++ τ) emailId identity
  | [], _, h => h
  | e :: ev, hev, h => by
    refine (Current.append (fun e he => hev e (List.mem_cons_of_mem _ he)) h).cons ?_
    rintro j r now rfl
    obtain ⟨k, hk⟩ := hev _ List.mem_cons_self
    cases hk

/-! ### The identity a job carries -/

/-- Only the write of a succeeded move changes the identity of a job, and only behind its own. -/
theorem JobMove.identity {j j' : JobRow} (h : JobMove t c j j') :
    j'.identity = j.identity ∨ ∃ r job newer now, c = .writing r job newer now ∧
      r.status = .succeeded ∧ job.operation = .move ∧ leaseGuard r job now t = true ∧
      pendingBehind job t j = true := by
  cases h with
  | relocate hr ho _ hg hb => exact .inr ⟨_, _, _, _, rfl, hr, ho, hg, hb⟩
  | @close r job newer now =>
    rcases reportOutcome_spec r job newer now j with ⟨_, _, h, -⟩ | ⟨-, _, _, h⟩ <;> rw [h] <;>
      exact .inl rfl
  | _ => exact .inl rfl

/-- A request that does not write a succeeded move leaves every identity alone. -/
theorem JobMoves.identity {j j' : JobRow} (h : JobMoves t c j j')
    (hc : ∀ r job newer now, c = .writing r job newer now →
      r.status = .succeeded → job.operation ≠ .move) : j'.identity = j.identity := by
  induction h with
  | refl => rfl
  | tail _ hm ih =>
    rcases hm.identity with h | ⟨_, _, _, _, hw, hr, ho, -⟩
    · exact h.trans ih
    · exact absurd ho (hc _ _ _ _ hw hr)

theorem JobMoves.identity_of_attempted (ho : Ordered t) (hs : c.Sound t) {j j' : JobRow}
    (hj : j ∈ t) (ha : 1 ≤ j.attempts) (h : JobMoves t c j j') : j'.identity = j.identity := by
  induction h with
  | refl => rfl
  | tail hjk hm ih =>
    rcases hm.identity with h | ⟨_, _, _, _, rfl, -, -, hg, hb⟩
    · exact h.trans ih
    · rw [ho.not_swept hs hg hj (JobMoves.key hjk) ha] at hb
      cases hb

/-- The projection a report must present depends on columns that an attempted job keeps. -/
theorem normalizedMoveProjection_congr {job k : JobRow} (hk : SameKey job k)
    (hi : k.identity = job.identity) (projection : Option MutationProjection) :
    normalizedMoveProjection k projection = normalizedMoveProjection job projection := by
  simp only [JobRow.identity, Identity.mk.injEq] at hi
  simp only [normalizedMoveProjection, hk.provider, hk.targetFolder, hk.targetFolderId, hi.2.2.1,
    hi.2.2.2]

/-- The snapshot a report works with still shows the identity of its job. -/
def Call.Fixed (t : List JobRow) : Call → Prop
  | .fetched _ job | .compared _ job _ | .writing _ job _ _ =>
    ∃ k ∈ t, SameKey job k ∧ 1 ≤ k.attempts ∧ k.identity = job.identity
  | _ => True

theorem Call.Fixed.moved (ho : Ordered t) (hs : c.Sound t) (h : List.Forall₂ (JobMoves t c) t u)
    {m : Call} (hm : m.Fixed t) : m.Fixed u := by
  have snapshot : ∀ {job : JobRow},
      (∃ k ∈ t, SameKey job k ∧ 1 ≤ k.attempts ∧ k.identity = job.identity) →
      ∃ k ∈ u, SameKey job k ∧ 1 ≤ k.attempts ∧ k.identity = job.identity := by
    rintro job ⟨k, hk, hkey, ha, hi⟩
    obtain ⟨k', hk', hm⟩ := Forall₂.next h hk
    exact ⟨k', hk', hkey.trans (JobMoves.key hm), ha.trans (JobMoves.attempts hm).1,
      (JobMoves.identity_of_attempted ho hs hk ha hm).trans hi⟩
  cases m with
  | fetched => exact snapshot hm
  | compared => exact snapshot hm
  | writing => exact snapshot hm
  | _ => trivial

theorem Call.Fixed.append (n : JobRow) {m : Call} (hm : m.Fixed t) : m.Fixed (t ++ [n]) := by
  cases m with
  | fetched | compared | writing =>
    obtain ⟨k, hk, hrest⟩ := hm
    exact ⟨k, List.mem_append_left _ hk, hrest⟩
  | _ => trivial

theorem Call.Fixed.own {s' : Store} {c' : Call} {ev : List Event} (ho : Ordered s.jobs)
    (hs : c.Fixed s.jobs) (h : QueueStep s c s' c' ev) : c'.Fixed s'.jobs := by
  cases h with
  | supersede => unfold afterSupersede; split <;> trivial
  | fetch job hf =>
    have hmem := List.mem_of_find?_eq_some hf
    have hp := (holdsLease_iff.mp (List.find?_some hf)).2.1
    exact ⟨job, hmem, .refl _, ho.processing _ hmem hp, rfl⟩
  | compare => exact hs
  | readClock => exact hs
  | _ => trivial

theorem fixed {C : World Store Call Event → ℕ → Prop} {w : World Store Call Event}
    (h : Reach queue C w) : ∀ i, (w.pc i).Fixed w.store.jobs := by
  have key : True ∧ ∀ i, (w.pc i).Fixed w.store.jobs := by
    refine Reach.shared (I := fun _ _ => True) (L := fun s _ c => c.Fixed s.jobs) ?_ ?_ ?_ h
    · exact fun _ _ => ⟨trivial, trivial⟩
    · exact fun w i s' l' ev hw _ _ hL hst => ⟨trivial, hL.own (ordered hw).1 hst⟩
    · intro w i j s' l' ev hw _ _ _ _ hm hst
      obtain ⟨ho, hsound⟩ := ordered hw
      rcases (hsound i).step_jobs ho hst with hmv | ⟨_, _, _, _, _, -, hjobs, -, -⟩
      · exact hm.moved ho (hsound i) hmv
      · rw [hjobs]
        exact hm.append _
  exact key.2

/-! ### Fresh stores -/

/-- Every row of `emails` and every live job carries the identity on record. -/
structure Fresh (s : Store) (τ : List Event) : Prop where
  rows : ∀ e ∈ s.emails, Current τ e.id e.identity
  live : ∀ j ∈ s.jobs, j.status.terminal = false → Current τ j.emailId j.identity

@[simp] theorem setFlag_id (column : FlagColumn) (value now : ℕ) (row : EmailRow) :
    (row.setFlag column value now).id = row.id := by
  cases column <;> rfl

@[simp] theorem setFlag_identity (column : FlagColumn) (value now : ℕ) (row : EmailRow) :
    (row.setFlag column value now).identity = row.identity := by
  cases column <;> rfl

theorem mem_projectFlag {column : FlagColumn} {value now : ℕ} {emailId : JsString}
    {emails : List EmailRow} {e' : EmailRow} (h : e' ∈ projectFlag column value now emailId emails) :
    ∃ e ∈ emails, e'.id = e.id ∧ e'.identity = e.identity := by
  obtain ⟨e, he, rfl⟩ := mem_updateWhere.mp h
  refine ⟨e, he, ?_⟩
  split <;> simp

/-- The rows a lease batch reports were live, and keep their identity. -/
theorem mem_leaseBatch {claim : Claim} {now : ℕ} : ∀ {cs : List Candidate} {u : List JobRow} {e : Event},
    e ∈ (leaseBatch claim now cs u).2 → ∃ j, e = .leased j ∧ ∃ k ∈ u, k.status.terminal = false ∧
      j.emailId = k.emailId ∧ j.identity = k.identity
  | [], _, e, h => by cases h
  | c :: cs, u, e, h => by
    rcases List.mem_append.mp h with h | h
    · obtain ⟨j, rfl, k', hk', hlive, he, hi⟩ := mem_leaseBatch h
      obtain ⟨k, hk, rfl⟩ := mem_updateWhere.mp hk'
      refine ⟨j, rfl, k, hk, ?_⟩
      split at hlive
      · rename_i hl
        rw [if_pos hl] at he hi
        simp only [leasable, Bool.and_eq_true, decide_eq_true_eq] at hl
        exact ⟨by rw [hl.1.1.1.2]; rfl, he, hi⟩
      · rename_i hl
        rw [if_neg hl] at he hi
        exact ⟨hlive, he, hi⟩
    · obtain ⟨k, hk, rfl⟩ := List.mem_map.mp h
      obtain ⟨hk, hl⟩ := List.mem_filter.mp hk
      simp only [leasable, Bool.and_eq_true, decide_eq_true_eq] at hl
      exact ⟨_, rfl, k, hk, by rw [hl.1.1.1.2]; rfl, rfl, rfl⟩

/-- A step other than the write of a report: `emails` keeps its identities, and the only events are
    leases of live rows. -/
theorem step_quiet {s' : Store} {c' : Call} {ev : List Event} (h : QueueStep s c s' c' ev)
    (hc : ∀ r job newer now, c ≠ .writing r job newer now) :
    (∀ e' ∈ s'.emails, ∃ e ∈ s.emails, e'.id = e.id ∧ e'.identity = e.identity) ∧
    ∀ e ∈ ev, ∃ j, e = .leased j ∧ ∃ k ∈ s.jobs, k.status.terminal = false ∧
      j.emailId = k.emailId ∧ j.identity = k.identity := by
  have same : ∀ e' ∈ s.emails, ∃ e ∈ s.emails, e'.id = e.id ∧ e'.identity = e.identity :=
    fun e he => ⟨e, he, rfl, rfl⟩
  cases h with
  | project => exact ⟨fun e' he' => mem_projectFlag he', by simp⟩
  | lease => exact ⟨same, fun e he => mem_leaseBatch he⟩
  | write => exact absurd rfl (hc _ _ _ _)
  | _ => exact ⟨same, by simp⟩

theorem JobMoves.live {j j' : JobRow} (h : JobMoves t c j j') (hj' : j'.status.terminal = false) :
    j.status.terminal = false := by
  by_contra hj
  rw [JobMoves.settled h (by simpa using hj)] at hj'
  exact hj hj'

theorem relocateEmail_identity {job : JobRow} {projection : Option MutationProjection}
    {p : MoveProjection} (hp : normalizedMoveProjection job projection = some p) (now : ℕ)
    (row : EmailRow) : (relocateEmail p now row).identity = p.identity := by
  simp [EmailRow.identity, MoveProjection.identity, relocateEmail,
    JsString.orElse_of_ne (sourceKey_ne_nil hp)]

/-- Rows and jobs whose identities did not change stay fresh under events that do not concern them. -/
theorem Fresh.quiet {s' : Store} {τ τ' : List Event} (hf : Fresh s τ)
    (hrows : ∀ e' ∈ s'.emails, ∃ e ∈ s.emails, e'.id = e.id ∧ e'.identity = e.identity)
    (hjobs : ∀ j' ∈ s'.jobs, j'.status.terminal = false → ∃ j ∈ s.jobs,
      j.status.terminal = false ∧ j'.emailId = j.emailId ∧ j'.identity = j.identity)
    (hτ : ∀ emailId identity, Current τ emailId identity → Current τ' emailId identity) :
    Fresh s' τ' where
  rows e' he' := by
    obtain ⟨e, he, hid, hi⟩ := hrows e' he'
    rw [hid, hi]
    exact hτ _ _ (hf.rows e he)
  live j' hj' hlive := by
    obtain ⟨j, hj, hl, hid, hi⟩ := hjobs j' hj' hlive
    rw [hid, hi]
    exact hτ _ _ (hf.live j hj hl)

/-- What a succeeded move or delete leaves live: the jobs behind the reported one, rewritten by `f`,
    and the jobs of other emails. -/
theorem behind_or_other (ho : Ordered s.jobs) {r : Report} {job h : JobRow} {newer : Bool} {now : ℕ}
    (hh : h ∈ s.jobs) (hkey : SameKey job h) (hl : holdsLease job.id r.leaseToken now h = true)
    (hr : r.status = .succeeded) {f : JobRow → JobRow} {j' : JobRow}
    (hj' : j' ∈ updateWhere (holdsLease job.id r.leaseToken now) (reportOutcome r job newer now)
      (updateWhere (pendingBehind job s.jobs) f s.jobs)) (hlive : j'.status.terminal = false) :
    ∃ j ∈ s.jobs, j.status.terminal = false ∧
      (j.emailId = job.emailId ∧ j' = f j ∨ j.emailId ≠ job.emailId ∧ j' = j) := by
  obtain ⟨k, hk, heq⟩ := mem_updateWhere.mp hj'
  obtain ⟨j, hj, hkj⟩ := mem_updateWhere.mp hk
  by_cases hk : holdsLease job.id r.leaseToken now k = true
  · rw [heq, if_pos hk] at hlive
    simp [reportOutcome, hr, closeRow, JobStatus.terminal] at hlive
  rw [if_neg hk] at heq
  subst heq
  by_cases hb : pendingBehind job s.jobs j = true
  · rw [if_pos hb] at hkj
    simp only [pendingBehind, Bool.and_eq_true, decide_eq_true_eq] at hb
    exact ⟨j, hj, by rw [hb.1.2]; rfl, .inl ⟨hb.1.1, hkj⟩⟩
  · rw [if_neg hb] at hkj
    subst hkj
    refine ⟨j', hj, hlive, .inr ⟨fun he => ?_, rfl⟩⟩
    -- a live job of the email that is not behind the reported one is the reported one
    have hne : j' ≠ h := by
      rintro rfl
      exact hk hl
    exact hb (behind_holder ho hh hl hkey.emailId hj he hlive hne)

/-- A succeeded move: the row and every job still live take the projected identity. -/
theorem Fresh.write_move {τ : List Event} {r : Report} {job h : JobRow} {newer : Bool} {now : ℕ}
    (hf : Fresh s τ) (ho : Ordered s.jobs) (hh : h ∈ s.jobs) (hkey : SameKey job h)
    (hi : h.identity = job.identity) (hl : holdsLease job.id r.leaseToken now h = true)
    (ha : acceptsProjection r job = true) (hr : r.status = .succeeded) (hop : job.operation = .move) :
    Fresh (reportWrite s r job newer now).1 (.reported h r now :: τ) := by
  obtain ⟨p, hp⟩ : ∃ p, normalizedMoveProjection job r.projection = some p := by
    rw [← Option.isSome_iff_exists]
    simpa [acceptsProjection, hr, hop] using ha
  have hg : leaseGuard r job now s.jobs = true := List.any_eq_true.mpr ⟨h, hh, hl⟩
  have hbefore : beforeClose s r job newer now = { s with
      emails := updateWhere (·.id = job.emailId) (relocateEmail p now) s.emails
      jobs := updateWhere (pendingBehind job s.jobs) (relocateRow p now) s.jobs } := by
    simp only [beforeClose, hr, hop, hp, hg, if_true]
  rw [reportWrite_accepted newer now ha, hbefore]
  have hother : ∀ emailId identity, emailId ≠ job.emailId → Current τ emailId identity →
      Current (.reported h r now :: τ) emailId identity :=
    fun _ _ hne hc => hc.cons_other (by rw [hkey.emailId]; exact fun he => hne he.symm)
  have hhere : ∀ identity, Current τ job.emailId identity →
      Current (.reported h r now :: τ) job.emailId p.identity := by
    intro identity hc
    have hp' : normalizedMoveProjection h r.projection = some p :=
      (normalizedMoveProjection_congr hkey hi _).trans hp
    rw [← hkey.emailId] at hc ⊢
    exact .of_move now hc.alive (hkey.operation.trans hop) hr hp'
  constructor
  · intro e' he'
    obtain ⟨e, he, rfl⟩ := mem_updateWhere.mp he'
    by_cases hid : e.id = job.emailId
    · rw [if_pos (by simpa using hid), relocateEmail_identity hp]
      have := hf.rows e he
      rw [hid] at this
      rw [show (relocateEmail p now e).id = job.emailId from hid]
      exact hhere _ this
    · rw [if_neg (by simpa using hid)]
      exact hother _ _ hid (hf.rows e he)
  · intro j' hj' hlive
    obtain ⟨j, hj, hlj, ⟨he, rfl⟩ | ⟨he, rfl⟩⟩ := behind_or_other ho hh hkey hl hr hj' hlive
    · have := hf.live j hj hlj
      rw [he] at this
      rw [show (relocateRow p now j).emailId = job.emailId from he]
      exact hhere _ this
    · exact hother _ _ he (hf.live _ hj hlj)

/-- A succeeded delete: no row and no live job of the email is left. -/
theorem Fresh.write_delete {τ : List Event} {r : Report} {job h : JobRow} {newer : Bool} {now : ℕ}
    (hf : Fresh s τ) (ho : Ordered s.jobs) (hh : h ∈ s.jobs) (hkey : SameKey job h)
    (hl : holdsLease job.id r.leaseToken now h = true) (ha : acceptsProjection r job = true)
    (hr : r.status = .succeeded) (hop : job.operation = .delete) :
    Fresh (reportWrite s r job newer now).1 (.reported h r now :: τ) := by
  have hg : leaseGuard r job now s.jobs = true := List.any_eq_true.mpr ⟨h, hh, hl⟩
  have hbefore : beforeClose s r job newer now = { s with
      jobs := updateWhere (pendingBehind job s.jobs) (sweepRow now) s.jobs
      emails := deleteWhere (·.id = job.emailId) s.emails } := by
    simp only [beforeClose, hr, hop, hg, if_true]
  rw [reportWrite_accepted newer now ha, hbefore]
  have hother : ∀ emailId identity, emailId ≠ job.emailId → Current τ emailId identity →
      Current (.reported h r now :: τ) emailId identity :=
    fun _ _ hne hc => hc.cons_other (by rw [hkey.emailId]; exact fun he => hne he.symm)
  constructor
  · intro e he
    obtain ⟨he, hne⟩ := mem_deleteWhere.mp he
    exact hother _ _ (by simpa using hne) (hf.rows e he)
  · intro j' hj' hlive
    obtain ⟨j, hj, hlj, ⟨-, rfl⟩ | ⟨he, rfl⟩⟩ := behind_or_other ho hh hkey hl hr hj' hlive
    · cases hlive
    · exact hother _ _ he (hf.live _ hj hlj)

/-- Any other accepted report leaves every identity alone. -/
theorem Fresh.write_other {τ : List Event} {r : Report} {job h : JobRow} {newer : Bool} {now : ℕ}
    (hf : Fresh s τ) (hkey : SameKey job h) (ha : acceptsProjection r job = true)
    (hother : r.status = .succeeded → isLocationOperation job.operation = false) :
    Fresh (reportWrite s r job newer now).1 (.reported h r now :: τ) := by
  have hop : r.status = .succeeded → job.operation ≠ .move ∧ job.operation ≠ .delete := fun hr => by
    simpa [isLocationOperation] using hother hr
  refine hf.quiet ?_ ?_ ?_
  · rw [reportWrite_accepted newer now ha]
    intro e' he'
    have same : e' ∈ s.emails → ∃ e ∈ s.emails, e'.id = e.id ∧ e'.identity = e.identity :=
      fun he => ⟨e', he, rfl, rfl⟩
    dsimp only [beforeClose] at he'
    split at he'
    · exact absurd ‹_› (hop ‹_›).1
    · exact absurd ‹_› (hop ‹_›).2
    · split at he'
      · split at he'
        · exact mem_projectFlag he'
        · exact same he'
      · exact same he'
    · exact same he'
  · intro j' hj' hlive
    obtain ⟨j, hj, hm⟩ := Forall₂.prev (moves_reportWrite s r job newer now) hj'
    refine ⟨j, hj, JobMoves.live hm hlive, (JobMoves.key hm).emailId, JobMoves.identity hm ?_⟩
    rintro _ _ _ _ ⟨⟩ hr
    exact (hop hr).1
  · intro emailId identity hc
    refine hc.cons ?_
    rintro _ _ _ ⟨⟩ - hr
    rw [hkey.operation]
    exact hop hr

/-! ### Runs whose INSERTs find the row they read -/

/-- When the request is about to INSERT its job: the row it read is still in `emails`, with the
    identity it had. -/
def Call.ReadsCurrent (s : Store) : Call → Prop
  | .stamped row _ _ _ => ∃ e ∈ s.emails, e.id = row.id ∧ e.identity = row.identity
  | _ => True

def InsertsCurrent (w : World Store Call Event) (i : ℕ) : Prop := (w.pc i).ReadsCurrent w.store

theorem fresh {w : World Store Call Event} (h : Reach queue InsertsCurrent w) :
    Fresh w.store w.trace := by
  refine Reach.invariant (I := fun w => Fresh w.store w.trace) ?_ ?_ h
  · intro s hs
    have nothing : ∀ emailId identity, Current [] emailId identity :=
      fun _ _ => ⟨by simp [Deleted], by simp [lastMove]⟩
    refine ⟨fun _ _ => nothing _ _, fun j hj => ?_⟩
    rw [show s.jobs = [] from hs] at hj
    cases hj
  intro w i s' l' ev hw hf hc hst
  obtain ⟨ho, hsound⟩ := ordered hw
  by_cases hwr : ∃ r job newer now, w.pc i = .writing r job newer now
  · obtain ⟨r, job, newer, now, hpc⟩ := hwr
    obtain ⟨k, hk, hkey, -, hki⟩ : (Call.writing r job newer now).Fixed w.store.jobs :=
      hpc ▸ fixed hw i
    rw [hpc] at hst
    cases hst
    rcases reportWrite_cases ho r job newer now with hnone | ⟨h, hh, hl, ha, hev⟩
    · rw [hnone]; exact hf
    -- the row that holds the lease is the one the request fetched
    obtain rfl : h = k := eq_of_key ho.ids hh hk ((holdsLease_iff.mp hl).1.trans hkey.id.symm)
    rw [advance_trace, hev]
    by_cases hloc : r.status = .succeeded ∧ isLocationOperation job.operation = true
    · obtain ⟨hr, hloc⟩ := hloc
      simp only [isLocationOperation, Bool.or_eq_true, decide_eq_true_eq] at hloc
      rcases hloc with hop | hop
      · exact hf.write_move ho hh hkey hki hl ha hr hop
      · exact hf.write_delete ho hh hkey hl ha hr hop
    · exact hf.write_other hkey ha fun hr => by simpa using fun h => hloc ⟨hr, h⟩
  · have hnw : ∀ r job newer now, w.pc i ≠ .writing r job newer now :=
      fun r job newer now h => hwr ⟨r, job, newer, now, h⟩
    obtain ⟨hrows, hev⟩ := step_quiet hst hnw
    have hτ : ∀ emailId identity, Current w.trace emailId identity →
        Current (ev ++ w.trace) emailId identity :=
      fun _ _ => Current.append fun e he => (hev e he).imp fun _ h => h.1
    rcases (hsound i).step_jobs ho hst with hm | ⟨row, intent, id, now, rowid, hpc, hjobs, -, -⟩
    · refine hf.quiet hrows (fun j' hj' hlive => ?_) hτ
      obtain ⟨j, hj, hjm⟩ := Forall₂.prev hm hj'
      exact ⟨j, hj, JobMoves.live hjm hlive, (JobMoves.key hjm).emailId,
        JobMoves.identity hjm fun r job newer now h => absurd h (hnw r job newer now)⟩
    · -- the job copies the identity of a row that is current
      unfold InsertsCurrent at hc
      rw [hpc] at hc
      obtain ⟨e, he, heid, hei⟩ := hc
      refine ⟨fun e' he' => ?_, fun j' hj' hlive => ?_⟩
      · obtain ⟨e, he, hid, hi⟩ := hrows e' he'
        rw [hid, hi]
        exact hτ _ _ (hf.rows e he)
      · rw [advance_store, hjobs] at hj'
        rcases List.mem_append.mp hj' with hj' | hj'
        · exact hτ _ _ (hf.live _ hj' hlive)
        · obtain rfl := List.mem_singleton.mp hj'
          rw [newJob_identity, ← hei, show (newJob rowid row intent id now).emailId = e.id from heid.symm]
          exact hτ _ _ (hf.rows e he)

/-! ### Around a move -/

/-- `demoEmail` has been moved; request 0 had read its row before. -/
def movedWorld : World Store Call Event where
  store := ⟨[closeRow .succeeded none 0 movedJob],
    [relocateEmail ⟨js "Trash", none, js "k2", none⟩ 0 demoEmail], 0⟩
  pc i := if i = 0 then .loaded demoEmail else .idle
  trace := [.reported movedJob (movedReport (js "j1")) 0, .leased movedJob]

theorem moved_reach : Reach queue InsertsCurrent movedWorld := by
  have h : Reach queue InsertsCurrent ⟨demoStore, fun _ => .idle, []⟩ := .start rfl
  have h := h.next 0 trivial (.load demoEmail (js "m1") (by decide))
  have h := h.next 1 trivial (.load demoEmail (js "m1") (by decide))
  have h := h.next 1 trivial (.plan moveIntent (.move (some trash)) (js "j1") (by decide))
  have h := h.next 1 ⟨demoEmail, by decide, rfl, rfl⟩ (.insert 1 (by decide) (by decide))
  have h := h.next 1 trivial .supersede
  have h := h.next 1 trivial (.beginClaim demoClaim (by decide))
  have h := h.next 1 trivial .repair
  have h := h.next 1 trivial .select
  have h := h.next 1 trivial .lease
  have h := h.next 1 trivial .answerClaim
  have h := h.next 1 trivial (.beginReport (movedReport (js "j1")) (by decide))
  have h := h.next 1 trivial (.fetch movedJob (by decide))
  have h := h.next 1 trivial .compare
  have h := h.next 1 trivial .readClock
  have h := h.next 1 trivial .write
  convert h using 1
  refine World.ext (by decide) (funext fun i => ?_) (by decide)
  by_cases h0 : i = 0 <;> by_cases h1 : i = 1 <;> simp_all [movedWorld, World.advance, Function.update]

/-- Along every run whose INSERTs find the row they read, each leased job carries the identity that
    the last succeeded move of its email projected, and no job of an email is leased once a delete of
    it succeeded. -/
theorem leases_current {w : World Store Call Event} (h : Reach queue InsertsCurrent w) :
    ∀ later j earlier, w.trace = later ++ .leased j :: earlier →
      Current earlier j.emailId j.identity := by
  have key : Historic (fun τ e => ∀ j, e = .leased j → Current τ j.emailId j.identity) w.trace := by
    refine Reach.invariant (I := fun w => Historic
      (fun τ e => ∀ j, e = .leased j → Current τ j.emailId j.identity) w.trace) ?_ ?_ h
    · exact fun _ _ => trivial
    intro w i s' l' ev hw hhist _ hst
    refine Historic.append (fun later e earlier hsplit => ?_) hhist
    rintro j rfl
    by_cases hwr : ∃ r job newer now, w.pc i = .writing r job newer now
    · obtain ⟨r, job, newer, now, hpc⟩ := hwr
      rw [hpc] at hst
      cases hst
      rcases reportWrite_cases (ordered hw).1 r job newer now with hnone | ⟨h, -, -, -, hev⟩
      · rw [hnone] at hsplit; simp at hsplit
      · rw [hev] at hsplit
        have hmem : Event.leased j ∈ [Event.reported h r now] := by rw [hsplit]; simp
        simp at hmem
    · obtain ⟨-, hev⟩ := step_quiet hst fun r job newer now h => hwr ⟨r, job, newer, now, h⟩
      obtain ⟨j', heq, k, hk, hlive, he, hi⟩ := hev (.leased j) (by rw [hsplit]; simp)
      cases heq
      rw [he, hi]
      refine Current.append (fun e he => ?_) ((fresh hw).live k hk hlive)
      exact (hev e (by rw [hsplit]; simp [he])).imp fun _ h => h.1
  intro later j earlier hτ
  exact historic_iff.mp key later _ earlier hτ j rfl

/-- A read intent that loads the moved row is leased with the identity `k2`. -/
theorem leases_current_run : ∃ w : World Store Call Event, Reach queue InsertsCurrent w ∧
    ∃ j earlier, w.trace = .leased j :: earlier ∧ (lastMove j.emailId earlier).isSome = true ∧
      Current earlier j.emailId j.identity := by
  have h := moved_reach
  have h := h.next 2 trivial
    (.load (relocateEmail ⟨js "Trash", none, js "k2", none⟩ 0 demoEmail) (js "m1") (by decide))
  have h := h.next 2 trivial (.plan (readIntent 1) (.state .isRead (some 1)) (js "j2") (by decide))
  have h := h.next 2 ⟨_, .head _, rfl, rfl⟩ (.insert 2 (by decide) (by decide))
  have h := h.next 3 trivial (.beginClaim demoClaim (by decide))
  have h := h.next 3 trivial .repair
  have h := h.next 3 trivial .select
  have h := h.next 3 trivial .lease
  exact ⟨_, h, _, _, rfl, by decide, leases_current h [] _ _ rfl⟩

/-- Request 0 queues a read intent from the row it read before the move; its job is leased with the
    identity that no longer exists at the provider. -/
theorem stale_identity_leased : ¬ ∀ w : World Store Call Event, Reachable queue w →
    ∀ later j earlier, w.trace = later ++ .leased j :: earlier →
      Current earlier j.emailId j.identity := by
  intro hall
  have h := moved_reach.reachable
  have h := h.next 0 trivial (.plan (readIntent 1) (.state .isRead (some 1)) (js "j2") (by decide))
  have h := h.next 0 trivial (.insert 2 (by decide) (by decide))
  have h := h.next 3 trivial (.beginClaim demoClaim (by decide))
  have h := h.next 3 trivial .repair
  have h := h.next 3 trivial .select
  have h := h.next 3 trivial .lease
  obtain ⟨p, hp, hi⟩ := (hall _ h [] _ _ rfl).moved movedJob (movedReport (js "j1")) (by decide)
  obtain rfl : p = ⟨js "Trash", none, js "k2", none⟩ := by
    refine Option.some.inj (hp.symm.trans ?_)
    decide
  revert hi
  decide

end OneMail.Mutation
