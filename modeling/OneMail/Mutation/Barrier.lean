import OneMail.Mutation.Serialization

/-! Attempted moves and deletes as an ordering barrier.

    A timed-out move or delete may already have happened at the provider, so once attempted it may
    leave the queue only on a definite answer under its own lease. Five statements can supersede a
    row; four of them spare attempted location jobs by a guard of their own. The fifth, the sweep of
    a succeeded delete, has no such guard: it is the order of the queue that keeps an attempted job
    from ever standing behind the job that sweeps (`Ordered.not_swept`). -/

namespace OneMail.Mutation
open Interleave Table

/-- A move or delete that has been handed to a provider at least once. -/
def Attempted (j : JobRow) : Prop := isLocationOperation j.operation = true ∧ 1 ≤ j.attempts

/-- The report `r`, with its second clock reading `now`, closed `j` under the lease `j` held, with
    the definite status it named. -/
def ClosedBy (r : Report) (now : ℕ) (j j' : JobRow) : Prop :=
  r.status ≠ .retry ∧ holdsLease j.id r.leaseToken now j = true ∧ j'.status = r.status.jobStatus

variable {t u : List JobRow} {c : Call}

/-- The row that a report finds under its lease is the job it fetched. -/
theorem holder_key (ho : Ordered t) {job : JobRow} (hs : ∃ k ∈ t, SameKey job k ∧ 1 ≤ k.attempts)
    {k : JobRow} (hk : k ∈ t) (hid : k.id = job.id) : SameKey job k := by
  obtain ⟨k', hk', hkey, -⟩ := hs
  obtain rfl : k = k' := eq_of_key ho.ids hk hk' (hid.trans hkey.id.symm)
  exact hkey

/-- An attempted job never stands behind a job that still holds a lease. -/
theorem Ordered.not_swept (ho : Ordered t) {job : JobRow}
    (hs : ∃ k ∈ t, SameKey job k ∧ 1 ≤ k.attempts) {r : Report} {now : ℕ}
    (hg : leaseGuard r job now t = true) {j k : JobRow} (hj : j ∈ t) (hjk : SameKey j k)
    (ha : 1 ≤ j.attempts) : pendingBehind job t k = false := by
  by_contra hb
  simp only [Bool.not_eq_false, pendingBehind, afterRow, List.any_eq_true, Bool.and_eq_true,
    decide_eq_true_eq] at hb
  obtain ⟨⟨he, -⟩, x, hx, hxid, hlt⟩ := hb
  simp only [leaseGuard, List.any_eq_true] at hg
  obtain ⟨holder, hh, hl⟩ := hg
  obtain ⟨hhid, hhp, -⟩ := holdsLease_iff.mp hl
  obtain rfl : x = holder := eq_of_key ho.ids hx hh (hxid.trans hhid.symm)
  have hterm := ho.attempted j hj ha x hx
    (by rw [(holder_key ho hs hx hxid).emailId, ← he, hjk.emailId]) (by rw [← hjk.rowid]; exact hlt)
  rw [hhp] at hterm
  cases hterm

theorem JobMoves.eq_of_processing {r : Report} {job : JobRow} {newer : Bool} {now : ℕ} {j k : JobRow}
    (h : JobMoves t (.writing r job newer now) j k) (hk : k.status = .processing) : k = j := by
  rcases JobMoves.processing h hk with h | ⟨-, _, _, _, hc, -⟩
  · exact h
  · cases hc

/-- What one move of a sound request can make of a live attempted job. -/
theorem JobMoves.attempted (ho : Ordered t) (hs : c.Sound t) {j j' : JobRow} (hj : j ∈ t)
    (ha : Attempted j) (hlive : j.status.terminal = false) (h : JobMoves t c j j') :
    (j'.status.terminal = false ∧ 1 ≤ j'.attempts) ∨
      ∃ r job newer now, c = .writing r job newer now ∧ ClosedBy r now j j' := by
  induction h with
  | refl => exact .inl ⟨hlive, ha.2⟩
  | @tail k l hjk hm ih =>
    have key := JobMoves.key hjk
    have hloc : isLocationOperation k.operation = true := by rw [key.operation]; exact ha.1
    have hkl : k.status.terminal = false := hm.live
    have hka : 1 ≤ k.attempts := by
      rcases ih with ih | ⟨r, job, newer, now, -, -, -, hk⟩
      · exact ih.2
      · exact ha.2.trans (JobMoves.attempts hjk).1
    cases hm with
    | recover => exact .inl ⟨rfl, hka⟩
    | collapse _ h0 => have := h0 hloc; omega
    | replace _ h0 => have := h0 hloc; omega
    | lease => exact .inl ⟨rfl, Nat.le_add_left ..⟩
    | relocate => exact .inl ⟨hkl, hka⟩
    | sweep _ _ hg hb => rw [ho.not_swept hs hg hj key ha.2] at hb; cases hb
    | @close r job newer now _ _ hl =>
      obtain ⟨hid, hp, -⟩ := holdsLease_iff.mp hl
      obtain rfl := JobMoves.eq_of_processing hjk hp
      rcases reportOutcome_spec r job newer now k with ⟨status, _, heq, hst⟩ | ⟨-, _, _, heq⟩
      · rcases hst with ⟨hr, rfl⟩ | ⟨-, hop, -⟩
        · exact .inr ⟨_, _, _, _, rfl, hr, by rw [hid]; exact hl, by rw [heq]; rfl⟩
        · rw [← (holder_key ho hs hj hid).operation, ha.1] at hop
          cases hop
      · rw [heq]
        exact .inl ⟨rfl, hka⟩

/-- A lease batch leaves a row alone or processing. -/
theorem JobMoves.leased {claim : Claim} {now : ℕ} {candidates : List Candidate} {j j' : JobRow}
    (h : JobMoves t (.selected claim now candidates) j j') : j' = j ∨ j'.status = .processing := by
  rcases Relation.ReflTransGen.cases_tail h with rfl | ⟨k, -, hm⟩
  · exact .inl rfl
  · cases hm
    exact .inr rfl

/-! ### The report that closes a job is on record -/

theorem mem_beforeClose {s : Store} {r : Report} {job : JobRow} {newer : Bool} {now : ℕ} {j : JobRow}
    (hj : j ∈ s.jobs) (hp : j.status = .processing) : j ∈ (beforeClose s r job newer now).jobs := by
  have kept : ∀ f : JobRow → JobRow, j ∈ updateWhere (pendingBehind job s.jobs) f s.jobs := by
    intro f
    refine mem_updateWhere.mpr ⟨j, hj, ?_⟩
    rw [if_neg]
    simp [pendingBehind, hp]
  unfold beforeClose
  split
  · split
    · exact hj
    · split
      · exact kept _
      · exact hj
  · split
    · exact kept _
    · exact hj
  · split
    · split <;> exact hj
    · exact hj
  · exact hj

/-- A leased row that a report changes is reported as it stood under its lease. -/
theorem reported_of_moved {s s' : Store} {c' : Call} {ev : List Event} {r : Report} {job : JobRow}
    {newer : Bool} {now : ℕ} {j j' : JobRow}
    (h : QueueStep s (.writing r job newer now) s' c' ev) (hj : j ∈ s.jobs)
    (hm : JobMoves s.jobs (.writing r job newer now) j j') (hne : j' ≠ j)
    (hp : j.status = .processing) : .reported j r now ∈ ev := by
  rcases Relation.ReflTransGen.cases_head hm with rfl | ⟨k, hk, -⟩
  · exact absurd rfl hne
  cases hk with
  | relocate _ _ _ _ hb => simp [pendingBehind, hp] at hb
  | sweep _ _ _ hb => simp [pendingBehind, hp] at hb
  | close ha hl =>
    cases h
    rw [reportWrite, if_pos ha]
    exact List.mem_map.mpr ⟨j, List.mem_filter.mpr ⟨mem_beforeClose hj hp, hl⟩, rfl⟩

/-- Some report on record closed `j` under the lease it held. -/
def ClosedOnRecord (τ : List Event) (j : JobRow) : Prop :=
  ∃ row r now, .reported row r now ∈ τ ∧ row.id = j.id ∧ ClosedBy r now row j

/-- Every attempted move or delete that is terminal was closed by a report on record. -/
theorem closed_on_record {C : World Store Call Event → ℕ → Prop} {w : World Store Call Event}
    (h : Reach queue C w) : ∀ j ∈ w.store.jobs, Attempted j → j.status.terminal = true →
      ClosedOnRecord w.trace j := by
  refine Reach.invariant (I := fun w => ∀ j ∈ w.store.jobs, Attempted j →
    j.status.terminal = true → ClosedOnRecord w.trace j) ?_ ?_ h
  · intro s hs j hj
    rw [show s.jobs = [] from hs] at hj
    cases hj
  intro w i s' l' ev hw hrec _ hst j' hj' ha' ht'
  obtain ⟨ho, hsound⟩ := ordered hw
  have later : ∀ {j : JobRow}, ClosedOnRecord w.trace j → ClosedOnRecord (ev ++ w.trace) j :=
    fun ⟨row, r, now, hmem, hrest⟩ => ⟨row, r, now, List.mem_append_right _ hmem, hrest⟩
  rcases (hsound i).step_jobs ho hst with hm | ⟨row, intent, id, now, rowid, -, hjobs, -, -⟩
  · obtain ⟨j, hj, hjm⟩ := Forall₂.prev hm hj'
    have key := JobMoves.key hjm
    by_cases hterm : j.status.terminal = true
    · -- a row that was terminal before has not moved
      obtain rfl := JobMoves.settled hjm hterm
      exact later (hrec _ hj ha' ht')
    rw [Bool.not_eq_true] at hterm
    -- the row had been attempted before: a lease batch makes no row terminal
    have ha : Attempted j := by
      refine ⟨by rw [← key.operation]; exact ha'.1, ?_⟩
      rcases (JobMoves.attempts hjm).2 with hat | ⟨_, _, _, hc, -⟩
      · rw [← hat]; exact ha'.2
      · rw [hc] at hjm
        rcases JobMoves.leased hjm with rfl | hp
        · rw [hterm] at ht'; cases ht'
        · rw [hp] at ht'; cases ht'
    rcases JobMoves.attempted ho (hsound i) hj ha hterm hjm with ⟨hl, -⟩ | ⟨r, job, newer, now, hc, hcl⟩
    · rw [hl] at ht'; cases ht'
    · have hne : j' ≠ j := by rintro rfl; rw [hterm] at ht'; cases ht'
      rw [hc] at hst hjm
      exact ⟨j, r, now, List.mem_append_left _ (reported_of_moved hst hj hjm hne
        (holdsLease_iff.mp hcl.2.1).2.1), key.id.symm, hcl⟩
  · rw [advance_store, hjobs] at hj'
    rcases List.mem_append.mp hj' with hj' | hj'
    · exact later (hrec _ hj' ha' ht')
    · obtain rfl := List.mem_singleton.mp hj'
      cases ht'

/-- An attempted move or delete stays in the queue until a report of succeeded, failed or
    unsupported closes it under its own unexpired lease, and no later job of its email is leased
    before such a report is on record. -/
theorem location_barrier {w w' : World Store Call Event} {i : ℕ} (h : Reachable queue w)
    (hst : Step queue i w w') :
    (∀ j ∈ w.store.jobs, Attempted j → j.status.terminal = false →
      ∃ j' ∈ w'.store.jobs, SameKey j j' ∧ (j'.status.terminal = false ∨
        ∃ r job newer now, w.pc i = .writing r job newer now ∧ ClosedBy r now j j')) ∧
    (∀ k ∈ w'.store.jobs, k.status = .processing →
      (∀ k₀ ∈ w.store.jobs, k₀.id = k.id → k₀.status ≠ .processing) →
      ∀ j ∈ w.store.jobs, j.emailId = k.emailId → j.rowid < k.rowid → Attempted j →
        ClosedOnRecord w.trace j) := by
  refine ⟨fun j hj ha hlive => ?_, fun k hk hp hnew j hj he hr ha => ?_⟩
  · obtain ⟨s', l', ev, hst, rfl⟩ := hst
    obtain ⟨ho, hsound⟩ := ordered h
    rcases (hsound i).step_jobs ho hst with hm | ⟨row, intent, id, now, rowid, -, hjobs, -, -⟩
    · obtain ⟨j', hj', hjm⟩ := Forall₂.next hm hj
      exact ⟨j', hj', JobMoves.key hjm,
        (JobMoves.attempted ho (hsound i) hj ha hlive hjm).imp_left And.left⟩
    · refine ⟨j, ?_, .refl j, .inl hlive⟩
      rw [advance_store, hjobs]
      exact List.mem_append_left _ hj
  · exact closed_on_record h j hj ha (settled_of_leased h hst hk hp hnew j hj he hr)

def trash : UnifiedFolderRow := ⟨js "Trash", none⟩

def moveIntent : Intent := ⟨.imap, .move, none, some trash⟩

/-- A move to the trash that the provider answered with the new identity `k2`. -/
def movedReport (id : JsString) : Report :=
  ⟨id, js "t", .succeeded, none, none, some ⟨some (js "Trash"), none, some (js "k2"), none⟩⟩

/-- The queued move of `demoEmail`, leased. -/
def movedJob : JobRow := leaseRow demoClaim 0 (newJob 1 demoEmail moveIntent (js "j1") 0)

/-- A leased move of `demoEmail` and the report that closes it. -/
theorem location_barrier_run : ∃ w w' : World Store Call Event,
    Reachable queue w ∧ Step queue 1 w w' ∧
    (∃ j ∈ w.store.jobs, Attempted j ∧ j.status = .processing) ∧
    ∀ j ∈ w.store.jobs, Attempted j → j.status.terminal = false →
      ∃ j' ∈ w'.store.jobs, SameKey j j' ∧ (j'.status.terminal = false ∨
        ∃ r job newer now, w.pc 1 = .writing r job newer now ∧ ClosedBy r now j j') := by
  have h : Reachable queue ⟨demoStore, fun _ => .idle, []⟩ := .start rfl
  have h := h.next 0 trivial (.load demoEmail (js "m1") (by decide))
  have h := h.next 0 trivial (.plan moveIntent (.move (some trash)) (js "j1") (by decide))
  have h := h.next 0 trivial (.insert 1 (by decide) (by decide))
  have h := h.next 0 trivial .supersede
  have h := h.next 0 trivial (.beginClaim demoClaim (by decide))
  have h := h.next 0 trivial .repair
  have h := h.next 0 trivial .select
  have h := h.next 0 trivial .lease
  have h := h.next 1 trivial (.beginReport (movedReport (js "j1")) (by decide))
  have h := h.next 1 trivial (.fetch movedJob (by decide))
  have h := h.next 1 trivial .compare
  have h := h.next 1 trivial .readClock
  refine ⟨_, _, h, .of 1 .write, ?_, (location_barrier h (.of 1 .write)).1⟩
  unfold Attempted
  decide

end OneMail.Mutation
