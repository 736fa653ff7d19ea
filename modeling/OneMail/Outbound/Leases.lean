import Mathlib
import OneMail.Outbound.Queue

/-! At most one lease on a job.

    A lease stays in the table as it was given until it has expired or a report closes it (`Inv.leases`), so two open
    leases of one job are one row. Only the lease batch writes a token, and each token has one batch: a row that has
    lost its token never gets it back, which bounds the accepted reports. A retry leaves its row pending, with the
    time of the next attempt, until that time has come. The attempts do not bound the recovery of expired leases. -/

namespace OneMail.Leases
open JsString Table Interleave
open Outbound (Status maxAttempts reportOutboundResult)

/-! ### Tokens -/

/-- The token of a claim that has not run its lease batch. -/
def Call.token : Call → Option JsString
  | .claiming claim _ | .recovered claim _ | .selected claim _ _ => some claim.leaseToken
  | _ => none

variable {s s' : Store} {c c' : Call} {ev τ : List Event}

theorem step_issued (h : QueueStep s c s' c' ev) : s.issued ⊆ s'.issued := by
  cases h <;> first | exact List.Subset.refl _ | exact List.subset_cons_self _ _

/-- A call has its token from before, or it brings a new one. -/
theorem step_token (h : QueueStep s c s' c' ev) {t : JsString} (ht : c'.token = some t) :
    c.token = some t ∨ t ∉ s.issued ∧ t ∈ s'.issued := by
  cases h with
  | beginClaim claim _ hnew =>
    cases ht
    exact .inr ⟨hnew, List.mem_cons_self⟩
  | recover => exact .inl ht
  | select => exact .inl ht
  | _ => cases ht

theorem token_issued {w : World Store Call Event} (h : Reachable queue w) (i : ℕ) {t : JsString}
    (ht : (w.pc i).token = some t) : t ∈ w.store.issued := by
  refine (Reach.shared (I := fun _ _ => True) (L := fun s _ c => ∀ t, c.token = some t → t ∈ s.issued)
    (fun s _ => ⟨trivial, fun t h => by cases h⟩) ?_ ?_ h).2 i t ht
  · intro w i s' l' ev _ _ _ hL hst
    refine ⟨trivial, fun t ht => ?_⟩
    rcases step_token hst ht with h | ⟨-, h⟩
    · exact step_issued hst (hL t h)
    · exact h
  · exact fun w i j s' l' ev _ _ _ _ _ hL hst t ht => step_issued hst (hL t ht)

/-- No two calls have one token. -/
theorem token_distinct {w : World Store Call Event} (h : Reachable queue w) :
    ∀ i j, i ≠ j → ∀ t, (w.pc i).token = some t → (w.pc j).token ≠ some t := by
  refine Reach.pairwise (Q := fun c d => ∀ t, c.token = some t → d.token ≠ some t)
    (fun c d h t hd hc => h t hc hd) (fun t h => by cases h) ?_ h
  intro w i j s' l' ev hw _ _ hQ hst t ht hj
  rcases step_token hst ht with hi | ⟨hnew, -⟩
  · exact hQ t hi hj
  · exact hnew (token_issued hw j hj)

/-! ### The invariant -/

/-- The job and the token of an accepted report. -/
def Event.closes : Event → Option (JsString × Option JsString)
  | .reported job _ => some (job.id, job.leaseToken)
  | _ => none

/-- A lease is given only after every earlier retry of its job is due. -/
def Due (τ : List Event) (e : Event) : Prop :=
  ∀ job now, e = .leased job now → ∀ j j', .reported j j' ∈ τ → j.id = job.id → j'.status = .pending →
    j'.nextAttemptAt ≤ now

structure Inv (s : Store) (τ : List Event) : Prop where
  ids : (s.jobs.map (·.id)).Nodup
  rows : ∀ j ∈ s.jobs, j.status = .processing ∧ (∃ t ∈ s.spent, j.leaseToken = some t) ∨
    j.status ≠ .processing ∧ j.leaseToken = none
  leases : ∀ job now, .leased job now ∈ τ → job.status = .processing ∧ (∃ u, job.leaseUntil = some u) ∧
    ((∃ k k', .reported k k' ∈ τ ∧ k.id = job.id ∧ k.leaseToken = job.leaseToken) ∨
      (∀ u, job.leaseUntil = some u → u ≤ s.clock) ∨ job ∈ s.jobs)
  reports : ∀ j j', .reported j j' ∈ τ → (∃ t ∈ s.spent, j.leaseToken = some t) ∧
    ∀ k ∈ s.jobs, k.id = j.id → k.leaseToken ≠ j.leaseToken
  once : (τ.filterMap Event.closes).Nodup
  retries : ∀ j j', .reported j j' ∈ τ → j'.status = .pending → j.attempts < maxAttempts ∧
    (j'.nextAttemptAt ≤ s.clock ∨
      ∃ k ∈ s.jobs, k.id = j.id ∧ k.status = .pending ∧ k.nextAttemptAt = j'.nextAttemptAt)
  due : Historic Due τ

/-- What a call knows: the clock it has read, that its batch has not run, and the attempts of the job it has read. -/
def Call.Knows (s : Store) : Call → Prop
  | .claiming claim now | .recovered claim now | .selected claim now _ => now ≤ s.clock ∧ claim.leaseToken ∉ s.spent
  | .fetched r attempts => r.leaseToken ∈ s.spent ∧
    ∀ j ∈ s.jobs, j.id = r.jobId → j.leaseToken = some r.leaseToken → j.attempts = attempts
  | .writing r attempts now => now ≤ s.clock ∧ r.leaseToken ∈ s.spent ∧
    ∀ j ∈ s.jobs, j.id = r.jobId → j.leaseToken = some r.leaseToken → j.attempts = attempts
  | _ => True

/-! ### The steps -/

/-- Statements that report nothing about jobs. -/
theorem Inv.quiet (h : Inv s τ) {e : Event} (he : e.closes = none) (hleased : ∀ job now, e ≠ .leased job now) :
    Inv s (e :: τ) where
  ids := h.ids
  rows := h.rows
  leases := fun job now hmem => by
    rcases List.mem_cons.mp hmem with heq | hmem
    · exact absurd heq.symm (hleased job now)
    · obtain ⟨hs, hu, hcases⟩ := h.leases job now hmem
      exact ⟨hs, hu, hcases.imp_left fun ⟨k, k', hk, hrest⟩ => ⟨k, k', List.mem_cons_of_mem _ hk, hrest⟩⟩
  reports := fun j j' hmem => by
    rcases List.mem_cons.mp hmem with heq | hmem
    · rw [← heq] at he
      cases he
    · exact h.reports j j' hmem
  once := by
    rw [List.filterMap_cons, he]
    exact h.once
  retries := fun j j' hmem => by
    rcases List.mem_cons.mp hmem with heq | hmem
    · rw [← heq] at he
      cases he
    · exact h.retries j j' hmem
  due := ⟨fun job now heq => absurd heq (hleased job now), h.due⟩

theorem Inv.quietAll (h : Inv s τ) : ∀ {ev : List Event},
    (∀ e ∈ ev, e.closes = none ∧ ∀ job now, e ≠ .leased job now) → Inv s (ev ++ τ)
  | [], _ => h
  | _ :: _, hev =>
    (h.quietAll fun e he => hev e (List.mem_cons_of_mem _ he)).quiet (hev _ List.mem_cons_self).1
      (hev _ List.mem_cons_self).2

/-- Statements that give no lease and close none: pending rows stay, and processing ones too unless expired. -/
theorem Inv.change (h : Inv s τ) (hclock : s.clock ≤ s'.clock) (hspent : s'.spent = s.spent)
    (hids : (s'.jobs.map (·.id)).Nodup)
    (hkept : ∀ j ∈ s.jobs, j.status.terminal = false → j ∈ s'.jobs ∨ expired s'.clock j = true)
    (hnew : ∀ k ∈ s'.jobs, k ∈ s.jobs ∨ k.status ≠ .processing ∧ k.leaseToken = none) : Inv s' τ where
  ids := hids
  rows := fun k hk => by
    rcases hnew k hk with hk | hk
    · rw [hspent]
      exact h.rows k hk
    · exact .inr hk
  leases := fun job now hmem => by
    obtain ⟨hs, hu, hcases⟩ := h.leases job now hmem
    refine ⟨hs, hu, ?_⟩
    rcases hcases with hclosed | hexpired | hjob
    · exact .inl hclosed
    · exact .inr (.inl fun u hu => (hexpired u hu).trans hclock)
    · rcases hkept job hjob (by rw [hs]; rfl) with hjob | hexpired
      · exact .inr (.inr hjob)
      · obtain ⟨-, u, hu, hle⟩ := expired_iff.mp hexpired
        exact .inr (.inl fun u' hu' => by rw [hu] at hu'; cases hu'; exact hle)
  reports := fun j j' hmem => by
    obtain ⟨⟨t, ht, htoken⟩, hlost⟩ := h.reports j j' hmem
    refine ⟨⟨t, hspent ▸ ht, htoken⟩, fun k hk hid => ?_⟩
    rcases hnew k hk with hk | ⟨-, hnone⟩
    · exact hlost k hk hid
    · rw [hnone, htoken]
      exact fun heq => by cases heq
  once := h.once
  retries := fun j j' hmem hpending => by
    obtain ⟨hattempts, hcases⟩ := h.retries j j' hmem hpending
    refine ⟨hattempts, ?_⟩
    rcases hcases with hdue | ⟨k, hk, hid, hs, hnext⟩
    · exact .inl (hdue.trans hclock)
    · rcases hkept k hk (by rw [hs]; rfl) with hk | hexpired
      · exact .inr ⟨k, hk, hid, hs, hnext⟩
      · rw [(expired_iff.mp hexpired).1] at hs
        cases hs
  due := h.due

theorem Inv.recover (h : Inv s τ) {now : ℕ} (hnow : now ≤ s.clock) :
    Inv { s with jobs := recoverExpired now s.jobs } τ := by
  refine h.change le_rfl rfl ?_ (fun j hj _ => ?_) fun k hk => ?_
  · show ((updateWhere (expired now) (recoverRow now) s.jobs).map (·.id)).Nodup
    rw [map_updateWhere _ fun _ => recoverRow_id]
    exact h.ids
  · by_cases hexpired : expired now j = true
    · obtain ⟨hs, u, hu, hle⟩ := expired_iff.mp hexpired
      exact .inr (expired_iff.mpr ⟨hs, u, hu, hle.trans hnow⟩)
    · have hmem := mem_updateWhere_of_mem (p := expired now) (f := recoverRow now) hj
      rw [if_neg hexpired] at hmem
      exact .inl hmem
  · obtain ⟨j, hj, rfl⟩ := mem_updateWhere.mp hk
    split
    · exact .inr ⟨by simp [recoverRow], rfl⟩
    · exact .inl hj

theorem Inv.enqueue (h : Inv s τ) {id : JsString} {now : ℕ} (hid : ∀ j ∈ s.jobs, j.id ≠ id) :
    Inv { s with jobs := s.jobs ++ [newJob id now] } τ := by
  refine h.change le_rfl rfl (nodup_append_key h.ids hid) (fun j hj _ => .inl (List.mem_append_left _ hj)) fun k hk => ?_
  rcases List.mem_append.mp hk with hk | hk
  · exact .inl hk
  · obtain rfl := List.mem_singleton.mp hk
    exact .inr ⟨by simp [newJob], rfl⟩

theorem Inv.prune (h : Inv s τ) {cutoff : ℕ} {p : JobRow → Bool} (hp : ∀ j, p j = true → prunable cutoff j = true) :
    Inv { s with jobs := deleteWhere p s.jobs } τ := by
  refine h.change le_rfl rfl (h.ids.sublist (List.filter_sublist.map _)) (fun j hj hlive => ?_)
    fun k hk => .inl (mem_deleteWhere.mp hk).1
  refine .inl (mem_deleteWhere.mpr ⟨hj, ?_⟩)
  by_contra hpj
  have hterminal := hp j (Bool.eq_true_of_not_eq_false hpj)
  rw [prunable, hlive] at hterminal
  cases hterminal

/-- The lease batch of a claim whose token is new to the table. -/
theorem Inv.lease (h : Inv s τ) {claim : Claim} {now : ℕ} {candidates : List JsString} (hnow : now ≤ s.clock)
    (hspent : claim.leaseToken ∉ s.spent) :
    Inv { s with jobs := leaseBatch claim now candidates s.jobs, spent := claim.leaseToken :: s.spent }
      ((s.jobs.filter (leasable now candidates)).map (fun j => .leased (leaseRow claim now j) s.clock) ++ τ) := by
  have hready : ∀ j, leasable now candidates j = true → j.status = .pending ∧ j.nextAttemptAt ≤ now := fun j hj => by
    rw [leasable, Bool.and_eq_true] at hj
    exact ready_iff.mp hj.2
  have hkept : ∀ j ∈ s.jobs, j.status ≠ .pending → j ∈ leaseBatch claim now candidates s.jobs := fun j hj hs => by
    have hmem := mem_updateWhere_of_mem (p := leasable now candidates) (f := leaseRow claim now) hj
    rw [if_neg fun hl => hs (hready j hl).1] at hmem
    rwa [leaseBatch_eq]
  have hrow : ∀ k ∈ leaseBatch claim now candidates s.jobs, k ∈ s.jobs ∨
      ∃ j ∈ s.jobs, leasable now candidates j = true ∧ k = leaseRow claim now j := fun k hk => by
    rw [leaseBatch_eq] at hk
    obtain ⟨j, hj, rfl⟩ := mem_updateWhere.mp hk
    split
    · exact .inr ⟨j, hj, ‹_›, rfl⟩
    · exact .inl hj
  have hold : ∀ j j', .reported j j' ∈ (s.jobs.filter (leasable now candidates)).map
      (fun j => Event.leased (leaseRow claim now j) s.clock) ++ τ → .reported j j' ∈ τ := fun j j' hmem => by
    rcases List.mem_append.mp hmem with hmem | hmem
    · obtain ⟨_, -, heq⟩ := List.mem_map.mp hmem
      cases heq
    · exact hmem
  have hretry : ∀ j j' k, .reported j j' ∈ τ → j'.status = .pending → k ∈ s.jobs → leasable now candidates k = true →
      k.id = j.id → j'.nextAttemptAt ≤ s.clock := fun j j' k hmem hpending hk hl hid => by
    rcases (h.retries j j' hmem hpending).2 with hdue | ⟨k', hk', hid', -, hnext⟩
    · exact hdue
    · obtain rfl := eq_of_key h.ids hk hk' (hid.trans hid'.symm)
      exact hnext ▸ (hready k hl).2.trans hnow
  constructor
  · show ((leaseBatch claim now candidates s.jobs).map (·.id)).Nodup
    rw [leaseBatch_eq, map_updateWhere _ fun _ => leaseRow_id]
    exact h.ids
  · intro k hk
    rcases hrow k hk with hk | ⟨j, -, -, rfl⟩
    · refine (h.rows k hk).imp_left ?_
      rintro ⟨hs, t, ht, htoken⟩
      exact ⟨hs, t, List.mem_cons_of_mem _ ht, htoken⟩
    · exact .inl ⟨rfl, _, List.mem_cons_self, rfl⟩
  · intro job at' hmem
    rcases List.mem_append.mp hmem with hmem | hmem
    · obtain ⟨j, hj, heq⟩ := List.mem_map.mp hmem
      cases heq
      obtain ⟨hj, hl⟩ := List.mem_filter.mp hj
      have hleased := mem_updateWhere_of_mem (p := leasable now candidates) (f := leaseRow claim now) hj
      rw [if_pos hl, ← leaseBatch_eq] at hleased
      exact ⟨rfl, ⟨_, rfl⟩, .inr (.inr hleased)⟩
    · obtain ⟨hs, hu, hcases⟩ := h.leases job at' hmem
      refine ⟨hs, hu, ?_⟩
      rcases hcases with ⟨k, k', hk, hrest⟩ | hexpired | hjob
      · exact .inl ⟨k, k', List.mem_append_right _ hk, hrest⟩
      · exact .inr (.inl hexpired)
      · exact .inr (.inr (hkept job hjob (by rw [hs]; decide)))
  · intro j j' hmem
    obtain ⟨⟨t, ht, htoken⟩, hlost⟩ := h.reports j j' (hold j j' hmem)
    refine ⟨⟨t, List.mem_cons_of_mem _ ht, htoken⟩, fun k hk hid => ?_⟩
    rcases hrow k hk with hk | ⟨k, -, -, rfl⟩
    · exact hlost k hk hid
    · rw [htoken]
      intro heq
      cases heq
      exact hspent ht
  · rw [List.filterMap_append, List.filterMap_eq_nil_iff.mpr, List.nil_append]
    · exact h.once
    · intro e he
      obtain ⟨j, -, rfl⟩ := List.mem_map.mp he
      rfl
  · intro j j' hmem hpending
    obtain ⟨hattempts, hcases⟩ := h.retries j j' (hold j j' hmem) hpending
    refine ⟨hattempts, ?_⟩
    rcases hcases with hdue | ⟨k, hk, hid, hs, hnext⟩
    · exact .inl hdue
    · by_cases hl : leasable now candidates k = true
      · exact .inl (hretry j j' k (hold j j' hmem) hpending hk hl hid)
      · have hstays := mem_updateWhere_of_mem (p := leasable now candidates) (f := leaseRow claim now) hk
        rw [if_neg hl, ← leaseBatch_eq] at hstays
        exact .inr ⟨k, hstays, hid, hs, hnext⟩
  · refine Historic.append (fun later e earlier hsplit => ?_) h.due
    rintro job at' rfl j j' hmem hid hpending
    have hlater : Event.leased job at' ∈ (s.jobs.filter (leasable now candidates)).map
        fun j => Event.leased (leaseRow claim now j) s.clock := by
      rw [hsplit]
      exact List.mem_append_right _ List.mem_cons_self
    obtain ⟨k, hk, heq⟩ := List.mem_map.mp hlater
    cases heq
    obtain ⟨hk, hl⟩ := List.mem_filter.mp hk
    refine hretry j j' k (hold j j' ?_) hpending hk hl hid.symm
    rcases List.mem_append.mp hmem with hmem | hmem
    · rw [hsplit]
      exact List.mem_append_left _ (List.mem_append_right _ (List.mem_cons_of_mem _ hmem))
    · exact List.mem_append_right _ hmem

/-- The write of a report that knows the attempts of the job it has read. -/
theorem Inv.write (h : Inv s τ) {r : Report} {attempts now : ℕ}
    (hread : ∀ j ∈ s.jobs, j.id = r.jobId → j.leaseToken = some r.leaseToken → j.attempts = attempts) :
    Inv { s with jobs := updateWhere (holdsLease r.jobId r.leaseToken now) (reportRow r attempts now) s.jobs }
      ((s.jobs.filter (holdsLease r.jobId r.leaseToken now)).map
        (fun j => .reported j (reportRow r attempts now j)) ++ τ) := by
  have hkeys : ((updateWhere (holdsLease r.jobId r.leaseToken now) (reportRow r attempts now) s.jobs).map (·.id)) =
      s.jobs.map (·.id) := map_updateWhere _ fun j => (reportRow_spec r attempts now j).1
  cases hheld : s.jobs.filter (holdsLease r.jobId r.leaseToken now) with
  | nil =>
    rw [updateWhere_eq_self fun j hj => by
      by_contra hne
      have hmem := List.mem_filter.mpr ⟨hj, Bool.eq_true_of_not_eq_false hne⟩
      rw [hheld] at hmem
      cases hmem]
    exact h
  | cons j rest =>
    obtain ⟨hj, hholds⟩ := List.mem_filter.mp (hheld ▸ List.mem_cons_self)
    have hone := filter_eq_singleton h.ids hj hholds fun k _ hk =>
      (holdsLease_iff.mp hk).1.trans (holdsLease_iff.mp hholds).1.symm
    rw [hheld] at hone
    rw [hone, List.map_singleton, List.singleton_append]
    obtain ⟨hid, hs, htoken, -⟩ := holdsLease_iff.mp hholds
    obtain ⟨hspecId, hspecToken, hspec⟩ := reportRow_spec r attempts now j
    have hnew := mem_updateWhere_of_mem (p := holdsLease r.jobId r.leaseToken now) (f := reportRow r attempts now) hj
    rw [if_pos hholds] at hnew
    have hkept : ∀ k ∈ s.jobs, k ≠ j →
        k ∈ updateWhere (holdsLease r.jobId r.leaseToken now) (reportRow r attempts now) s.jobs := fun k hk hne => by
      have hmem := mem_updateWhere_of_mem (p := holdsLease r.jobId r.leaseToken now) (f := reportRow r attempts now) hk
      rwa [if_neg fun hheld => hne (eq_of_key h.ids hk hj ((holdsLease_iff.mp hheld).1.trans hid.symm))] at hmem
    have hrow : ∀ k ∈ updateWhere (holdsLease r.jobId r.leaseToken now) (reportRow r attempts now) s.jobs,
        k ∈ s.jobs ∧ k ≠ j ∨ k = reportRow r attempts now j := fun k hk => by
      obtain ⟨i, hi, rfl⟩ := mem_updateWhere.mp hk
      by_cases hij : i = j
      · rw [hij, if_pos hholds]
        exact .inr rfl
      · rw [if_neg fun hheld => hij (eq_of_key h.ids hi hj ((holdsLease_iff.mp hheld).1.trans hid.symm))]
        exact .inl ⟨hi, hij⟩
    obtain ⟨-, t, ht, htoken'⟩ := (h.rows j hj).resolve_right fun hrow => hrow.1 hs
    constructor
    · exact hkeys ▸ h.ids
    · intro k hk
      rcases hrow k hk with ⟨hk, -⟩ | rfl
      · exact h.rows k hk
      · refine .inr ⟨?_, hspecToken⟩
        rcases hspec with hterminal | ⟨hpending, -⟩
        · intro hs
          rw [hs] at hterminal
          cases hterminal
        · rw [hpending]
          decide
    · intro job at' hmem
      obtain ⟨hs', hu, hcases⟩ := h.leases job at' ((List.mem_cons.mp hmem).resolve_left fun heq => by cases heq)
      refine ⟨hs', hu, ?_⟩
      rcases hcases with ⟨k, k', hk, hrest⟩ | hexpired | hjob
      · exact .inl ⟨k, k', List.mem_cons_of_mem _ hk, hrest⟩
      · exact .inr (.inl hexpired)
      · by_cases hjob' : job = j
        · exact .inl ⟨j, _, List.mem_cons_self, by rw [hjob'], by rw [hjob']⟩
        · exact .inr (.inr (hkept job hjob hjob'))
    · intro i i' hmem
      rcases List.mem_cons.mp hmem with heq | hmem
      · cases heq
        refine ⟨⟨t, ht, htoken'⟩, fun k hk hkid => ?_⟩
        rcases hrow k hk with ⟨hk, hne⟩ | rfl
        · exact absurd (eq_of_key h.ids hk hj hkid) hne
        · rw [hspecToken, htoken]
          exact fun heq => by cases heq
      · obtain ⟨⟨u, hu, hutoken⟩, hlost⟩ := h.reports i i' hmem
        refine ⟨⟨u, hu, hutoken⟩, fun k hk hkid => ?_⟩
        rcases hrow k hk with ⟨hk, -⟩ | rfl
        · exact hlost k hk hkid
        · rw [hspecToken, hutoken]
          exact fun heq => by cases heq
    · refine List.nodup_cons.mpr ⟨fun hmem => ?_, h.once⟩
      obtain ⟨e, he, hcloses⟩ := List.mem_filterMap.mp hmem
      cases e with
      | reported i i' =>
        obtain ⟨hkid, hktoken⟩ := Prod.mk.inj (Option.some.inj hcloses)
        exact (h.reports i i' he).2 j hj hkid.symm hktoken.symm
      | _ => cases hcloses
    · intro i i' hmem hpending
      rcases List.mem_cons.mp hmem with heq | hmem
      · cases heq
        rcases hspec with hterminal | ⟨-, hlt⟩
        · rw [hpending] at hterminal
          cases hterminal
        · exact ⟨by rw [hread j hj hid htoken]; exact hlt, .inr ⟨_, hnew, hspecId, hpending, rfl⟩⟩
      · obtain ⟨hattempts, hcases⟩ := h.retries i i' hmem hpending
        refine ⟨hattempts, ?_⟩
        rcases hcases with hdue | ⟨k, hk, hkid, hks, hnext⟩
        · exact .inl hdue
        · refine .inr ⟨k, hkept k hk fun heq => ?_, hkid, hks, hnext⟩
          rw [heq, hs] at hks
          cases hks
    · exact ⟨fun job at' heq => (by cases heq), h.due⟩

/-! ### Every run -/

theorem step_clock (h : QueueStep s c s' c' ev) : s.clock ≤ s'.clock := by
  cases h <;> first | exact le_rfl | exact Nat.le_add_right _ _

theorem step_spent (h : QueueStep s c s' c' ev) :
    s.spent ⊆ s'.spent ∧ ∀ t ∈ s'.spent, t ∈ s.spent ∨ c.token = some t := by
  cases h with
  | lease =>
    refine ⟨List.subset_cons_self _ _, fun t ht => ?_⟩
    rcases List.mem_cons.mp ht with rfl | ht
    · exact .inr rfl
    · exact .inl ht
  | _ => exact ⟨List.Subset.refl _, fun t ht => .inl ht⟩

/-- A row that holds a token is as before, or was leased with it just now. -/
theorem step_token_row (h : QueueStep s c s' c' ev) {j : JobRow} (hj : j ∈ s'.jobs) {t : JsString}
    (ht : j.leaseToken = some t) :
    j ∈ s.jobs ∨ ∃ claim now candidates, c = .selected claim now candidates ∧ claim.leaseToken = t := by
  cases h with
  | enqueue id now _ =>
    rcases List.mem_append.mp hj with hj | hj
    · exact .inl hj
    · obtain rfl := List.mem_singleton.mp hj
      cases ht
  | prune cutoff p _ => exact .inl (mem_deleteWhere.mp hj).1
  | recover =>
    obtain ⟨k, hk, rfl⟩ := mem_updateWhere.mp hj
    split at ht
    · cases ht
    · rename_i hexpired
      rw [if_neg hexpired]
      exact .inl hk
  | lease =>
    rw [leaseBatch_eq] at hj
    obtain ⟨k, hk, rfl⟩ := mem_updateWhere.mp hj
    split at ht
    · exact .inr ⟨_, _, _, rfl, Option.some.inj ht⟩
    · rename_i hl
      rw [if_neg hl]
      exact .inl hk
  | write =>
    obtain ⟨k, hk, rfl⟩ := mem_updateWhere.mp hj
    split at ht
    · rw [(reportRow_spec _ _ _ k).2.1] at ht
      cases ht
    · rename_i hheld
      rw [if_neg hheld]
      exact .inl hk
  | _ => exact .inl hj

theorem Inv.step (h : Inv s τ) (hknows : c.Knows s) (hissued : s.spent ⊆ s.issued) (hst : QueueStep s c s' c' ev) :
    Inv s' (ev ++ τ) ∧ c'.Knows s' := by
  cases hst with
  | tick d =>
    exact ⟨h.change (Nat.le_add_right _ _) rfl h.ids (fun j hj _ => .inl hj) fun k hk => .inl hk, trivial⟩
  | enqueue id now hid => exact ⟨h.enqueue hid, trivial⟩
  | prune cutoff p hp =>
    refine ⟨(h.prune hp).quietAll fun e he => ?_, trivial⟩
    obtain ⟨j, -, rfl⟩ := List.mem_map.mp he
    exact ⟨rfl, fun job now heq => by cases heq⟩
  | beginClaim claim _ hnew =>
    exact ⟨h.change le_rfl rfl h.ids (fun j hj _ => .inl hj) fun k hk => .inl hk, le_rfl, fun hmem => hnew (hissued hmem)⟩
  | recover => exact ⟨h.recover hknows.1, hknows⟩
  | select => exact ⟨h, hknows⟩
  | lease => exact ⟨h.lease hknows.1 hknows.2, trivial⟩
  | answerClaim => exact ⟨h.quiet rfl fun job now heq => (by cases heq), trivial⟩
  | beginReport r _ => exact ⟨h, trivial⟩
  | fetch job hfind =>
    obtain ⟨hid, hs, htoken, -⟩ := holdsLease_iff.mp (List.find?_some hfind)
    have hjob := List.mem_of_find?_eq_some hfind
    obtain ⟨-, t, ht, htoken'⟩ := (h.rows job hjob).resolve_right fun hrow => hrow.1 hs
    rw [htoken] at htoken'
    cases htoken'
    refine ⟨h, ht, fun j hj hjid _ => ?_⟩
    rw [eq_of_key h.ids hj hjob (hjid.trans hid.symm)]
  | stale _ => exact ⟨h, trivial⟩
  | readClock => exact ⟨h, le_rfl, hknows⟩
  | write => exact ⟨h.write hknows.2.2, trivial⟩

/-- The step of another call leaves standing what a call knows. -/
theorem Call.Knows.stable {d : Call} (hd : d.Knows s) (hknows : c.Knows s) (hst : QueueStep s c s' c' ev)
    (hne : ∀ t, c.token = some t → d.token ≠ some t) : d.Knows s' := by
  have hclock := step_clock hst
  obtain ⟨hspent, hspent'⟩ := step_spent hst
  have hunspent : ∀ t, d.token = some t → t ∉ s.spent → t ∉ s'.spent := fun t hdt hnot hmem =>
    (hspent' t hmem).elim hnot fun hct => hne t hct hdt
  have hattempts : ∀ (r : Report) (attempts : ℕ), r.leaseToken ∈ s.spent →
      (∀ j ∈ s.jobs, j.id = r.jobId → j.leaseToken = some r.leaseToken → j.attempts = attempts) →
      ∀ j ∈ s'.jobs, j.id = r.jobId → j.leaseToken = some r.leaseToken → j.attempts = attempts := by
    intro r attempts hmem hread j hj hid htoken
    rcases step_token_row hst hj htoken with hj | ⟨claim, now, candidates, rfl, htoken'⟩
    · exact hread j hj hid htoken
    · exact absurd (htoken' ▸ hmem) hknows.2
  cases d with
  | claiming claim now => exact ⟨hd.1.trans hclock, hunspent _ rfl hd.2⟩
  | recovered claim now => exact ⟨hd.1.trans hclock, hunspent _ rfl hd.2⟩
  | selected claim now candidates => exact ⟨hd.1.trans hclock, hunspent _ rfl hd.2⟩
  | fetched r attempts => exact ⟨hspent hd.1, hattempts r attempts hd.1 hd.2⟩
  | writing r attempts now => exact ⟨hd.1.trans hclock, hspent hd.2.1, hattempts r attempts hd.2.1 hd.2.2⟩
  | _ => trivial

theorem spent_issued {w : Interleave.World Store Call Event} (h : Reachable queue w) : w.store.spent ⊆ w.store.issued := by
  refine Reach.invariant (I := fun w => w.store.spent ⊆ w.store.issued) (fun s hs => ?_) ?_ h
  · rw [hs.2.2]
    exact List.nil_subset _
  · intro w i s' l' ev hw hsub _ hst t ht
    rcases (step_spent hst).2 t ht with ht | ht
    · exact step_issued hst (hsub ht)
    · exact step_issued hst (token_issued hw i ht)

theorem inv {w : Interleave.World Store Call Event} (h : Reachable queue w) :
    Inv w.store w.trace ∧ ∀ i, (w.pc i).Knows w.store := by
  refine Reach.shared (L := fun s _ c => c.Knows s) (fun s hs => ?_) ?_ ?_ h
  · obtain ⟨hjobs, -, -⟩ := hs
    refine ⟨⟨?_, ?_, ?_, ?_, ?_, ?_, trivial⟩, trivial⟩
    · rw [hjobs]
      exact List.nodup_nil
    · rw [hjobs]
      exact fun j hj => by cases hj
    · exact fun job now hmem => by cases hmem
    · exact fun j j' hmem => by cases hmem
    · exact List.nodup_nil
    · exact fun j j' hmem => by cases hmem
  · exact fun w i s' l' ev hw _ hI hL hst => hI.step hL (spent_issued hw) hst
  · exact fun w i j s' l' ev hw _ hne _ hL hLj hst =>
      hLj.stable hL hst fun t => token_distinct hw i j (Ne.symm hne) t

/-! ### What holds of every run -/

/-- The token was given a lease on the job that has neither expired nor been closed by a report. -/
def Holds (s : Store) (τ : List Event) (id token : JsString) : Prop :=
  ∃ job now, .leased job now ∈ τ ∧ job.id = id ∧ job.leaseToken = some token ∧
    (∃ u, job.leaseUntil = some u ∧ s.clock < u) ∧ ∀ j j', .reported j j' ∈ τ → j.id = id → j.leaseToken ≠ some token

/-- The row of an open lease. -/
theorem Inv.held (h : Inv s τ) {id token : JsString} (hh : Holds s τ id token) :
    ∃ j ∈ s.jobs, j.id = id ∧ j.leaseToken = some token := by
  obtain ⟨job, now, hmem, hid, htoken, ⟨u, hu, hlt⟩, hopen⟩ := hh
  obtain ⟨-, -, hcases⟩ := h.leases job now hmem
  rcases hcases with ⟨k, k', hk, hkid, hktoken⟩ | hexpired | hjob
  · exact absurd (hktoken.trans htoken) (hopen k k' hk (hkid.trans hid))
  · exact absurd (hexpired u hu) (not_le.mpr hlt)
  · exact ⟨job, hjob, hid, htoken⟩

theorem Inv.exclusive (h : Inv s τ) {id t t' : JsString} (ht : Holds s τ id t) (ht' : Holds s τ id t') : t = t' := by
  obtain ⟨j, hj, hid, htoken⟩ := h.held ht
  obtain ⟨k, hk, hkid, hktoken⟩ := h.held ht'
  obtain rfl := eq_of_key h.ids hj hk (hid.trans hkid.symm)
  exact Option.some.inj (htoken.symm.trans hktoken)

/-- A step leaves a terminal job alone, or prunes it. -/
theorem step_terminal (h : QueueStep s c s' c' ev) {j : JobRow} (hj : j ∈ s.jobs) (hterminal : j.status.terminal = true) :
    j ∈ s'.jobs ∨ .pruned j ∈ ev := by
  have hpending : j.status ≠ .pending := fun hs => by rw [hs] at hterminal; cases hterminal
  have hprocessing : j.status ≠ .processing := fun hs => by rw [hs] at hterminal; cases hterminal
  have hstays : ∀ {p : JobRow → Bool} {f : JobRow → JobRow}, p j = false → j ∈ updateWhere p f s.jobs := by
    intro p f hp
    have hmem := mem_updateWhere_of_mem (p := p) (f := f) hj
    rwa [if_neg (by rw [hp]; exact Bool.false_ne_true)] at hmem
  cases h with
  | enqueue => exact .inl (List.mem_append_left _ hj)
  | prune cutoff p _ =>
    cases hp : p j with
    | true => exact .inr (List.mem_map.mpr ⟨j, List.mem_filter.mpr ⟨hj, hp⟩, rfl⟩)
    | false => exact .inl (mem_deleteWhere.mpr ⟨hj, hp⟩)
  | recover => exact .inl (hstays (Bool.eq_false_iff.mpr fun he => hprocessing (expired_iff.mp he).1))
  | lease =>
    rw [leaseBatch_eq]
    refine .inl (hstays (Bool.eq_false_iff.mpr fun hl => ?_))
    rw [leasable, Bool.and_eq_true] at hl
    exact hpending (ready_iff.mp hl.2).1
  | write => exact .inl (hstays (Bool.eq_false_iff.mpr fun hl => hprocessing (holdsLease_iff.mp hl).2.1))
  | _ => exact .inl hj

/-- A job that has used up its attempts is put back to pending by the recovery of its expired lease only. -/
theorem Inv.step_pending (h : Inv s τ) (hknows : c.Knows s) (hst : QueueStep s c s' c' ev) {j j' : JobRow}
    (hj : j ∈ s.jobs) (hj' : j' ∈ s'.jobs) (hid : j'.id = j.id) (hbefore : j.status ≠ .pending)
    (hafter : j'.status = .pending) (hattempts : maxAttempts ≤ j.attempts) :
    ∃ claim now, c = .claiming claim now ∧ expired now j = true := by
  have hsame : ∀ k ∈ s.jobs, k.id = j.id → k = j := fun k hk hkid => eq_of_key h.ids hk hj hkid
  have hnot : j' ∉ s.jobs := fun hmem => hbefore (hsame j' hmem hid ▸ hafter)
  cases hst with
  | enqueue id now hnew =>
    rcases List.mem_append.mp hj' with hj' | hj'
    · exact absurd hj' hnot
    · obtain rfl := List.mem_singleton.mp hj'
      exact absurd hid.symm (hnew j hj)
  | prune => exact absurd (mem_deleteWhere.mp hj').1 hnot
  | recover =>
    obtain ⟨k, hk, rfl⟩ := mem_updateWhere.mp hj'
    split at hnot
    · rename_i hexpired
      rw [if_pos hexpired] at hid
      exact ⟨_, _, rfl, hsame k hk hid ▸ hexpired⟩
    · exact absurd hk hnot
  | lease =>
    rw [leaseBatch_eq] at hj'
    obtain ⟨k, hk, rfl⟩ := mem_updateWhere.mp hj'
    split at hafter
    · cases hafter
    · rename_i hl
      rw [if_neg hl] at hnot
      exact absurd hk hnot
  | @write r attempts now =>
    obtain ⟨k, hk, rfl⟩ := mem_updateWhere.mp hj'
    split at hafter
    · rename_i hheld
      rw [if_pos hheld, (reportRow_spec r attempts now k).1] at hid
      obtain rfl := hsame k hk hid
      obtain ⟨hkid, -, htoken, -⟩ := holdsLease_iff.mp hheld
      rcases (reportRow_spec r attempts now k).2.2 with hterminal | ⟨-, hlt⟩
      · rw [hafter] at hterminal
        cases hterminal
      · rw [← hknows.2.2 k hk hkid htoken] at hlt
        exact absurd hattempts (not_le.mpr hlt)
    · rename_i hheld
      rw [if_neg hheld] at hnot
      exact absurd hk hnot
  | _ => exact absurd hj' hnot

/-- The worlds that a run goes on to. -/
def Later : Interleave.World Store Call Event → Interleave.World Store Call Event → Prop :=
  Relation.ReflTransGen fun w w' => ∃ i, Interleave.Step queue i w w'

theorem Later.terminal {w w' : Interleave.World Store Call Event} (h : Later w w') {j : JobRow} (hj : j ∈ w.store.jobs)
    (hterminal : j.status.terminal = true) : j ∈ w'.store.jobs ∨ .pruned j ∈ w'.trace := by
  induction h with
  | refl => exact .inl hj
  | tail _ hst ih =>
    obtain ⟨i, s', l', ev, hst, rfl⟩ := hst
    rcases ih with hmem | hpruned
    · exact (step_terminal hst hmem hterminal).imp_right fun h => List.mem_append_left _ h
    · exact .inr (List.mem_append_right _ hpruned)

/-- In every run an unexpired lease of a job excludes any other, terminal jobs stay until they are pruned, a lease is
    closed by one report at most, and a retried job waits for its next attempt; once its attempts are used up only the
    recovery of an expired lease puts a job back. -/
theorem outbound_leases {w : Interleave.World Store Call Event} (h : Reachable queue w) :
    (∀ id t t', Holds w.store w.trace id t → Holds w.store w.trace id t' → t = t') ∧
    (∀ w', Later w w' → ∀ j ∈ w.store.jobs, j.status.terminal = true → j ∈ w'.store.jobs ∨ .pruned j ∈ w'.trace) ∧
    (w.trace.filterMap Event.closes).Nodup ∧
    (∀ later job now earlier, w.trace = later ++ .leased job now :: earlier → ∀ j j', .reported j j' ∈ earlier →
      j.id = job.id → j'.status = .pending → j'.nextAttemptAt ≤ now) ∧
    ∀ i w', Interleave.Step queue i w w' → ∀ j ∈ w.store.jobs, ∀ j' ∈ w'.store.jobs, j'.id = j.id →
      j.status ≠ .pending → j'.status = .pending → maxAttempts ≤ j.attempts →
        ∃ claim now, w.pc i = .claiming claim now ∧ expired now j = true := by
  obtain ⟨hinv, hknows⟩ := inv h
  refine ⟨fun id t t' => hinv.exclusive, fun w' hlater j hj => hlater.terminal hj, hinv.once, ?_, ?_⟩
  · exact fun later job now earlier hsplit => historic_iff.mp hinv.due later _ earlier hsplit job now rfl
  · rintro i w' ⟨s', l', ev, hst, rfl⟩ j hj j' hj' hid hbefore hafter hattempts
    exact hinv.step_pending (hknows i) hst hj hj' hid hbefore hafter hattempts

/-! ### Two runs -/

def demoStore : Store := ⟨[], 0, [], []⟩

def demoClaim (token : String) : Claim := ⟨js token, 20⟩

def demoRetry (token : String) : Report := ⟨js "j", js token, .retry, none, none, none⟩

/-- A job is leased, put back by a retry, and leased again when it is due. -/
theorem retried_run : ∃ w : Interleave.World Store Call Event, Reachable queue w ∧ w.pc 0 = .idle ∧
    w.store = ⟨[leaseRow (demoClaim "t2") 5000 (retryRow 5000 none 0 (leaseRow (demoClaim "t1") 0 (newJob (js "j") 0)))],
      5000, [js "t2", js "t1"], [js "t2", js "t1"]⟩ ∧
    ∃ k k' job now later earlier, w.trace = later ++ .leased job now :: .reported k k' :: earlier ∧
      k.id = js "j" ∧ k'.status = .pending ∧ k.attempts = 1 ∧ job.id = js "j" ∧ now = 5000 := by
  have h : Reachable queue ⟨demoStore, fun _ => .idle, []⟩ := .start ⟨rfl, rfl, rfl⟩
  have h := h.next 0 trivial (.enqueue (js "j") 0 (by decide))
  have h := h.next 0 trivial (.beginClaim (demoClaim "t1") (by decide) (by decide))
  have h := h.next 0 trivial .recover
  have h := h.next 0 trivial .select
  have h := h.next 0 trivial .lease
  have h := h.next 0 trivial .answerClaim
  have h := h.next 0 trivial (.beginReport (demoRetry "t1") (by decide))
  have h := h.next 0 trivial (.fetch (leaseRow (demoClaim "t1") 0 (newJob (js "j") 0)) (by decide))
  have h := h.next 0 trivial .readClock
  have h := h.next 0 trivial .write
  have h := h.next 0 trivial (.tick 5000)
  have h := h.next 0 trivial (.beginClaim (demoClaim "t2") (by decide) (by decide))
  have h := h.next 0 trivial .recover
  have h := h.next 0 trivial .select
  have h := h.next 0 trivial .lease
  have h := h.next 0 trivial .answerClaim
  exact ⟨_, h, rfl, by decide, _, _, _, _, [_], _, rfl, by decide, by decide, by decide, by decide, by decide⟩

theorem outbound_leases_run : ∃ w : Interleave.World Store Call Event, Reachable queue w ∧
    ∃ k k' job now earlier, .reported k k' ∈ earlier ∧ k'.status = .pending ∧ k'.nextAttemptAt ≤ now ∧
      ∃ later, w.trace = later ++ .leased job now :: earlier := by
  obtain ⟨w, h, -, -, k, k', job, now, later, earlier, htrace, hid, hpending, -, hjob, -⟩ := retried_run
  refine ⟨w, h, k, k', job, now, _, List.mem_cons_self, hpending, ?_, later, htrace⟩
  exact (outbound_leases h).2.2.2.1 later job now _ htrace k k' List.mem_cons_self (hid.trans hjob.symm) hpending

/-- A claim of request 0 from an idle state. -/
theorem claim_run {w : Interleave.World Store Call Event} (h : Reachable queue w) (hpc : w.pc 0 = .idle) {claim : Claim}
    (hvalid : validClaim claim = true) (hnew : claim.leaseToken ∉ w.store.issued) :
    ∃ w', Reachable queue w' ∧ w'.pc 0 = .idle ∧ (∀ e ∈ w.trace, e ∈ w'.trace) ∧
      w'.store = ⟨leaseBatch claim w.store.clock
        (selectCandidates claim w.store.clock (recoverExpired w.store.clock w.store.jobs))
        (recoverExpired w.store.clock w.store.jobs), w.store.clock, claim.leaseToken :: w.store.issued,
        claim.leaseToken :: w.store.spent⟩ := by
  obtain ⟨w₁, h₁, hs₁, ht₁, hpc₁, -⟩ := h.move 0 trivial rfl hpc (.beginClaim claim hvalid hnew)
  obtain ⟨w₂, h₂, hs₂, ht₂, hpc₂, -⟩ := h₁.move 0 trivial hs₁ hpc₁ .recover
  obtain ⟨w₃, h₃, hs₃, ht₃, hpc₃, -⟩ := h₂.move 0 trivial hs₂ hpc₂ .select
  obtain ⟨w₄, h₄, hs₄, ht₄, hpc₄, -⟩ := h₃.move 0 trivial hs₃ hpc₃ .lease
  obtain ⟨w₅, h₅, hs₅, ht₅, hpc₅, -⟩ := h₄.move 0 trivial hs₄ hpc₄ .answerClaim
  refine ⟨w₅, h₅, hpc₅, fun e he => ?_, hs₅⟩
  rw [ht₅, ht₄, ht₃, ht₂, ht₁]
  exact List.mem_append_right _ (List.mem_append_right _ (List.mem_append_right _ (List.mem_append_right _
    (List.mem_append_right _ he))))

/-- The lease expires a minute later, and the next claim takes the job over. -/
theorem takeover_run {w : Interleave.World Store Call Event} (claim : Claim) (h : Reachable queue w)
    (hpc : w.pc 0 = .idle) {j : JobRow} {issued spent : List JsString} {clock : ℕ} (hs : w.store = ⟨[j], clock, issued, spent⟩)
    (hj : j.status = .processing ∧ j.leaseUntil = some (clock + leaseMs) ∧ j.nextAttemptAt ≤ clock)
    (hvalid : validClaim claim = true) (hnew : claim.leaseToken ∉ issued) :
    ∃ w', Reachable queue w' ∧ w'.pc 0 = .idle ∧ (∀ e ∈ w.trace, e ∈ w'.trace) ∧
      w'.store = ⟨[leaseRow claim (clock + leaseMs) (recoverRow (clock + leaseMs) j)], clock + leaseMs,
        claim.leaseToken :: issued, claim.leaseToken :: spent⟩ := by
  obtain ⟨hstatus, huntil, hnext⟩ := hj
  obtain ⟨w₁, h₁, hs₁, ht₁, hpc₁, -⟩ := h.move 0 trivial hs hpc (.tick leaseMs)
  obtain ⟨w₂, h₂, hpc₂, ht₂, hs₂⟩ := claim_run h₁ hpc₁ hvalid (by rw [hs₁]; exact hnew)
  refine ⟨w₂, h₂, hpc₂, fun e he => ht₂ e (by rw [ht₁]; exact List.mem_append_right _ he), ?_⟩
  have hrecovered : recoverExpired (clock + leaseMs) [j] = [recoverRow (clock + leaseMs) j] := by
    simp [recoverExpired, updateWhere, expired, hstatus, huntil]
  have hready : ready (clock + leaseMs) (recoverRow (clock + leaseMs) j) = true :=
    ready_iff.mpr ⟨rfl, hnext.trans (Nat.le_add_right _ _)⟩
  have hlimit : 1 ≤ claim.limit := by
    simp only [validClaim, Bool.and_eq_true, decide_eq_true_iff] at hvalid
    exact hvalid.1.2
  obtain ⟨n, hn⟩ := Nat.exists_eq_add_of_le' hlimit
  have hcandidates : selectCandidates claim (clock + leaseMs) [recoverRow (clock + leaseMs) j] = [j.id] := by
    simp [selectCandidates, selectTop, hready, hn]
  rw [hs₂, hs₁]
  simp only [hrecovered, hcandidates, leaseBatch_eq]
  simp [updateWhere, leasable, hready]

/-- A job put back by a retry, and taken over three times, is recovered with its attempts used up. -/
theorem recovered_past_attempts :
    ¬ ∀ (w w' : Interleave.World Store Call Event) (i : ℕ), Reachable queue w → Interleave.Step queue i w w' →
      ∀ j ∈ w.store.jobs, (∃ k k', .reported k k' ∈ w.trace ∧ k.id = j.id ∧ k'.status = .pending) →
        maxAttempts ≤ j.attempts → j.status ≠ .pending → ∀ j' ∈ w'.store.jobs, j'.id = j.id → j'.status ≠ .pending := by
  intro hall
  obtain ⟨w, h, hpc, hs, k, k', job, now, later, earlier, htrace, hid, hpending, -⟩ := retried_run
  have hmem : .reported k k' ∈ w.trace := by
    rw [htrace]
    exact List.mem_append_right _ (List.mem_cons_of_mem _ List.mem_cons_self)
  obtain ⟨w₃, h₃, hpc₃, ht₃, hs₃⟩ := takeover_run (demoClaim "t3") h hpc hs (by decide) (by decide) (by decide)
  obtain ⟨w₄, h₄, hpc₄, ht₄, hs₄⟩ := takeover_run (demoClaim "t4") h₃ hpc₃ hs₃ (by decide) (by decide) (by decide)
  obtain ⟨w₅, h₅, hpc₅, ht₅, hs₅⟩ := takeover_run (demoClaim "t5") h₄ hpc₄ hs₄ (by decide) (by decide) (by decide)
  obtain ⟨w₆, h₆, hs₆, ht₆, hpc₆, -⟩ := h₅.move 0 trivial hs₅ hpc₅ (.tick leaseMs)
  obtain ⟨w₇, h₇, hs₇, ht₇, hpc₇, -⟩ := h₆.move 0 trivial hs₆ hpc₆ (.beginClaim (demoClaim "t6") (by decide) (by decide))
  have hstep : Interleave.Step queue 0 w₇ (w₇.advance 0 { w₇.store with jobs := recoverExpired 245000 w₇.store.jobs }
      (.recovered (demoClaim "t6") 245000) []) := by
    refine .of 0 ?_
    rw [hpc₇]
    exact .recover
  have hreported : .reported k k' ∈ w₇.trace := by
    rw [ht₇, ht₆]
    exact ht₅ _ (ht₄ _ (ht₃ _ hmem))
  have hpendingAgain := hall w₇ _ 0 h₇ hstep
  rw [hs₇] at hpendingAgain
  exact hpendingAgain _ List.mem_cons_self ⟨k, k', hreported, hid, hpending⟩ (by decide) (by decide) _
    List.mem_cons_self (by decide) (by decide)

end OneMail.Leases
