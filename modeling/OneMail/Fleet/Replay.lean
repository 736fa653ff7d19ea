import OneMail.Fleet.Writes

/-! Replays and the idempotency log of the fleet registry.

    The revision counts the applied commands, and a command names the revision it was made for, so no
    command is applied twice even after its operation record is gone (`Run.once`). Every audit entry
    belongs to one operation record and bears its time, so pruning takes no record away within the
    retention (`Run.retained`), and a retained record answers every further request under its key. -/

namespace OneMail.Fleet

open KeyValue (Map lookup_put lookup_del)

variable {δ : Type} {s s' : Storage δ} {rm : RegistryMeta} {now : ℕ}
  {fingerprint : Command → δ} {cmd : Command} {mode : FleetMode} {response : Response}

/-! ### Revisions -/

/-- The revision of the storage, zero before the first command. -/
def revisionOf (s : Storage δ) : ℕ := (s.registryMeta.map (·.revision.val)).getD 0

theorem revision_getD (s : Storage δ) (now : ℕ) :
    (s.registryMeta.getD (emptyMeta now)).revision.val = revisionOf s := by
  rw [revisionOf]
  cases s.registryMeta <;> rfl

theorem applyCommand_revision
    (h : applyCommand fingerprint s (s.registryMeta.getD (emptyMeta now)) cmd now mode = .ok (response, s')) :
    cmd.expectedRevision.val = revisionOf s ∧ revisionOf s' = revisionOf s + 1 := by
  obtain ⟨hexpected, hnext, rm₁, s₁, -, rfl⟩ := applyCommand_ok h
  rw [← hexpected, revision_getD]
  refine ⟨rfl, ?_⟩
  rw [revision_getD] at hnext
  exact hnext

/-! ### The audit index -/

/-- Every audit entry belongs to the operation record of its key, and bears the record's time. -/
def Audited (s : Storage δ) : Prop := ∀ t key value, s.audit.lookup (t, key) = some value →
  value = key ∧ ∃ op, s.operations.lookup key = some op ∧ op.createdAt = t

/-- The audit entries that pruning takes belong to operations older than the retention. -/
theorem expired_old (h : Audited s) {e : Σ _ : ℕ × Id, Id} (he : e ∈ expired s now) :
    e.2 = e.1.2 ∧ ∃ op, s.operations.lookup e.2 = some op ∧ op.createdAt = e.1.1 ∧
      op.createdAt + retentionMs < now := by
  obtain ⟨hmem, hold⟩ := Table.mem_of_mem_selectTop he
  obtain ⟨hvalue, op, hop, ht⟩ := h e.1.1 e.1.2 e.2 (AList.mem_lookup_iff.mpr hmem)
  exact ⟨hvalue, op, by rw [hvalue]; exact hop, ht, by rw [ht]; exact of_decide_eq_true hold⟩

/-- What is left of the two logs after some audit entries and their operations are erased. -/
theorem prune_lookup (entries : List (Σ _ : ℕ × Id, Id)) (acc : RegistryMeta × Storage δ) :
    let pruned := entries.foldl (fun acc e =>
      (({ acc.1 with operationCount := acc.1.operationCount - 1 },
        { acc.2 with operations := acc.2.operations.erase e.2, audit := acc.2.audit.erase e.1 }) :
          RegistryMeta × Storage δ)) acc
    (∀ key, pruned.2.operations.lookup key =
      if ∃ e ∈ entries, e.2 = key then none else acc.2.operations.lookup key) ∧
    ∀ k, pruned.2.audit.lookup k = if ∃ e ∈ entries, e.1 = k then none else acc.2.audit.lookup k := by
  induction entries generalizing acc with
  | nil => simp
  | cons e entries ih =>
    obtain ⟨hops, haudit⟩ := ih
      ({ acc.1 with operationCount := acc.1.operationCount - 1 },
        { acc.2 with operations := acc.2.operations.erase e.2, audit := acc.2.audit.erase e.1 })
    refine ⟨fun key => ?_, fun k => ?_⟩
    · rw [List.foldl_cons, hops, lookup_del]
      by_cases hrest : ∃ e' ∈ entries, e'.2 = key
      · rw [if_pos hrest, if_pos (hrest.imp fun e' h => ⟨List.mem_cons_of_mem _ h.1, h.2⟩)]
      · have hiff : key = e.2 ↔ ∃ e' ∈ e :: entries, e'.2 = key := by
          rw [List.exists_mem_cons_iff, or_iff_left hrest, eq_comm]
        rw [if_neg hrest]
        exact if_congr hiff rfl rfl
    · rw [List.foldl_cons, haudit, lookup_del]
      by_cases hrest : ∃ e' ∈ entries, e'.1 = k
      · rw [if_pos hrest, if_pos (hrest.imp fun e' h => ⟨List.mem_cons_of_mem _ h.1, h.2⟩)]
      · have hiff : k = e.1 ↔ ∃ e' ∈ e :: entries, e'.1 = k := by
          rw [List.exists_mem_cons_iff, or_iff_left hrest, eq_comm]
        rw [if_neg hrest]
        exact if_congr hiff rfl rfl

theorem pruneOperations_lookup (rm : RegistryMeta) (s : Storage δ) (now : ℕ) :
    (∀ key, (pruneOperations s rm now).2.operations.lookup key =
      if ∃ e ∈ expired s now, e.2 = key then none else s.operations.lookup key) ∧
    ∀ k, (pruneOperations s rm now).2.audit.lookup k =
      if ∃ e ∈ expired s now, e.1 = k then none else s.audit.lookup k :=
  prune_lookup (expired s now) (rm, s)

/-- A record within the retention survives pruning. -/
theorem pruneOperations_kept (h : Audited s) {key : Id} {op : OperationRecord δ}
    (hop : s.operations.lookup key = some op) (hage : now ≤ op.createdAt + retentionMs) :
    (pruneOperations s rm now).2.operations.lookup key = some op := by
  rw [(pruneOperations_lookup rm s now).1, if_neg, hop]
  rintro ⟨e, he, rfl⟩
  obtain ⟨-, op', hop', -, hold⟩ := expired_old h he
  rw [hop] at hop'
  cases hop'
  omega

theorem Audited.prune (h : Audited s) : Audited (pruneOperations s rm now).2 := by
  intro t key value hlookup
  rw [(pruneOperations_lookup rm s now).2] at hlookup
  split at hlookup
  · cases hlookup
  rename_i hkept
  obtain ⟨hvalue, op, hop, ht⟩ := h t key value hlookup
  refine ⟨hvalue, op, ?_, ht⟩
  rw [(pruneOperations_lookup rm s now).1, if_neg, hop]
  -- another entry of the same operation would bear the same time, and be this entry
  rintro ⟨e, he, hekey⟩
  obtain ⟨hevalue, op', hop', ht', -⟩ := expired_old h he
  rw [hekey, hop] at hop'
  cases hop'
  exact hkept ⟨e, he, Prod.ext (ht'.symm.trans ht) (hevalue.symm.trans hekey)⟩

/-- The two logs after a command was applied: pruned, with one entry more. -/
theorem applyCommand_logs (h : applyCommand fingerprint s rm cmd now mode = .ok (response, s')) :
    s'.operations = (pruneOperations s rm now).2.operations.insert cmd.idempotencyKey
        ⟨fingerprint cmd, response, now⟩ ∧
      s'.audit = (pruneOperations s rm now).2.audit.insert (now, cmd.idempotencyKey)
        cmd.idempotencyKey := by
  obtain ⟨-, -, rm₁, s₁, hexec, rfl⟩ := applyCommand_ok h
  have hframe := writes_invariant
    (I := fun x => x.2.operations = (pruneOperations s rm now).2.operations ∧
      x.2.audit = (pruneOperations s rm now).2.audit)
    (fun x y hw hx => by
      obtain ⟨-, -, ho, ha⟩ := hw.frame
      exact ⟨ho.trans hx.1, ha.trans hx.2⟩)
    (execute_writes hexec) ⟨rfl, rfl⟩
  exact ⟨by rw [hframe.1], by rw [hframe.2]⟩

theorem applyCommand_audited (h : applyCommand fingerprint s rm cmd now mode = .ok (response, s'))
    (hnew : s.operations.lookup cmd.idempotencyKey = none) (haudit : Audited s) : Audited s' := by
  obtain ⟨hops, hindex⟩ := applyCommand_logs h
  have hgone : (pruneOperations s rm now).2.operations.lookup cmd.idempotencyKey = none := by
    rw [(pruneOperations_lookup rm s now).1, hnew, ite_self]
  intro t key value hlookup
  rw [hindex, lookup_put] at hlookup
  split at hlookup
  · rename_i heq
    cases heq
    cases hlookup
    exact ⟨rfl, _, by rw [hops, AList.lookup_insert], rfl⟩
  · obtain ⟨hvalue, op, hop, ht⟩ := haudit.prune t key value hlookup
    refine ⟨hvalue, op, ?_, ht⟩
    rw [hops, lookup_put, if_neg, hop]
    rintro rfl
    rw [hgone] at hop
    cases hop

/-! ### Runs -/

variable [DecidableEq δ] {τ : List Exchange} {r : Request} {x : Exchange}

/-- The revision is the number of applied commands, and each of them was made for an earlier one. -/
theorem Run.revision (h : Run fingerprint s τ) :
    revisionOf s = (τ.filter (·.applied)).length ∧
      ((τ.filter (·.applied)).map (·.request.command.expectedRevision.val)).Pairwise (· > ·) ∧
      ∀ x ∈ τ, x.applied = true → x.request.command.expectedRevision.val < revisionOf s := by
  induction h with
  | start => exact ⟨rfl, .nil, fun x hx => by cases hx⟩
  | next r hrun ih =>
    rename_i s τ
    obtain ⟨hlength, hpair, hlt⟩ := ih
    rcases fetch_step fingerprint s r with ⟨hsame, hnot⟩ | ⟨mode, response, -, happly, hx⟩
    · rw [hsame, List.filter_cons_of_neg (by rw [hnot]; decide)]
      refine ⟨hlength, hpair, fun x hx happlied => ?_⟩
      rcases List.mem_cons.mp hx with rfl | hx
      · rw [hnot] at happlied
        cases happlied
      · exact hlt x hx happlied
    · obtain ⟨hexpected, hnext⟩ := applyCommand_revision happly
      have happlied : (exchange fingerprint s r).applied = true := by
        rw [hx]
        rfl
      have hreq : (exchange fingerprint s r).request = r := rfl
      rw [List.filter_cons_of_pos happlied, hnext, List.map_cons, hreq, hexpected]
      refine ⟨by rw [List.length_cons, hlength], List.pairwise_cons.mpr ⟨fun n hn => ?_, hpair⟩,
        fun x hmem hap => ?_⟩
      · obtain ⟨y, hy, rfl⟩ := List.mem_map.mp hn
        exact hlt y (List.mem_filter.mp hy).1 (List.mem_filter.mp hy).2
      · rcases List.mem_cons.mp hmem with rfl | hmem
        · rw [hreq, hexpected]
          exact Nat.lt_succ_self _
        · exact Nat.lt_succ_of_lt (hlt x hmem hap)

/-- No command body is applied twice. -/
theorem Run.once (h : Run fingerprint s τ) :
    ((τ.filter (·.applied)).map (·.request.command)).Nodup := by
  have hpair := List.pairwise_map.mp h.revision.2.1
  refine List.pairwise_map.mpr (hpair.imp fun {a b} hgt heq => ?_)
  rw [heq] at hgt
  exact absurd hgt (Nat.lt_irrefl _)

theorem Run.audited (h : Run fingerprint s τ) : Audited s := by
  induction h with
  | start => exact fun t key value h => by cases h
  | next r hrun ih =>
    rename_i s τ
    rcases fetch_step fingerprint s r with ⟨hsame, -⟩ | ⟨mode, response, hnone, happly, -⟩
    · rw [hsame]
      exact ih
    · exact applyCommand_audited happly hnone ih

/-- `x` was applied, and no command that was applied since ran after the end of its retention. -/
def Retained (τ : List Exchange) (x : Exchange) : Prop :=
  ∃ later earlier, τ = later ++ x :: earlier ∧ x.applied = true ∧
    ∀ y ∈ later, y.applied = true → y.request.now ≤ x.request.now + retentionMs

/-- The record of a retained command stands as it was written. -/
theorem Run.retained (h : Run fingerprint s τ) (hx : Retained τ x) : ∃ response,
    x.answer = .ok response ∧ s.operations.lookup x.request.command.idempotencyKey =
      some ⟨fingerprint x.request.command, response, x.request.now⟩ := by
  obtain ⟨later, earlier, hτ, happlied, hlater⟩ := hx
  induction h generalizing later with
  | start => cases later <;> cases hτ
  | next r hrun ih =>
    rename_i s τ
    cases later with
    | nil =>
      obtain ⟨hx, rfl⟩ := List.cons.inj hτ
      rcases fetch_step fingerprint s r with ⟨-, hnot⟩ | ⟨mode, response, -, happly, hstep⟩
      · rw [hx, happlied] at hnot
        cases hnot
      · rw [← hx, hstep]
        refine ⟨response, rfl, ?_⟩
        rw [(applyCommand_logs happly).1, AList.lookup_insert]
    | cons y later =>
      obtain ⟨hy, rfl⟩ := List.cons.inj hτ
      obtain ⟨response, hanswer, hop⟩ :=
        ih later rfl fun z hz => hlater z (List.mem_cons_of_mem _ hz)
      refine ⟨response, hanswer, ?_⟩
      rcases fetch_step fingerprint s r with ⟨hsame, -⟩ | ⟨mode, response', hnone, happly, hstep⟩
      · rw [hsame, hop]
      · have hage : r.now ≤ x.request.now + retentionMs := by
          have hy' := hlater y List.mem_cons_self
          rw [← hy, hstep] at hy'
          exact hy' rfl
        rw [(applyCommand_logs happly).1, lookup_put, if_neg, pruneOperations_kept hrun.audited hop hage]
        intro heq
        rw [← heq, hop] at hnone
        cases hnone

/-! ### What a recorded key answers -/

/-- Only a command that parses is applied. -/
theorem applied_parses (h : (exchange fingerprint s r).applied = true) :
    parseCommand r.command = .ok r.command := by
  have hok : (fetch fingerprint s r).1.isOk = true := by
    rw [Exchange.applied, Bool.and_eq_true] at h
    exact h.2
  rcases hhandle : handle fingerprint s r with e | ⟨response, s'⟩
  · rw [fetch, hhandle] at hok
    cases hok
  · simp only [handle, bind_ok] at hhandle
    obtain ⟨-, -, c, hc, -⟩ := hhandle
    rwa [parseCommand_ok hc] at hc

theorem Run.parses (h : Run fingerprint s τ) (hx : x ∈ τ) (happlied : x.applied = true) :
    parseCommand x.request.command = .ok x.request.command := by
  induction h with
  | start => cases hx
  | next r hrun ih =>
    rcases List.mem_cons.mp hx with rfl | hx
    · exact applied_parses happlied
    · exact ih hx

theorem fetch_recorded {op : OperationRecord δ} {mode : FleetMode} (hmode : modeOf r.mode = .ok mode)
    (hparse : parseCommand r.command = .ok r.command)
    (hop : s.operations.lookup r.command.idempotencyKey = some op)
    (hprint : op.fingerprint = fingerprint r.command) : fetch fingerprint s r = (.ok op.response, s) := by
  have hhandle : handle fingerprint s r = .ok (op.response, s) := by
    simp only [handle, bind_ok]
    exact ⟨mode, hmode, r.command, hparse, by rw [transact, hop]; exact if_pos hprint⟩
  rw [fetch, hhandle]

theorem fetch_conflict {op : OperationRecord δ}
    (hop : s.operations.lookup r.command.idempotencyKey = some op)
    (hprint : op.fingerprint ≠ fingerprint r.command) : ∃ e, fetch fingerprint s r = (.error e, s) := by
  rcases fetch_cases fingerprint s r with h | ⟨previous, hprevious, hsame, -⟩ | ⟨_, _, _, hnone, -⟩
  · exact h
  · rw [hop] at hprevious
    cases hprevious
    exact absurd hsame hprint
  · rw [hop] at hnone
    cases hnone

/-- A retained command answers its replay, and changes nothing. -/
theorem Run.replayed (h : Run fingerprint s τ) (hx : Retained τ x) (hr : r.command = x.request.command)
    {mode : FleetMode} (hmode : modeOf r.mode = .ok mode) :
    fetch fingerprint s r = (x.answer, s) := by
  obtain ⟨response, hanswer, hop⟩ := h.retained hx
  obtain ⟨later, earlier, rfl, happlied, -⟩ := hx
  have hparse := h.parses (List.mem_append_right _ List.mem_cons_self) happlied
  rw [hanswer]
  rw [← hr] at hop hparse
  exact fetch_recorded hmode hparse hop rfl

/-- The key of a retained command refuses any other body. -/
theorem Run.reused (hf : Function.Injective fingerprint) (h : Run fingerprint s τ) (hx : Retained τ x)
    (hkey : r.command.idempotencyKey = x.request.command.idempotencyKey)
    (hne : r.command ≠ x.request.command) : ∃ e, fetch fingerprint s r = (.error e, s) := by
  obtain ⟨response, -, hop⟩ := h.retained hx
  rw [← hkey] at hop
  exact fetch_conflict hop fun heq => hne (hf heq).symm

end OneMail.Fleet
