import OneMail.Mirror.Lossless

/-! When a deleted native mail stays deleted.

    `deleteEmail` removes the emails row and nothing else, so the mirror can still be made again from the
    marker, a job, a page that a reconciliation selected earlier, or a task on its way to save. `Settled`
    says that none of these is left. No step unsettles a message, and no step inserts a settled one
    (`settled_step`); so where every deletion finds its message settled, no deleted row returns. -/

namespace OneMail.Mirror

open Interleave Table

variable {s s' : Store} {t t' : Task} {τ ev : List Event} {u v : UnifiedId}
  {w : World Store Task Event}

/-- The next statement of the task may insert the emails row. -/
def Task.Saves (u : UnifiedId) : Task → Prop
  | .saving v _ => v = u
  | .mirroring v _ _ _ => v = u
  | _ => False

/-- `email()` may still queue the message. -/
def Task.MayEnqueue (u : UnifiedId) : Task → Prop
  | .marking v (some _) => v = u
  | .enqueueing v _ _ => v = u
  | _ => False

/-- The selected rows that a run has still to work off. -/
def Task.rows : Task → List MirrorRow
  | .processing rows => rows
  | .dropping _ _ rest => rest
  | .mirroring _ _ _ rest => rest
  | .finishing _ _ _ rest => rest
  | .rescheduling _ _ _ rest => rest
  | _ => []

def Task.Reads (u : UnifiedId) (t : Task) : Prop := ∃ row ∈ t.rows, row.unifiedId = some u

/-- Nothing is left that could make the mirror of the message again. -/
structure Settled (w : World Store Task Event) (u : UnifiedId) : Prop where
  /-- No task is about to save it. -/
  unsaved : ∀ i, ¬ (w.pc i).Saves u
  unmarked : ¬ w.store.Pending u
  /-- No reconciliation has it on its page. -/
  unpaged : ∀ i page, w.pc i = .reconciling page → ∀ r ∈ w.store.rawMails, r.unifiedId = some u →
    r.id ∉ page
  /-- There is no job and none will be queued, or the raw mail is gone and no run has read it. -/
  unqueued : (¬ w.store.Queued u ∧ ∀ i, ¬ (w.pc i).MayEnqueue u) ∨
    (¬ w.store.Present u ∧ ∀ i, ¬ (w.pc i).Reads u)

/-- A deletion that finds the row finds the message settled. -/
def SettledDelete (w : World Store Task Event) (i : ℕ) : Prop :=
  ∀ u, w.pc i = .deleting u → u ∈ w.store.emails → Settled w u

/-- No row is inserted after `deleteEmail` has deleted it. -/
def NoReturn (τ : List Event) : Prop :=
  ∀ u later earlier, τ = later ++ .inserted u :: earlier → .deleted u ∉ earlier

/-! ### What a step can do -/

theorem MirrorStep.uuids_le (h : MirrorStep s t s' t' ev) : s.uuids ≤ s'.uuids := by
  cases h with
  | receive => exact Nat.le_succ _
  | drop => rw [deleteJob_uuids]
  | finish | finishThrows =>
    rw [deleteJob_uuids]
    rfl
  | lease dueAt hlease => rw [(lease_some hlease).1.uuids]
  | reschedule now => rw [reschedule_rewrites.uuids]
  | _ => exact le_rfl

theorem not_saves_failed {error : JsString} {rawMailId : Option ℕ} :
    ¬ (Task.failed v error rawMailId).Saves u := by
  cases rawMailId <;> exact id

/-- A task comes to save a message that it has just drawn, or a row under a lease. -/
theorem MirrorStep.saves (h : MirrorStep s t s' t' ev) (hs : t'.Saves u) : t.Saves u ∨
    (u = s.uuids ∧ s'.uuids = s.uuids + 1) ∨
      ∃ row ∈ t.rows, row.unifiedId = some u ∧ s.Queued row.jobUnifiedId := by
  cases h with
  | receive id known hid => exact .inr (.inl ⟨hs.symm, rfl⟩)
  | saveFails | saveThrows | markFails | markThrows => exact absurd hs not_saves_failed
  | @lease _ row rest dueAt hlease =>
    rw [Task.leased] at hs
    split at hs
    · rename_i v hv
      obtain rfl : v = u := hs
      exact .inr (.inr ⟨row, List.mem_cons_self, hv, (lease_some hlease).2⟩)
    · cases hs
  | _ => cases hs

/-- A message may be queued by the task that has saved it. -/
theorem MirrorStep.mayEnqueue (h : MirrorStep s t s' t' ev) (hm : t'.MayEnqueue u) :
    t.MayEnqueue u ∨ t.Saves u := by
  cases h with
  | save => cases ‹Option ℕ› with
    | none => cases hm
    | some id => exact .inr hm
  | saveFails error | saveThrows error => cases ‹Option ℕ› with
    | none => cases hm
    | some id => exact .inr hm
  | markFails error | markThrows error => cases ‹Option ℕ› with
    | none => cases hm
    | some id => exact .inl hm
  | @lease _ row rest dueAt hlease =>
    rw [Task.leased] at hm
    split at hm <;> cases hm
  | _ => cases hm

theorem leased_rows {row : MirrorRow} {leaseUntil : ℤ} {rest : List MirrorRow} :
    (Task.leased row leaseUntil rest).rows = rest := by
  rw [Task.leased]
  split <;> rfl

theorem failed_rows {error : JsString} {rawMailId : Option ℕ} :
    (Task.failed v error rawMailId).rows = [] := by
  cases rawMailId <;> rfl

/-- A run comes to read a message that is queued and whose raw mail is there. -/
theorem MirrorStep.reads (h : MirrorStep s t s' t' ev) (hr : t'.Reads u) :
    t.Reads u ∨ (s.Queued u ∧ s.Present u) := by
  obtain ⟨row, hrow, hu⟩ := hr
  cases h with
  | due now limit =>
    obtain ⟨e, he, rfl⟩ := List.mem_map.mp hrow
    rcases hfind : s.rawMails.find? (·.unifiedId = some e.1) with _ | r
    · rw [MirrorRow.unifiedId, hfind] at hu
      cases hu
    · have hr : r.unifiedId = some e.1 := by simpa using List.find?_some hfind
      rw [MirrorRow.unifiedId, hfind, Option.bind_some, hr] at hu
      obtain rfl := Option.some.inj hu
      refine .inr ⟨?_, r, List.mem_of_find?_eq_some hfind, hr⟩
      rw [Store.Queued, AList.mem_lookup_iff.mpr (mem_of_mem_selectTop he).1]
      simp
  | skip => exact .inl ⟨row, List.mem_cons_of_mem _ hrow, hu⟩
  | lease dueAt hlease =>
    rw [leased_rows] at hrow
    exact .inl ⟨row, List.mem_cons_of_mem _ hrow, hu⟩
  | saveFails | saveThrows | markFails | markThrows =>
    rw [failed_rows] at hrow
    cases hrow
  | drop | mirror | mirrorFails | mirrorThrows | finish | finishFails | finishThrows | reschedule =>
    exact .inl ⟨row, hrow, hu⟩
  | _ => cases hrow

/-- A job comes from the task that may queue it, or from a reconciliation's page. -/
theorem MirrorStep.queued (h : MirrorStep s t s' t' ev) (hq : s'.Queued u) : s.Queued u ∨
    t.MayEnqueue u ∨ ∃ page, t = .reconciling page ∧
      ∃ r ∈ s.rawMails, r.unifiedId = some u ∧ r.id ∈ page := by
  cases h with
  | enqueue now =>
    rcases enqueue_queued.mp hq with rfl | hq
    · exact .inr (.inl rfl)
    · exact .inl hq
  | reconcile now =>
    rcases reconcile_queued.mp hq with hq | ⟨e, he, rfl⟩
    · exact .inl hq
    · obtain ⟨⟨r, hr, hid, hv⟩, hpage, -⟩ := mem_unmirrored.mp he
      exact .inr (.inr ⟨_, rfl, r, hr, hv, hid ▸ hpage⟩)
  | lease dueAt hlease => exact .inl (((lease_some hlease).1.queued u).mp hq)
  | drop => exact .inl (deleteJob_queued hq)
  | finish | finishThrows => exact .inl (deleteJob_queued (s := s.clearPending _) hq)
  | reschedule now => exact .inl ((reschedule_rewrites.queued u).mp hq)
  | _ => exact .inl hq

/-- A raw mail after the step is new, or was there under the same ids and marked if it is marked. -/
theorem MirrorStep.row (h : MirrorStep s t s' t' ev) {r : RawMail} (hr : r ∈ s'.rawMails)
    (hu : r.unifiedId = some u) : u = s.uuids ∨
      ∃ r₀ ∈ s.rawMails, r₀.unifiedId = some u ∧ r₀.id = r.id ∧
        (r.mirrorPending = true → r₀.mirrorPending = true) := by
  have hclear : ∀ {p : RawMail → Bool}, r ∈ updateWhere p (fun r => { r with mirrorPending := false })
      s.rawMails → ∃ r₀ ∈ s.rawMails, r₀.unifiedId = some u ∧ r₀.id = r.id ∧
        (r.mirrorPending = true → r₀.mirrorPending = true) := by
    intro p hmem
    obtain ⟨r₀, hr₀, rfl⟩ := mem_updateWhere.mp hmem
    refine ⟨r₀, hr₀, ?_⟩
    split at hu
    · rename_i hp
      rw [if_pos hp]
      exact ⟨hu, rfl, fun h => by cases h⟩
    · rename_i hp
      rw [if_neg hp]
      exact ⟨hu, rfl, id⟩
  have hsame : r ∈ s.rawMails → ∃ r₀ ∈ s.rawMails, r₀.unifiedId = some u ∧ r₀.id = r.id ∧
      (r.mirrorPending = true → r₀.mirrorPending = true) := fun hmem => ⟨r, hmem, hu, rfl, id⟩
  cases h with
  | receive id known hid =>
    rcases List.mem_append.mp hr with hr | hr
    · exact .inr (hsame hr)
    · obtain rfl := List.mem_singleton.mp hr
      exact .inl (Option.some.inj hu).symm
  | mark | markThrows | enqueue | reconcile => exact .inr (hclear hr)
  | finish | finishThrows =>
    rw [deleteJob_rawMails] at hr
    exact .inr (hclear hr)
  | drop =>
    rw [deleteJob_rawMails] at hr
    exact .inr (hsame hr)
  | lease dueAt hlease =>
    rw [(lease_some hlease).1.rawMails] at hr
    exact .inr (hsame hr)
  | reschedule now =>
    rw [reschedule_rewrites.rawMails] at hr
    exact .inr (hsame hr)
  | discard p => exact .inr (hsame (mem_deleteWhere.mp hr).1)
  | _ => exact .inr (hsame hr)

theorem MirrorStep.inserted (h : MirrorStep s t s' t' ev) (hi : .inserted u ∈ ev) : t.Saves u := by
  have hins : ∀ {v : UnifiedId}, .inserted u ∈ s.insertion v → v = u := by
    intro v hv
    rw [Store.insertion] at hv
    split at hv
    · cases hv
    · cases List.mem_singleton.mp hv
      rfl
  cases h with
  | save | saveThrows | mirror | mirrorThrows => exact hins hi
  | receive => cases List.mem_singleton.mp hi
  | delete => split at hi <;> simp at hi
  | discard p => simp at hi
  | _ => cases hi

/-- A deletion is an event of the task that deletes. -/
theorem MirrorStep.deleted (h : MirrorStep s t s' t' ev) (hd : .deleted u ∈ ev) :
    t = .deleting u ∧ u ∈ s.emails := by
  cases h with
  | delete =>
    split at hd
    · rename_i hmem
      cases List.mem_singleton.mp hd
      exact ⟨rfl, hmem⟩
    · cases hd
  | save | saveThrows | mirror | mirrorThrows =>
    rw [Store.insertion] at hd
    split at hd <;> simp at hd
  | receive => cases List.mem_singleton.mp hd
  | discard p => simp at hd
  | _ => cases hd

/-- A page names rows that were marked when it was selected. -/
theorem MirrorStep.page {page : List ℕ} (h : MirrorStep s t s' t' ev) (hp : t' = .reconciling page) :
    s' = s ∧ ∀ id ∈ page, ∃ r ∈ s.rawMails, r.id = id ∧ r.mirrorPending = true := by
  cases h with
  | select limit =>
    obtain rfl := Task.reconciling.inj hp
    refine ⟨rfl, fun id hid => ?_⟩
    obtain ⟨r, hr, rfl⟩ := List.mem_map.mp hid
    obtain ⟨hmem, hmarked⟩ := mem_of_mem_selectTop hr
    exact ⟨r, hmem, rfl, hmarked⟩
  | @lease _ row rest dueAt hlease =>
    rw [Task.leased] at hp
    split at hp <;> cases hp
  | saveFails error | saveThrows error | markFails error | markThrows error =>
    cases ‹Option ℕ› <;> cases hp
  | _ => cases hp

/-! ### Ids -/

/-- Raw mails have their own row ids. -/
theorem rows_nodup (h : Reachable mirror w) : (w.store.rawMails.map (·.id)).Nodup := by
  refine Reach.invariant (I := fun w => (w.store.rawMails.map (·.id)).Nodup) ?_ ?_ h
  · exact fun s hs => hs.2.2.2.1
  · intro w i s' t' ev _ hnd _ hst
    have hclear : ∀ p : RawMail → Bool,
        ((updateWhere p (fun r => { r with mirrorPending := false }) w.store.rawMails).map (·.id)).Nodup := by
      intro p
      have hids := map_updateWhere (p := p) (t := w.store.rawMails)
        (f := fun r => { r with mirrorPending := false }) (·.id) fun _ => rfl
      rw [hids]
      exact hnd
    rw [advance_store]
    generalize w.pc i = t at hst
    cases hst with
    | receive id known hid => exact nodup_append_key hnd hid
    | mark | markThrows | enqueue | reconcile => exact hclear _
    | finish | finishThrows =>
      rw [deleteJob_rawMails]
      exact hclear _
    | drop =>
      rw [deleteJob_rawMails]
      exact hnd
    | lease dueAt hlease =>
      rw [(lease_some hlease).1.rawMails]
      exact hnd
    | reschedule now =>
      rw [reschedule_rewrites.rawMails]
      exact hnd
    | discard p => exact hnd.sublist (List.filter_sublist.map _)
    | _ => exact hnd

/-- A selected row is leased under the id that it is saved under. -/
theorem rows_honored (h : Reachable mirror w) {i : ℕ} {row : MirrorRow} (hrow : row ∈ (w.pc i).rows) :
    Honored w.trace row := by
  have hhonest := (ledger_reach h).2 i
  cases hpc : w.pc i with
  | processing | rescheduling => rw [hpc] at hhonest hrow; exact hhonest row hrow
  | dropping | mirroring => rw [hpc] at hhonest hrow; exact hhonest.2 row hrow
  | finishing => rw [hpc] at hhonest hrow; exact hhonest.2.2 row hrow
  | idle | saving | marking | enqueueing | reconciling | deleting => rw [hpc] at hrow; cases hrow

theorem stored_drawn (h : Reachable mirror w) (hu : .stored u ∈ w.trace) : u < w.store.uuids := by
  refine Reach.invariant (I := fun w => ∀ u, .stored u ∈ w.trace → u < w.store.uuids) ?_ ?_ h u hu
  · rintro s - u hu
    cases hu
  · intro w i s' t' ev _ ih _ hst u hu
    rcases List.mem_append.mp hu with hnew | hold
    · rw [advance_store]
      generalize w.pc i = t at hst
      cases hst with
      | receive =>
        cases List.mem_singleton.mp hnew
        exact Nat.lt_succ_self _
      | save | saveThrows | mirror | mirrorThrows => exact absurd hnew insertion_stored
      | delete => split at hnew <;> simp at hnew
      | discard p => simp at hnew
      | _ => cases hnew
    · exact (ih u hold).trans_le hst.uuids_le

theorem saves_drawn (h : Reachable mirror w) : ∀ i, (w.pc i).Saves u → u < w.store.uuids := by
  refine Reach.invariant (I := fun w => ∀ i, (w.pc i).Saves u → u < w.store.uuids) ?_ ?_ h
  · rintro s - i hs
    cases hs
  · intro w i s' t' ev hw ih _ hst j hs
    rw [advance_store]
    by_cases hj : j = i
    · subst hj
      rw [advance_pc_self] at hs
      rcases hst.saves hs with hs | ⟨rfl, hnext⟩ | ⟨row, hrow, hu, hq⟩
      · exact (ih j hs).trans_le hst.uuids_le
      · rw [hnext]
        exact Nat.lt_succ_self _
      · rw [(rows_honored hw hrow).same u hu]
        exact (stored_drawn hw ((ledger_reach hw).1.job _ hq)).trans_le hst.uuids_le
    · rw [advance_pc_ne _ _ _ _ hj] at hs
      exact (ih j hs).trans_le hst.uuids_le

theorem emails_drawn (h : Reachable mirror w) : ∀ u ∈ w.store.emails, u < w.store.uuids := by
  have hinserted : ∀ u, .inserted u ∈ w.trace → u < w.store.uuids := by
    refine Reach.invariant (I := fun w => ∀ u, .inserted u ∈ w.trace → u < w.store.uuids) ?_ ?_ h
    · rintro s - u hu
      cases hu
    · intro w i s' t' ev hw ih _ hst u hu
      rcases List.mem_append.mp hu with hu | hu
      · exact (saves_drawn hw i (hst.inserted hu)).trans_le hst.uuids_le
      · exact (ih u hu).trans_le hst.uuids_le
  exact fun u hu => hinserted u ((ledger_reach h).1.email u hu)

/-! ### A settled message stays settled -/

theorem settled_step (hw : Reachable mirror w) {i : ℕ} (hst : MirrorStep w.store (w.pc i) s' t' ev)
    (hdrawn : u < w.store.uuids) (h : Settled w u) : Settled (w.advance i s' t' ev) u := by
  -- a fact about every task is a fact about the one that moved and the others
  have tasks : ∀ {Q : Task → Prop}, (∀ j, Q (w.pc j)) → Q t' → ∀ j, Q ((w.advance i s' t' ev).pc j) := by
    intro Q hall hmoved j
    by_cases hj : j = i
    · subst hj
      rw [advance_pc_self]
      exact hmoved
    · rw [advance_pc_ne _ _ _ _ hj]
      exact hall j
  have hrow : ∀ r ∈ s'.rawMails, r.unifiedId = some u → ∃ r₀ ∈ w.store.rawMails,
      r₀.unifiedId = some u ∧ r₀.id = r.id ∧ (r.mirrorPending = true → r₀.mirrorPending = true) :=
    fun r hr hu => (hst.row hr hu).resolve_left hdrawn.ne
  refine ⟨tasks (Q := fun t => ¬ t.Saves u) h.unsaved fun hs => ?_, ?_, ?_, ?_⟩
  · rcases hst.saves hs with hs | ⟨rfl, -⟩ | ⟨row, hmem, hu, hq⟩
    · exact h.unsaved i hs
    · exact lt_irrefl _ hdrawn
    · have hsame := (rows_honored hw hmem).same u hu
      rcases h.unqueued with ⟨hno, -⟩ | ⟨-, hno⟩
      · exact hno (hsame ▸ hq)
      · exact hno i ⟨row, hmem, hu⟩
  · rintro ⟨r, hr, hu, hp⟩
    obtain ⟨r₀, hr₀, hu₀, -, hp₀⟩ := hrow r hr hu
    exact h.unmarked ⟨r₀, hr₀, hu₀, hp₀ hp⟩
  · refine tasks (Q := fun t => ∀ page, t = .reconciling page → ∀ r ∈ s'.rawMails,
      r.unifiedId = some u → r.id ∉ page) (fun j page hpage r hr hu => ?_) fun page hpage r hr hu hid => ?_
    · obtain ⟨r₀, hr₀, hu₀, hid, -⟩ := hrow r hr hu
      rw [← hid]
      exact h.unpaged j page hpage r₀ hr₀ hu₀
    · obtain ⟨rfl, hmarked⟩ := hst.page hpage
      obtain ⟨r₀, hr₀, hid₀, hp₀⟩ := hmarked _ hid
      obtain rfl := eq_of_key (rows_nodup hw) hr₀ hr hid₀
      exact h.unmarked ⟨r₀, hr, hu, hp₀⟩
  · refine h.unqueued.imp
      (fun ⟨hq, hm⟩ => ⟨fun hq' => ?_, tasks (Q := fun t => ¬ t.MayEnqueue u) hm fun hm' => ?_⟩)
      fun ⟨hp, hr⟩ => ⟨fun ⟨r, hr', hu⟩ => ?_, tasks (Q := fun t => ¬ t.Reads u) hr fun hr' => ?_⟩
    · rcases hst.queued hq' with hq' | hm' | ⟨page, hpage, r, hr, hu, hid⟩
      · exact hq hq'
      · exact hm i hm'
      · exact h.unpaged i page hpage r hr hu hid
    · exact (hst.mayEnqueue hm').elim (hm i) (h.unsaved i)
    · obtain ⟨r₀, hr₀, hu₀, -⟩ := hrow r hr' hu
      exact hp ⟨r₀, hr₀, hu₀⟩
    · exact (hst.reads hr').elim (hr i) fun hqp => hp hqp.2

/-- In every run whose deletions find their messages settled, no deleted row returns. -/
theorem deleted_stays_deleted {w : World Store Task Event} (h : Reach mirror SettledDelete w) :
    NoReturn w.trace := by
  have hall : (∀ u, .deleted u ∈ w.trace → Settled w u ∧ u < w.store.uuids) ∧
      Historic (fun before e => ∀ u, e = .inserted u → .deleted u ∉ before) w.trace := by
    refine Reach.invariant (I := fun w => (∀ u, .deleted u ∈ w.trace → Settled w u ∧ u < w.store.uuids) ∧
      Historic (fun before e => ∀ u, e = .inserted u → .deleted u ∉ before) w.trace) ?_ ?_ h
    · refine fun s _ => ⟨fun u hu => ?_, trivial⟩
      cases hu
    · intro w i s' t' ev hw ⟨hdel, hhist⟩ hc hst
      have hreach := hw.reachable
      refine ⟨fun u hu => ?_, .append (fun later e earlier hev => ?_) hhist⟩
      · have hold : Settled w u ∧ u < w.store.uuids := by
          rcases List.mem_append.mp hu with hu | hu
          · obtain ⟨hpc, hmem⟩ := hst.deleted hu
            exact ⟨hc u hpc hmem, emails_drawn hreach u hmem⟩
          · exact hdel u hu
        exact ⟨settled_step hreach hst hold.2 hold.1, hold.2.trans_le hst.uuids_le⟩
      · rintro u rfl hmem
        have hsaves := hst.inserted (hev ▸ List.mem_append_right _ List.mem_cons_self)
        rcases List.mem_append.mp hmem with hmem | hmem
        · obtain ⟨hpc, -⟩ := hst.deleted (hev ▸ List.mem_append_right _ (List.mem_cons_of_mem _ hmem))
          rw [hpc] at hsaves
          exact hsaves
        · exact (hdel u hmem).1.unsaved i hsaves
  intro u later earlier hτ
  exact historic_iff.mp hall.2 later _ earlier hτ u rfl

/-! ### A crash before the marker is cleared -/

/-- With nothing on its way, a message that is neither marked nor queued is settled. -/
theorem settled_at_rest (hpc : ∀ i, w.pc i = .idle ∨ ∃ v, w.pc i = .deleting v)
    (hp : ¬ w.store.Pending u) (hq : ¬ w.store.Queued u) : Settled w u := by
  refine ⟨fun i hs => ?_, hp, fun i page hpage => ?_, .inl ⟨hq, fun i hm => ?_⟩⟩
  · rcases hpc i with h | ⟨v, h⟩ <;> rw [h] at hs <;> exact hs
  · rcases hpc i with h | ⟨v, h⟩ <;> rw [h] at hpage <;> cases hpage
  · rcases hpc i with h | ⟨v, h⟩ <;> rw [h] at hm <;> exact hm

/-- The mirror is made, its marker is cleared, and only then the mail is deleted. -/
theorem deleted_stays_deleted_demo : ∃ w, Reach mirror SettledDelete w ∧
    w.trace = [.deleted 0, .inserted 0, .stored 0] ∧ NoReturn w.trace := by
  have keep : ∀ {w : World Store Task Event} {i : ℕ}, (∀ u, w.pc i ≠ .deleting u) → SettledDelete w i :=
    fun h u hu => absurd hu (h u)
  have h : Reach mirror SettledDelete ⟨emptyStore, fun _ => .idle, []⟩ := .start emptyStore_initial
  have h := h.next 0 (keep fun _ h => by cases h) (.receive 1 true (by decide))
  have h := h.next 0 (keep fun _ h => by cases h) .save
  have h := h.next 0 (keep fun _ h => by cases h) .mark
  have h := h.next 1 (keep fun _ h => by cases h) (.openDelete (u := 0) (by decide))
  have h := h.next 1 (fun u hu _ => settled_at_rest (fun i => ?_) ?_ ?_) .delete
  · exact ⟨_, h, rfl, deleted_stays_deleted h⟩
  · match i with
    | 0 => exact .inl rfl
    | 1 => exact .inr ⟨0, rfl⟩
    | n + 2 => exact .inl rfl
  · rintro ⟨r, hr, -, hp⟩
    obtain rfl := List.mem_singleton.mp hr
    cases hp
  · exact fun hq => hq rfl

/-- `email()` crashes after it has saved; the mail is deleted, and the recovery mirrors it again. -/
theorem deleted_mail_returns : ¬ ∀ w, Reachable mirror w → NoReturn w.trace := by
  intro hall
  have h : Reachable mirror ⟨emptyStore, fun _ => .idle, []⟩ := .start emptyStore_initial
  have h := h.next 0 trivial (.receive 1 true (by decide))
  have h := h.next 0 trivial .save
  have h := h.next 1 trivial (.openDelete (u := 0) (by decide))
  have h := h.next 1 trivial .delete
  have h := h.next 2 trivial (.select 100)
  have h := h.next 2 trivial (.reconcile 10)
  have h := h.next 2 trivial (.due 10 20)
  have h := h.next 2 trivial (show MirrorStep _ (.processing [⟨0, 1, 0, some ⟨1, some 0, false⟩⟩]) _ _ _
    from .lease 10 rfl)
  have h := h.next 2 trivial .mirror
  refine hall _ h 0 [] [.deleted 0, .inserted 0, .stored 0] rfl ?_
  decide

end OneMail.Mirror
