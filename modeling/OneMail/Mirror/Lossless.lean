import OneMail.Mirror.Jobs

/-! No native mail is lost between the inbox and its mirror.

    `Ledger` says what the tables know of the history: rows and jobs belong to stored messages, a message
    without a row was discarded, and every stored message is marked, queued, mirrored or discarded
    (`Kept`). `Honest` says what a task may rely on when it clears a marker or deletes a job. -/

namespace OneMail.Mirror

open Interleave Table

variable {s s' : Store} {t t' : Task} {τ ev : List Event} {u v : UnifiedId}
  {w : World Store Task Event}

/-- The message is marked, queued, mirrored, or its raw mail is gone. -/
def Kept (s : Store) (τ : List Event) (u : UnifiedId) : Prop :=
  s.Pending u ∨ s.Queued u ∨ .inserted u ∈ τ ∨ .discarded u ∈ τ

structure Ledger (s : Store) (τ : List Event) : Prop where
  row : ∀ u, s.Present u → .stored u ∈ τ
  job : ∀ u, s.Queued u → .stored u ∈ τ
  email : ∀ u ∈ s.emails, .inserted u ∈ τ
  present : ∀ u, .stored u ∈ τ → s.Present u ∨ .discarded u ∈ τ
  kept : ∀ u, .stored u ∈ τ → Kept s τ u

/-- A selected row: without a raw mail, that was discarded. -/
structure Honored (τ : List Event) (row : MirrorRow) : Prop where
  gone : row.unifiedId = none → .discarded row.jobUnifiedId ∈ τ
  same : ∀ u, row.unifiedId = some u → u = row.jobUnifiedId

/-- What a task knows about the history. -/
def Honest (τ : List Event) : Task → Prop
  | .saving u _ => .stored u ∈ τ
  | .marking u _ => .stored u ∈ τ ∧ .inserted u ∈ τ
  | .enqueueing u _ _ => .stored u ∈ τ
  | .processing rows => ∀ row ∈ rows, Honored τ row
  | .dropping row _ rest => .discarded row.jobUnifiedId ∈ τ ∧ ∀ row ∈ rest, Honored τ row
  | .mirroring u row _ rest => u = row.jobUnifiedId ∧ ∀ row ∈ rest, Honored τ row
  | .finishing u row _ rest =>
    u = row.jobUnifiedId ∧ .inserted u ∈ τ ∧ ∀ row ∈ rest, Honored τ row
  | .rescheduling _ _ _ rest => ∀ row ∈ rest, Honored τ row
  | _ => True

theorem Honored.later {row : MirrorRow} (h : Honored τ row) : Honored (ev ++ τ) row :=
  ⟨fun hnone => List.mem_append_right _ (h.gone hnone), h.same⟩

theorem Honest.later (h : Honest τ t) : Honest (ev ++ τ) t := by
  have hrows : ∀ {rows : List MirrorRow}, (∀ row ∈ rows, Honored τ row) →
      ∀ row ∈ rows, Honored (ev ++ τ) row := fun hr row hrow => (hr row hrow).later
  have hmem : ∀ {e : Event}, e ∈ τ → e ∈ ev ++ τ := fun he => List.mem_append_right _ he
  cases t with
  | saving | enqueueing => exact hmem h
  | marking => exact ⟨hmem h.1, hmem h.2⟩
  | processing | rescheduling => exact hrows h
  | dropping => exact ⟨hmem h.1, hrows h.2⟩
  | mirroring => exact ⟨h.1, hrows h.2⟩
  | finishing => exact ⟨h.1, hmem h.2.1, hrows h.2.2⟩
  | idle | reconciling | deleting => trivial

theorem Kept.later (h : Kept s τ u) : Kept s (ev ++ τ) u :=
  h.imp_right (Or.imp_right (Or.imp (List.mem_append_right _) (List.mem_append_right _)))

/-- The tables change only in ways the ledger allows. -/
theorem Ledger.update (h : Ledger s τ) (hrow : ∀ u, s'.Present u ↔ s.Present u)
    (hjob : ∀ u, s'.Queued u → s.Queued u ∨ .stored u ∈ τ) (hemail : ∀ u ∈ s'.emails, u ∈ s.emails)
    (hkept : ∀ u, .stored u ∈ τ → Kept s τ u → Kept s' τ u) : Ledger s' τ where
  row u hu := h.row u ((hrow u).mp hu)
  job u hu := (hjob u hu).elim (h.job u) id
  email u hu := h.email u (hemail u hu)
  present u hu := (h.present u hu).imp_left (hrow u).mpr
  kept u hu := hkept u hu (h.kept u hu)

theorem Ledger.clearPending (h : Ledger s τ) (hu : .inserted u ∈ τ) : Ledger (s.clearPending u) τ := by
  refine h.update (fun _ => clear_present _) (fun _ => .inl) (fun _ hv => hv) fun v _ hkept => ?_
  rcases hkept with hp | hrest
  · by_cases hv : v = u
    · rw [hv]
      exact .inr (.inr (.inl hu))
    · exact .inl (clearPending_pending.mpr ⟨hp, hv⟩)
  · exact .inr hrest

theorem Ledger.deleteJob {leaseUntil : ℤ} (h : Ledger s τ)
    (hu : .inserted u ∈ τ ∨ .discarded u ∈ τ) : Ledger (s.deleteJob u leaseUntil) τ := by
  have hraw : (s.deleteJob u leaseUntil).rawMails = s.rawMails := deleteJob_rawMails
  refine h.update (fun v => ?_) (fun _ hq => .inl (deleteJob_queued hq)) (fun v hv => ?_)
    fun v _ hkept => ?_
  · rw [Store.Present, hraw, Store.Present]
  · rwa [deleteJob_emails] at hv
  · rw [Kept, Store.Pending, hraw]
    rcases hkept with hp | hq | hrest
    · exact .inl hp
    · by_cases hv : v = u
      · rw [hv]
        exact .inr (.inr hu)
      · exact .inr (.inl (deleteJob_queued_ne hq hv))
    · exact .inr (.inr hrest)

theorem Ledger.rewrite (h : Ledger s τ) (hr : Rewrites s s') : Ledger s' τ := by
  refine h.update (fun v => ?_) (fun v hq => .inl ((hr.queued v).mp hq)) (fun v hv => hr.emails ▸ hv)
    fun v _ hkept => ?_
  · rw [Store.Present, hr.rawMails, Store.Present]
  · rw [Kept, Store.Pending, hr.rawMails, hr.queued]
    exact hkept

theorem Ledger.enqueue {rawMailId : ℕ} {error : JsString} {now : ℤ} (h : Ledger s τ)
    (hu : .stored u ∈ τ) : Ledger (s.enqueue rawMailId u error now) τ := by
  refine h.update (fun _ => clear_present _) (fun v hq => ?_) (fun _ hv => hv) fun v _ hkept => ?_
  · rcases enqueue_queued.mp hq with rfl | hq
    · exact .inr hu
    · exact .inl hq
  · rcases hkept with hp | hq | hrest
    · by_cases hv : v = u
      · exact .inr (.inl (enqueue_queued.mpr (.inl hv)))
      · exact .inl (clearPending_pending.mpr ⟨hp, hv⟩)
    · exact .inr (.inl (enqueue_queued.mpr (.inr hq)))
    · exact .inr (.inr hrest)

/-- A marked row of the page gets a job, or has one, or has its mirror. -/
theorem Ledger.reconcile (h : Ledger s τ) (page : List ℕ) (now : ℤ) :
    Ledger (s.reconcile page now) τ := by
  refine h.update (fun v => clear_present (s := s) _) (fun v hq => ?_) (fun _ hv => hv)
    fun v _ hkept => ?_
  · rcases reconcile_queued.mp hq with hq | ⟨e, he, rfl⟩
    · exact .inl hq
    · obtain ⟨⟨r, hr, -, hv⟩, -⟩ := mem_unmirrored.mp he
      exact .inr (h.row _ ⟨r, hr, hv⟩)
  · rcases hkept with ⟨r, hr, hv, hp⟩ | hq | hrest
    · by_cases hpage : r.id ∈ page
      · by_cases hemail : v ∈ s.emails
        · exact .inr (.inr (.inl (h.email v hemail)))
        · refine .inr (.inl (reconcile_queued.mpr ?_))
          by_cases hq : s.Queued v
          · exact .inl hq
          · exact .inr ⟨(v, r.id), mem_unmirrored.mpr ⟨⟨r, hr, rfl, hv⟩, hpage, hemail, hq⟩, rfl⟩
      · refine .inl ⟨r, mem_updateWhere.mpr ⟨r, hr, ?_⟩, hv, hp⟩
        simp [hpage]
    · exact .inr (.inl (reconcile_queued.mpr (.inl hq)))
    · exact .inr (.inr hrest)

/-- Events that store nothing leave the ledger right. -/
theorem Ledger.note (h : Ledger s τ) (hev : ∀ u, .stored u ∉ ev) : Ledger s (ev ++ τ) where
  row u hu := List.mem_append_right _ (h.row u hu)
  job u hu := List.mem_append_right _ (h.job u hu)
  email u hu := List.mem_append_right _ (h.email u hu)
  present u hu := by
    have hold := (List.mem_append.mp hu).resolve_left (hev u)
    exact (h.present u hold).imp_right (List.mem_append_right _)
  kept u hu := by
    have hold := (List.mem_append.mp hu).resolve_left (hev u)
    exact (h.kept u hold).later

theorem insertion_stored : .stored v ∉ s.insertion u := by
  rw [Store.insertion]
  split <;> simp

theorem Ledger.inserted (h : Ledger s τ) : .inserted u ∈ s.insertion u ++ τ := by
  rw [Store.insertion]
  split
  · exact h.email u ‹_›
  · exact List.mem_cons_self

theorem Ledger.insertEmail (h : Ledger s τ) : Ledger (s.insertEmail u) (s.insertion u ++ τ) := by
  have hnote : Ledger s (s.insertion u ++ τ) := h.note fun _ => insertion_stored
  refine ⟨hnote.row, hnote.job, fun v hv => ?_, hnote.present, hnote.kept⟩
  rcases Finset.mem_insert.mp hv with rfl | hv
  · exact h.inserted
  · exact hnote.email v hv

theorem Ledger.receive (h : Ledger s τ) (id : ℕ) : Ledger { s with
    uuids := s.uuids + 1
    rawMails := s.rawMails ++ [⟨id, some s.uuids, true⟩] } (.stored s.uuids :: τ) := by
  have hkept : Store.Pending { s with
      uuids := s.uuids + 1
      rawMails := s.rawMails ++ [⟨id, some s.uuids, true⟩] } s.uuids :=
    ⟨_, List.mem_append_right _ List.mem_cons_self, rfl, rfl⟩
  refine ⟨fun v hv => ?_, fun v hv => List.mem_cons_of_mem _ (h.job v hv),
    fun v hv => List.mem_cons_of_mem _ (h.email v hv), fun v hv => ?_, fun v hv => ?_⟩
  · obtain ⟨r, hr, hv⟩ := hv
    rcases List.mem_append.mp hr with hr | hr
    · exact List.mem_cons_of_mem _ (h.row v ⟨r, hr, hv⟩)
    · obtain rfl := List.mem_singleton.mp hr
      cases hv
      exact List.mem_cons_self
  · rcases List.mem_cons.mp hv with heq | hv
    · cases heq
      obtain ⟨r, hr, hrow, -⟩ := hkept
      exact .inl ⟨r, hr, hrow⟩
    · refine (h.present v hv).imp ?_ (List.mem_cons_of_mem _)
      rintro ⟨r, hr, hrow⟩
      exact ⟨r, List.mem_append_left _ hr, hrow⟩
  · rcases List.mem_cons.mp hv with heq | hv
    · cases heq
      exact .inl hkept
    · have hold : Kept s ([.stored s.uuids] ++ τ) v := (h.kept v hv).later
      refine hold.imp_left ?_
      rintro ⟨r, hr, hrow⟩
      exact ⟨r, List.mem_append_left _ hr, hrow⟩

theorem Ledger.discard (h : Ledger s τ) (p : RawMail → Bool) :
    Ledger { s with rawMails := deleteWhere p s.rawMails }
      (((s.rawMails.filter p).filterMap (·.unifiedId)).map .discarded ++ τ) := by
  have hgone : ∀ r ∈ s.rawMails, ∀ v, r.unifiedId = some v → r ∈ deleteWhere p s.rawMails ∨
      .discarded v ∈ ((s.rawMails.filter p).filterMap (·.unifiedId)).map Event.discarded := by
    intro r hr v hv
    by_cases hp : p r = true
    · exact .inr (List.mem_map_of_mem (List.mem_filterMap.mpr ⟨r, List.mem_filter.mpr ⟨hr, hp⟩, hv⟩))
    · exact .inl (mem_deleteWhere.mpr ⟨hr, by simpa using hp⟩)
  have hnote : Ledger s (((s.rawMails.filter p).filterMap (·.unifiedId)).map .discarded ++ τ) :=
    h.note fun v hv => by simp at hv
  refine ⟨fun v hv => ?_, hnote.job, hnote.email, fun v hv => ?_, fun v hv => ?_⟩
  · obtain ⟨r, hr, hrow⟩ := hv
    exact hnote.row v ⟨r, (mem_deleteWhere.mp hr).1, hrow⟩
  · rcases hnote.present v hv with ⟨r, hr, hrow⟩ | hdis
    · exact (hgone r hr v hrow).imp (fun hr => ⟨r, hr, hrow⟩) (List.mem_append_left _)
    · exact .inr hdis
  · rcases hnote.kept v hv with ⟨r, hr, hrow, hp⟩ | hrest
    · rcases hgone r hr v hrow with hr | hdis
      · exact .inl ⟨r, hr, hrow, hp⟩
      · exact .inr (.inr (.inr (List.mem_append_left _ hdis)))
    · exact .inr hrest

/-- Emails rows may go at any time. -/
theorem Ledger.forget (h : Ledger s τ) {emails : Finset UnifiedId} (he : emails ⊆ s.emails) :
    Ledger { s with emails := emails } τ :=
  ⟨h.row, h.job, fun v hv => h.email v (he hv), h.present, h.kept⟩

theorem honored_due (h : Ledger s τ) (now limit : ℤ) : ∀ row ∈ s.dueRows now limit, Honored τ row := by
  intro row hrow
  obtain ⟨e, he, rfl⟩ := List.mem_map.mp hrow
  have hjob : s.Queued e.1 := by
    rw [Store.Queued, AList.mem_lookup_iff.mpr (mem_of_mem_selectTop he).1]
    simp
  rcases hfind : s.rawMails.find? (·.unifiedId = some e.1) with _ | r
  · refine ⟨fun _ => ?_, fun u hu => ?_⟩
    · refine (h.present _ (h.job _ hjob)).resolve_left ?_
      rintro ⟨r, hr, hv⟩
      have hno := List.find?_eq_none.mp hfind r hr
      simp [hv] at hno
    · rw [MirrorRow.unifiedId, hfind] at hu
      cases hu
  · have hr : r.unifiedId = some e.1 := by simpa using List.find?_some hfind
    refine ⟨fun hnone => ?_, fun u hu => ?_⟩
    · rw [MirrorRow.unifiedId, hfind, Option.bind_some, hr] at hnone
      cases hnone
    · rw [MirrorRow.unifiedId, hfind, Option.bind_some, hr] at hu
      exact (Option.some.inj hu).symm

theorem honest_failed {error : JsString} {rawMailId : Option ℕ} (h : .stored u ∈ τ) :
    Honest τ (.failed u error rawMailId) := by
  cases rawMailId with
  | none => trivial
  | some id => exact h

theorem honest_leased {row : MirrorRow} {leaseUntil : ℤ} {rest : List MirrorRow} (h : Honored τ row)
    (hrest : ∀ r ∈ rest, Honored τ r) : Honest τ (.leased row leaseUntil rest) := by
  rw [Task.leased]
  split
  · rename_i u hu
    exact ⟨h.same u hu, hrest⟩
  · rename_i hnone
    exact ⟨h.gone hnone, hrest⟩

theorem ledger_step (h : MirrorStep s t s' t' ev) (hl : Ledger s τ) (ht : Honest τ t) :
    Ledger s' (ev ++ τ) ∧ Honest (ev ++ τ) t' := by
  cases h with
  | receive id known hid => exact ⟨hl.receive id, List.mem_cons_self⟩
  | save => exact ⟨hl.insertEmail, List.mem_append_right _ ht, hl.inserted⟩
  | saveFails => exact ⟨hl, honest_failed ht⟩
  | saveThrows => exact ⟨hl.insertEmail, honest_failed (List.mem_append_right _ ht)⟩
  | mark => exact ⟨hl.clearPending ht.2, trivial⟩
  | markFails => exact ⟨hl, honest_failed ht.1⟩
  | markThrows => exact ⟨hl.clearPending ht.2, honest_failed ht.1⟩
  | enqueue now => exact ⟨hl.enqueue ht, trivial⟩
  | select | finished => exact ⟨hl, trivial⟩
  | reconcile now => exact ⟨hl.reconcile _ now, trivial⟩
  | due now limit => exact ⟨hl, honored_due hl now limit⟩
  | skip dueAt hno => exact ⟨hl, fun row hrow => ht row (List.mem_cons_of_mem _ hrow)⟩
  | lease dueAt hlease =>
    refine ⟨hl.rewrite (lease_some hlease).1, honest_leased (ht _ List.mem_cons_self) fun r hr => ?_⟩
    exact ht r (List.mem_cons_of_mem _ hr)
  | drop => exact ⟨hl.deleteJob (.inr ht.1), ht.2⟩
  | mirror => exact ⟨hl.insertEmail, ht.1, hl.inserted, fun r hr => (ht.2 r hr).later⟩
  | mirrorFails => exact ⟨hl, ht.2⟩
  | mirrorThrows => exact ⟨hl.insertEmail, fun r hr => (ht.2 r hr).later⟩
  | finish =>
    obtain ⟨rfl, hins, hrest⟩ := ht
    exact ⟨(hl.clearPending hins).deleteJob (.inl hins), hrest⟩
  | finishFails => exact ⟨hl, ht.2.2⟩
  | finishThrows =>
    obtain ⟨rfl, hins, hrest⟩ := ht
    exact ⟨(hl.clearPending hins).deleteJob (.inl hins), hrest⟩
  | reschedule now => exact ⟨hl.rewrite reschedule_rewrites, ht⟩
  | openDelete => exact ⟨hl, trivial⟩
  | delete =>
    refine ⟨(hl.forget (Finset.erase_subset _ _)).note fun v hv => ?_, trivial⟩
    split at hv <;> simp at hv
  | discard p => exact ⟨hl.discard p, trivial⟩
  | purge p => exact ⟨hl.forget (Finset.filter_subset _ _), trivial⟩

theorem ledger_reach (h : Reachable mirror w) :
    Ledger w.store w.trace ∧ ∀ i, Honest w.trace (w.pc i) := by
  refine Reach.shared (I := Ledger) (L := fun _ τ t => Honest τ t) ?_ ?_ ?_ h
  · rintro s ⟨hjobs, hemails, -, -, hrows⟩
    refine ⟨⟨fun v hv => ?_, fun v hv => ?_, fun v hv => ?_, fun v hv => ?_, fun v hv => ?_⟩, trivial⟩
    · obtain ⟨r, hr, hrow⟩ := hv
      rw [(hrows r hr).1] at hrow
      cases hrow
    · rw [Store.Queued, hjobs] at hv
      exact absurd rfl hv
    · rw [hemails] at hv
      cases hv
    · cases hv
    · cases hv
  · exact fun w i s' t' ev _ _ hl ht hst => ledger_step hst hl ht
  · exact fun w i j s' t' ev _ _ _ _ _ hj _ => hj.later

/-- In every run, a message that `email()` stored is marked, queued, mirrored or discarded. -/
theorem never_lost {w : World Store Task Event} (h : Reachable mirror w) (u : UnifiedId)
    (hu : .stored u ∈ w.trace) :
    w.store.Pending u ∨ w.store.Queued u ∨ .inserted u ∈ w.trace ∨ .discarded u ∈ w.trace :=
  (ledger_reach h).1.kept u hu

def emptyStore : Store := ⟨[], ∅, ∅, 0⟩

theorem emptyStore_initial : emptyStore.Initial :=
  ⟨rfl, rfl, rfl, List.nodup_nil, fun _ hr => by cases hr⟩

/-- The mirror fails, is queued, and fails again under a lease that a second failure overwrites. -/
theorem never_lost_demo : ∃ w, Reachable mirror w ∧ .inserted 0 ∉ w.trace ∧
    (w.store.Pending 0 ∨ w.store.Queued 0 ∨ .inserted 0 ∈ w.trace ∨ .discarded 0 ∈ w.trace) := by
  have h : Reachable mirror ⟨emptyStore, fun _ => .idle, []⟩ := .start emptyStore_initial
  have h := h.next 0 trivial (.receive 1 true (by decide))
  have h := h.next 1 trivial (.select 100)
  have h := h.next 1 trivial (.reconcile 10)
  have h := h.next 2 trivial (.due 10 20)
  have h := h.next 2 trivial (show MirrorStep _ (.processing [⟨0, 1, 0, some ⟨1, some 0, false⟩⟩]) _ _ _
    from .lease 10 rfl)
  have h := h.next 0 trivial (.saveFails (js "Error"))
  have h := h.next 0 trivial (.enqueue 11)
  have h := h.next 2 trivial (.mirrorFails (js "Error"))
  have h := h.next 2 trivial (.reschedule 12)
  exact ⟨_, h, by decide, never_lost h 0 (by decide)⟩

end OneMail.Mirror
