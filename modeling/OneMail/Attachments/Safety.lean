import OneMail.Attachments.Collection

/-! Attachment garbage collection is safe and leak-free.

    `Tended` says what one step can do to the row of a key. A row is never older than a registration of
    its key, and a lease is taken only when every registration has outlived its grace period
    (`Settling`), so while the lease lasts nobody touches the row, references the key or uploads the
    object. The verdict of a reference scan stays good as long as the row is the one that was seen
    (`Wanted`, `Unwanted`). -/

namespace OneMail.Attachments

open Interleave Table
open KeyValue (putNew lookup_put lookup_putNew lookup_eraseAll)

variable {s s' : Store} {t t' : Task} {τ ev : List Event} {key j : JsString} {leaseAt observed : ℤ}
  {w : World Store Task Event}

/-- The object was deleted, and has not been uploaded since. -/
def deletedSinceUpload (key : JsString) : List Event → Bool
  | [] => false
  | .uploaded k _ :: τ => if k = key then false else deletedSinceUpload key τ
  | .removed k :: τ => if k = key then true else deletedSinceUpload key τ
  | .registered _ _ :: τ => deletedSinceUpload key τ

/-! ### What a step does to a row -/

/-- The row of the key before and after a step, and the reason for the change. -/
inductive Tended (s : Store) (t t' : Task) (key : JsString) : Option GcRow → Option GcRow → Prop
  | same (row : Option GcRow) : Tended s t t' key row row
  | stamped {row : Option GcRow} {row' : GcRow} : safeAttachmentKey key = true →
      (∀ r, row = some r → r.blocked s.now = false) → s.now ≤ row'.updatedAt → row'.lastError = none →
      Tended s t t' key row (some row')
  | leased {row row' : GcRow} {rows : Todo} {referenced : List JsString} :
      t = .draining ((key, row.updatedAt) :: rows) referenced → key ∉ referenced →
      t' = .removing key s.now rows referenced → row'.updatedAt = s.now →
      row'.lastError = some gcInProgress → Tended s t t' key (some row) (some row')
  | retained {row row' : GcRow} {leaseAt : ℤ} {message : JsString} {rows : Todo}
      {referenced : List JsString} : t = .failing key leaseAt message rows referenced →
      row.leasedAt leaseAt = true → row'.updatedAt = s.now → row'.lastError = some (errorText message) →
      Tended s t t' key (some row) (some row')
  | unlisted {row : GcRow} {rows : Todo} {referenced : List JsString} :
      t = .draining ((key, row.updatedAt) :: rows) referenced → key ∈ referenced →
      Tended s t t' key (some row) none
  | cleared {row : GcRow} {leaseAt : ℤ} {rows : Todo} {referenced : List JsString} :
      t = .clearing key leaseAt rows referenced → row.leasedAt leaseAt = true →
      Tended s t t' key (some row) none
  | released {row : GcRow} : s.Referenced key → Tended s t t' key (some row) none

theorem Enqueued.tended {keys : List JsString} (h : Enqueued s.now s.gc s'.gc keys)
    (hsafe : ∀ k ∈ keys, safeAttachmentKey k = true) :
    Tended s t t' key (s.gc.lookup key) (s'.gc.lookup key) := by
  rcases hrow : s'.gc.lookup key with _ | row'
  · rcases hold : s.gc.lookup key with _ | row
    · exact .same none
    · exact absurd hrow (h.there key (by rw [hold]; simp))
  · rcases h.row key row' hrow with hsame | ⟨hmem, hfree, hnow, herr⟩
    · rw [hsame]
      exact .same _
    · exact .stamped (hsafe key hmem) hfree hnow herr

theorem modifyRow_gc (s : Store) (key j : JsString) (p : GcRow → Bool)
    (f : GcRow → Option GcRow) :
    (s.modifyRow key p f).gc.lookup j = s.gc.lookup j ∨
      ∃ row, j = key ∧ s.gc.lookup key = some row ∧ p row = true ∧
        (s.modifyRow key p f).gc.lookup j = f row := by
  rw [Store.modifyRow]
  split
  · rename_i row hrow
    split
    · rename_i hp
      by_cases hj : j = key
      · refine .inr ⟨row, hj, hrow, hp, ?_⟩
        rw [hj]
        split
        · rename_i row' hf
          exact (AList.lookup_insert _).trans hf.symm
        · rename_i hf
          exact (AList.lookup_erase _ _).trans hf.symm
      · refine .inl ?_
        split
        · exact AList.lookup_insert_ne hj
        · exact AList.lookup_erase_ne hj
    · exact .inl rfl
  · exact .inl rfl

theorem modifyRow_tended {p : GcRow → Bool} {f : GcRow → Option GcRow}
    (h : ∀ row, p row = true → Tended s t t' key (some row) (f row)) :
    Tended s t t' j (s.gc.lookup j) ((s.modifyRow key p f).gc.lookup j) := by
  rcases modifyRow_gc s key j p f with hsame | ⟨row, rfl, hrow, hp, hnew⟩
  · rw [hsame]
    exact .same _
  · rw [hnew, hrow]
    exact h row hp

theorem modifyRow_rest {p : GcRow → Bool} {f : GcRow → Option GcRow} :
    (s.modifyRow key p f).now = s.now ∧ (s.modifyRow key p f).emails = s.emails ∧
      (s.modifyRow key p f).objects = s.objects := by
  rw [Store.modifyRow]
  split
  · split <;> exact ⟨rfl, rfl, rfl⟩
  · exact ⟨rfl, rfl, rfl⟩

/-- A lease finds the row that the drain saw. -/
theorem lease_some (h : s.lease key observed = some s') :
    (∃ row, s.gc.lookup key = some row ∧ row.updatedAt = observed) ∧
      s' = s.modifyRow key (·.updatedAt = observed) fun row =>
        some { row with lastError := some gcInProgress, updatedAt := s.now } := by
  rw [Store.lease] at h
  split at h
  · rename_i hany
    obtain ⟨row, hrow, hobs⟩ := (Option.any_eq_true _ _).mp hany
    exact ⟨⟨row, hrow, of_decide_eq_true hobs⟩, (Option.some.inj h).symm⟩
  · cases h

theorem attachmentGcInsert_some (h : s.attachmentGcInsert key = some s') :
    (∀ row, s.gc.lookup key = some row → row.blocked s.now = false) ∧
      s' = { s with gc := enqueue (fun _ => s.now) s.now s.gc key } := by
  rw [Store.attachmentGcInsert] at h
  split at h
  · cases h
  · rename_i hany
    refine ⟨fun row hrow => ?_, (Option.some.inj h).symm⟩
    rw [hrow] at hany
    simpa using hany

theorem deleteEmails_enqueued (s : Store) (p : EmailId → Email → Bool) :
    ∃ keys, Enqueued s.now s.gc (s.deleteEmails p).gc keys ∧ ∀ k ∈ keys, safeAttachmentKey k = true := by
  refine ⟨_, enqueued_all (fun old => le_max_left _ _) _, fun k hk => ?_⟩
  obtain ⟨e, -, hk⟩ := List.mem_flatMap.mp hk
  exact (mem_attachmentKeys.mp hk).2

theorem purge_enqueued (s : Store) (cutoff : ℤ) (page : List (EmailId × Email)) :
    ∃ keys, Enqueued s.now s.gc (s.purge cutoff page).gc keys ∧
      ∀ k ∈ keys, safeAttachmentKey k = true := by
  have hpage : Enqueued s.now s.gc
      (((page.flatMap fun e => e.2.attachmentKeys).eraseDups).foldl (enqueue (fun _ => s.now) s.now) s.gc)
      ((page.flatMap fun e => e.2.attachmentKeys).eraseDups) := enqueued_all (fun _ => le_rfl) _
  obtain ⟨keys, hdelete, hsafe⟩ := deleteEmails_enqueued { s with
    gc := ((page.flatMap fun e => e.2.attachmentKeys).eraseDups).foldl
      (enqueue (fun _ => s.now) s.now) s.gc } fun id e => e.expired cutoff && page.any (·.1 = id)
  refine ⟨_, hpage.trans hdelete, fun k hk => ?_⟩
  rcases List.mem_append.mp hk with hk | hk
  · obtain ⟨e, -, hk⟩ := List.mem_flatMap.mp (List.mem_eraseDups.mp hk)
    exact (mem_attachmentKeys.mp hk).2
  · exact hsafe k hk

theorem referencedBy_referenced {ids : List EmailId} (h : s.referencedBy ids key = true) :
    s.Referenced key := by
  obtain ⟨id, -, hany⟩ := List.any_eq_true.mp h
  obtain ⟨e, he, hkey⟩ := (Option.any_eq_true _ _).mp hany
  exact ⟨id, e, he, by simpa using hkey⟩

theorem release_tended {keys : List JsString} {ids : List EmailId} :
    Tended s t t' key (s.gc.lookup key) ((s.release keys ids).gc.lookup key) := by
  rw [Store.release]
  simp only
  rw [lookup_eraseAll (fun k => k)]
  split
  · rename_i hgone
    obtain ⟨k, hk, rfl⟩ := hgone
    have href := referencedBy_referenced (List.mem_filter.mp hk).2
    rcases s.gc.lookup k with _ | row
    · exact .same none
    · exact .released href
  · exact .same _

theorem GcStep.tended (h : GcStep s t s' t' ev) (key : JsString) :
    Tended s t t' key (s.gc.lookup key) (s'.gc.lookup key) := by
  cases h with
  | register hsafe hins =>
    obtain ⟨-, rfl⟩ := attachmentGcInsert_some hins
    refine Enqueued.tended (enqueued_one fun _ => le_rfl) fun k hk => ?_
    obtain rfl := List.mem_singleton.mp hk
    exact hsafe
  | release => exact release_tended
  | delete p =>
    obtain ⟨keys, henq, hsafe⟩ := deleteEmails_enqueued s p
    exact henq.tended hsafe
  | purge =>
    obtain ⟨keys, henq, hsafe⟩ := purge_enqueued s _ _
    exact henq.tended hsafe
  | keep hmem =>
    refine modifyRow_tended fun row hp => ?_
    obtain rfl := of_decide_eq_true hp
    exact .unlisted rfl hmem
  | lease hno hlease =>
    obtain ⟨-, rfl⟩ := lease_some hlease
    refine modifyRow_tended fun row hp => ?_
    obtain rfl := of_decide_eq_true hp
    exact .leased rfl hno rfl rfl rfl
  | retain => exact modifyRow_tended fun row hp => .retained rfl hp rfl rfl
  | clear => exact modifyRow_tended fun row hp => .cleared rfl hp
  | _ => exact .same _

/-! ### What a step does to references, objects and the clock -/

theorem modifyRow_referenced {p : GcRow → Bool} {f : GcRow → Option GcRow} :
    (s.modifyRow key p f).Referenced j ↔ s.Referenced j := by
  rw [Store.Referenced, modifyRow_rest.2.1, Store.Referenced]

theorem deleteEmails_lookup {p : EmailId → Email → Bool} {id : EmailId} :
    (s.deleteEmails p).emails.lookup id =
      if (s.emails.lookup id).any (p id) then none else s.emails.lookup id := by
  refine (lookup_eraseAll (fun e : Σ _ : EmailId, Email => e.1) id _ _).trans (if_congr ?_ rfl rfl)
  rw [Option.any_eq_true]
  constructor
  · rintro ⟨e, he, rfl⟩
    obtain ⟨hmem, hp⟩ := List.mem_filter.mp he
    exact ⟨e.2, AList.mem_lookup_iff.mpr hmem, hp⟩
  · rintro ⟨e, he, hp⟩
    exact ⟨⟨id, e⟩, List.mem_filter.mpr ⟨AList.mem_lookup_iff.mp he, hp⟩, rfl⟩

/-- A reference that a deletion takes away has been registered by the trigger. -/
theorem deleteEmails_loss {p : EmailId → Email → Bool} (h : s.Referenced j)
    (hsafe : safeAttachmentKey j = true) : (s.deleteEmails p).Referenced j ∨
      ∃ row, (s.deleteEmails p).gc.lookup j = some row ∧
        (row.blocked s.now = true ∨ s.now ≤ row.updatedAt) := by
  obtain ⟨id, e, he, hj⟩ := h
  by_cases hgone : p id e = true
  · refine .inr ((enqueued_all (fun old => le_max_left _ _) _).listed j (List.mem_flatMap.mpr ?_))
    exact ⟨⟨id, e⟩, List.mem_filter.mpr ⟨AList.mem_lookup_iff.mp he, hgone⟩,
      mem_attachmentKeys.mpr ⟨hj, hsafe⟩⟩
  · refine .inl ⟨id, e, ?_, hj⟩
    rw [deleteEmails_lookup, he, Option.any_some, if_neg hgone]

theorem deleteEmails_gain {p : EmailId → Email → Bool} (h : (s.deleteEmails p).Referenced j) :
    s.Referenced j := by
  obtain ⟨id, e, he, hj⟩ := h
  rw [deleteEmails_lookup] at he
  split at he
  · cases he
  · exact ⟨id, e, he, hj⟩

theorem purge_loss {cutoff : ℤ} {page : List (EmailId × Email)} (h : s.Referenced j)
    (hsafe : safeAttachmentKey j = true) : (s.purge cutoff page).Referenced j ∨
      ∃ row, (s.purge cutoff page).gc.lookup j = some row ∧
        (row.blocked s.now = true ∨ s.now ≤ row.updatedAt) :=
  deleteEmails_loss (s := { s with
    gc := ((page.flatMap fun e => e.2.attachmentKeys).eraseDups).foldl
      (enqueue (fun _ => s.now) s.now) s.gc }) h hsafe

theorem purge_gain {cutoff : ℤ} {page : List (EmailId × Email)} (h : (s.purge cutoff page).Referenced j) :
    s.Referenced j :=
  deleteEmails_gain (s := { s with
    gc := ((page.flatMap fun e => e.2.attachmentKeys).eraseDups).foldl
      (enqueue (fun _ => s.now) s.now) s.gc }) h

/-- Emails come only from an insert, and only under a free id. -/
theorem insertEmails_gain {rows : List (EmailId × Email)} (h : (s.insertEmails rows).Referenced j) :
    s.Referenced j ∨ ∃ e ∈ rows, s.emails.lookup e.1 = none ∧ j ∈ e.2.keys := by
  induction rows generalizing s with
  | nil => exact .inl h
  | cons row rows ih =>
    have hput : ∀ id, (putNew (·.1) (·.2) s.emails row).lookup id = none → s.emails.lookup id = none := by
      intro id hnone
      by_contra hsome
      exact (lookup_putNew id).mpr (.inl hsome) hnone
    rcases ih (s := { s with emails := putNew (·.1) (·.2) s.emails row }) h with h | ⟨e, he, hnew, hj⟩
    · obtain ⟨id, e, he, hj⟩ := h
      simp only [putNew] at he
      split at he
      · rename_i hfree
        rw [lookup_put] at he
        split at he
        · cases he
          exact .inr ⟨row, List.mem_cons_self, hfree, hj⟩
        · exact .inl ⟨id, e, he, hj⟩
      · exact .inl ⟨id, e, he, hj⟩
    · exact .inr ⟨e, List.mem_cons_of_mem _ he, hput _ hnew, hj⟩

theorem insertEmails_keep {rows : List (EmailId × Email)} (h : s.Referenced j) :
    (s.insertEmails rows).Referenced j := by
  induction rows generalizing s with
  | nil => exact h
  | cons row rows ih =>
    refine ih (s := { s with emails := putNew (·.1) (·.2) s.emails row }) ?_
    obtain ⟨id, e, he, hj⟩ := h
    refine ⟨id, e, ?_, hj⟩
    simp only [putNew]
    split
    · rename_i hfree
      rw [lookup_put, if_neg]
      · exact he
      · rintro rfl
        rw [hfree] at he
        cases he
    · exact he

theorem flag_referenced {id : EmailId} {e : Email} {isRead isStarred : Bool}
    (he : s.emails.lookup id = some e) :
    Store.Referenced { s with
      emails := s.emails.insert id { e with isRead := isRead, isStarred := isStarred } } j ↔
      s.Referenced j := by
  constructor
  · rintro ⟨id', e', he', hj⟩
    rw [lookup_put] at he'
    split at he'
    · cases he'
      exact ⟨id, e, he, hj⟩
    · exact ⟨id', e', he', hj⟩
  · rintro ⟨id', e', he', hj⟩
    by_cases hid : id' = id
    · subst hid
      obtain rfl := Option.some.inj (he.symm.trans he')
      exact ⟨id', _, AList.lookup_insert _, hj⟩
    · exact ⟨id', e', (AList.lookup_insert_ne hid).trans he', hj⟩

theorem GcStep.gain (h : GcStep s t s' t' ev) (hj : s'.Referenced j) : s.Referenced j ∨
    ∃ rows kept, t = .inserting rows kept ∧ ∃ e ∈ kept, s.emails.lookup e.1 = none ∧ j ∈ e.2.keys := by
  cases h with
  | register hsafe hins =>
    obtain ⟨-, rfl⟩ := attachmentGcInsert_some hins
    exact .inl hj
  | insertEmails => exact (insertEmails_gain hj).imp_right fun he => ⟨_, _, rfl, he⟩
  | flag isRead isStarred he => exact .inl ((flag_referenced he).mp hj)
  | delete p => exact .inl (deleteEmails_gain hj)
  | purge => exact .inl (purge_gain hj)
  | lease hno hlease =>
    obtain ⟨-, rfl⟩ := lease_some hlease
    exact .inl (modifyRow_referenced.mp hj)
  | keep | retain | clear => exact .inl (modifyRow_referenced.mp hj)
  | _ => exact .inl hj

theorem GcStep.loss (h : GcStep s t s' t' ev) (hj : s.Referenced j)
    (hsafe : safeAttachmentKey j = true) : s'.Referenced j ∨
      ∃ row, s'.gc.lookup j = some row ∧ (row.blocked s.now = true ∨ s.now ≤ row.updatedAt) := by
  cases h with
  | register hkey hins =>
    obtain ⟨-, rfl⟩ := attachmentGcInsert_some hins
    exact .inl hj
  | insertEmails => exact .inl (insertEmails_keep hj)
  | flag isRead isStarred he => exact .inl ((flag_referenced he).mpr hj)
  | delete p => exact deleteEmails_loss hj hsafe
  | purge => exact purge_loss hj hsafe
  | lease hno hlease =>
    obtain ⟨-, rfl⟩ := lease_some hlease
    exact .inl (modifyRow_referenced.mpr hj)
  | keep | retain | clear => exact .inl (modifyRow_referenced.mpr hj)
  | _ => exact .inl hj

theorem GcStep.objects (h : GcStep s t s' t' ev) (hj : j ∈ s'.objects) : j ∈ s.objects ∨
    ∃ registeredAt, t = .uploading j registeredAt := by
  cases h with
  | register hkey hins =>
    obtain ⟨-, rfl⟩ := attachmentGcInsert_some hins
    exact .inl hj
  | upload =>
    rcases Finset.mem_insert.mp hj with rfl | hj
    · exact .inr ⟨_, rfl⟩
    · exact .inl hj
  | lease hno hlease =>
    obtain ⟨-, rfl⟩ := lease_some hlease
    rw [modifyRow_rest.2.2] at hj
    exact .inl hj
  | keep | retain | clear => exact .inl (modifyRow_rest.2.2 ▸ hj)
  | remove | removeThrows => exact .inl (Finset.mem_of_mem_erase hj)
  | _ => exact .inl hj

theorem GcStep.now_le (h : GcStep s t s' t' ev) : s.now ≤ s'.now := by
  cases h with
  | tick now hle => exact hle
  | register hkey hins =>
    obtain ⟨-, rfl⟩ := attachmentGcInsert_some hins
    exact le_rfl
  | lease hno hlease =>
    obtain ⟨-, rfl⟩ := lease_some hlease
    rw [modifyRow_rest.1]
  | keep | retain | clear => exact modifyRow_rest.1.ge
  | _ => exact le_rfl

/-- The event of a step, if any, and the task that makes it. -/
theorem GcStep.event (h : GcStep s t s' t' ev) : ev = [] ∨
    (∃ key, ev = [.registered key s.now] ∧ safeAttachmentKey key = true ∧
      ∃ row, s'.gc.lookup key = some row ∧ s.now ≤ row.updatedAt ∧ row.lastError = none) ∨
    (∃ key registeredAt, ev = [.uploaded key registeredAt] ∧ t = .uploading key registeredAt) ∨
    ∃ key leaseAt rows referenced, ev = [.removed key] ∧ t = .removing key leaseAt rows referenced := by
  cases h with
  | register hkey hins =>
    obtain ⟨hfree, rfl⟩ := attachmentGcInsert_some hins
    refine .inr (.inl ⟨_, rfl, hkey, ?_⟩)
    rw [enqueue]
    split
    · exact ⟨_, AList.lookup_insert _, le_rfl, rfl⟩
    · rename_i row hrow
      rw [if_neg (by simpa using hfree row hrow)]
      exact ⟨_, AList.lookup_insert _, le_rfl, rfl⟩
  | upload => exact .inr (.inr (.inl ⟨_, _, rfl, rfl⟩))
  | remove | removeThrows => exact .inr (.inr (.inr ⟨_, _, _, _, rfl, rfl⟩))
  | _ => exact .inl rfl

/-- A registration is new, or was in the history. -/
theorem GcStep.registered (h : GcStep s t s' t' ev) {r : ℤ} (hr : .registered key r ∈ ev ++ τ) :
    .registered key r ∈ τ ∨ (r = s.now ∧ safeAttachmentKey key = true ∧
      ∃ row, s'.gc.lookup key = some row ∧ s.now ≤ row.updatedAt ∧ row.lastError = none) := by
  rcases List.mem_append.mp hr with hr | hr
  · rcases h.event with rfl | ⟨k, rfl, hkey, hrow⟩ | ⟨k, r', rfl, -⟩ | ⟨k, l, _, _, rfl, -⟩
    · cases hr
    · cases List.mem_singleton.mp hr
      exact .inr ⟨rfl, hkey, hrow⟩
    · cases List.mem_singleton.mp hr
    · cases List.mem_singleton.mp hr
  · exact .inl hr

/-- An upload is the step of its task, or was in the history. -/
theorem GcStep.uploaded (h : GcStep s t s' t' ev) {r : ℤ} (hr : .uploaded key r ∈ ev ++ τ) :
    .uploaded key r ∈ τ ∨ t = .uploading key r := by
  rcases List.mem_append.mp hr with hr | hr
  · rcases h.event with rfl | ⟨k, rfl, -⟩ | ⟨k, r', rfl, htask⟩ | ⟨k, l, _, _, rfl, -⟩
    · cases hr
    · cases List.mem_singleton.mp hr
    · cases List.mem_singleton.mp hr
      exact .inr htask
    · cases List.mem_singleton.mp hr
  · exact .inl hr

/-! ### Time stamps -/

/-- The rows that a drain has still to work off. -/
def Task.rows : Task → Todo
  | .scanning rows _ _ => rows
  | .draining rows _ => rows
  | .removing _ _ rows _ => rows
  | .failing _ _ _ rows _ => rows
  | .clearing _ _ rows _ => rows
  | _ => []

/-- The drain holds the lease that it took at the time. -/
def Task.Holds (key : JsString) (leaseAt : ℤ) : Task → Prop
  | .removing k l _ _ => k = key ∧ l = leaseAt
  | .failing k l _ _ _ => k = key ∧ l = leaseAt
  | .clearing k l _ _ => k = key ∧ l = leaseAt
  | _ => False

theorem Tended.row_new {row : Option GcRow} {row' : GcRow} (h : Tended s t t' key row (some row')) :
    row = some row' ∨ s.now ≤ row'.updatedAt := by
  cases h with
  | same => exact .inl rfl
  | stamped _ _ hnow _ => exact .inr hnow
  | leased _ _ _ hnow _ => exact .inr hnow.ge
  | retained _ _ hnow _ => exact .inr hnow.ge

/-- Only the keys of attachments get a row. -/
theorem Tended.there {row row' : Option GcRow} (h : Tended s t t' key row row') (hrow' : row' ≠ none) :
    row ≠ none ∨ safeAttachmentKey key = true := by
  cases h with
  | same => exact .inl hrow'
  | stamped hsafe => exact .inr hsafe
  | leased | retained => exact .inl (by simp)
  | unlisted | cleared | released => exact absurd rfl hrow'

theorem GcStep.rows (h : GcStep s t s' t' ev) {e : JsString × ℤ} (he : e ∈ t'.rows) : e ∈ t.rows ∨
    (e.2 + attachmentGcGraceMs ≤ s.now ∧ s.gc.lookup e.1 ≠ none) := by
  cases h with
  | drain =>
    obtain ⟨row, hrow, rfl⟩ := List.mem_map.mp he
    obtain ⟨hmem, hold⟩ := mem_of_mem_selectTop hrow
    refine .inr ⟨?_, by rw [AList.mem_lookup_iff.mpr hmem]; simp⟩
    have hle : row.2.updatedAt ≤ s.now - attachmentGcGraceMs := of_decide_eq_true hold
    simp only
    omega
  | keep | skip | lease => exact .inl (List.mem_cons_of_mem _ he)
  | scan | scanned | remove | removeFails | removeThrows | retain | clear => exact .inl he
  | _ => cases he

/-- A lease is taken on the row that the drain saw, and stamps it with the time. -/
theorem GcStep.holds (h : GcStep s t s' t' ev) (hl : t'.Holds key leaseAt) : t.Holds key leaseAt ∨
    (leaseAt = s.now ∧ ∃ row rows referenced, t = .draining ((key, row.updatedAt) :: rows) referenced ∧
      key ∉ referenced ∧ s.gc.lookup key = some row ∧ t' = .removing key s.now rows referenced ∧
      s.emails = s'.emails ∧ s'.now = s.now ∧
      ∃ row', s'.gc.lookup key = some row' ∧ row'.leasedAt s.now = true) := by
  cases h with
  | lease hno hlease =>
    obtain ⟨rfl, rfl⟩ := hl
    obtain ⟨⟨row, hrow, rfl⟩, rfl⟩ := lease_some hlease
    refine .inr ⟨rfl, row, _, _, rfl, hno, hrow, rfl, modifyRow_rest.2.1.symm, modifyRow_rest.1, ?_⟩
    rw [Store.modifyRow, hrow]
    simp only [decide_true, if_true]
    exact ⟨_, AList.lookup_insert _, by simp [GcRow.leasedAt]⟩
  | remove | removeFails | removeThrows => exact .inl hl
  | _ => cases hl

/-- What the rows and the history say about time. -/
structure Stamps (s : Store) (τ : List Event) : Prop where
  registered : ∀ key r, .registered key r ∈ τ → r ≤ s.now ∧ safeAttachmentKey key = true ∧
    ∀ row, s.gc.lookup key = some row → r ≤ row.updatedAt
  uploaded : ∀ key r, .uploaded key r ∈ τ → .registered key r ∈ τ
  rows : ∀ key, s.gc.lookup key ≠ none → safeAttachmentKey key = true
  objects : ∀ key ∈ s.objects, safeAttachmentKey key = true

structure Dated (s : Store) (τ : List Event) (t : Task) : Prop where
  uploading : ∀ key r, t = .uploading key r → .registered key r ∈ τ
  rows : ∀ e ∈ t.rows, e.2 + attachmentGcGraceMs ≤ s.now ∧ safeAttachmentKey e.1 = true
  lease : ∀ key leaseAt, t.Holds key leaseAt →
    leaseAt ≤ s.now ∧ ∀ row, s.gc.lookup key = some row → leaseAt ≤ row.updatedAt

theorem Dated.stable (h : Dated s τ t) {u u' : Task} (hst : GcStep s u s' u' ev) :
    Dated s' (ev ++ τ) t where
  uploading key r ht := List.mem_append_right _ (h.uploading key r ht)
  rows e he := ⟨(h.rows e he).1.trans hst.now_le, (h.rows e he).2⟩
  lease key leaseAt hl := by
    obtain ⟨hnow, hrow⟩ := h.lease key leaseAt hl
    refine ⟨hnow.trans hst.now_le, fun row' hrow' => ?_⟩
    have htend := hst.tended key
    rw [hrow'] at htend
    rcases htend.row_new with hsame | hnew
    · exact hrow row' hsame
    · exact hnow.trans hnew

theorem stamps_step (h : GcStep s t s' t' ev) (hs : Stamps s τ) (ht : Dated s τ t) :
    Stamps s' (ev ++ τ) ∧ Dated s' (ev ++ τ) t' := by
  have hold := ht.stable h
  refine ⟨⟨fun key r hr => ?_, fun key r hr => ?_, fun key hrow => ?_, fun key hobj => ?_⟩,
    ⟨fun key r ht' => ?_, fun e he => ?_, fun key leaseAt hl => ?_⟩⟩
  · rcases h.registered hr with hr | ⟨rfl, hsafe, row, hrow, hle, -⟩
    · obtain ⟨hnow, hsafe, hrow⟩ := hs.registered key r hr
      refine ⟨hnow.trans h.now_le, hsafe, fun row' hrow' => ?_⟩
      have htend := h.tended key
      rw [hrow'] at htend
      rcases htend.row_new with hsame | hnew
      · exact hrow row' hsame
      · exact hnow.trans hnew
    · refine ⟨h.now_le, hsafe, fun row' hrow' => ?_⟩
      obtain rfl := Option.some.inj (hrow.symm.trans hrow')
      exact hle
  · rcases h.uploaded hr with hr | htask
    · exact List.mem_append_right _ (hs.uploaded key r hr)
    · exact List.mem_append_right _ (ht.uploading key r htask)
  · rcases (h.tended key).there hrow with hrow | hsafe
    · exact hs.rows key hrow
    · exact hsafe
  · rcases h.objects hobj with hobj | ⟨r, htask⟩
    · exact hs.objects key hobj
    · exact (hs.registered key r (ht.uploading key r htask)).2.1
  · cases h with
    | register hsafe hins =>
      cases ht'
      exact List.mem_cons_self
    | _ => cases ht'
  · rcases h.rows he with he | ⟨hobs, hrow⟩
    · exact hold.rows e he
    · exact ⟨hobs.trans h.now_le, hs.rows _ hrow⟩
  · rcases h.holds hl with hl | ⟨rfl, row, _, _, -, -, -, -, -, hnow, row', hrow', hlease⟩
    · exact hold.lease key leaseAt hl
    · refine ⟨hnow.ge, fun row'' hrow'' => ?_⟩
      obtain rfl := Option.some.inj (hrow'.symm.trans hrow'')
      simp only [GcRow.leasedAt, Bool.and_eq_true, decide_eq_true_eq] at hlease
      exact hlease.2.ge

variable {C : World Store Task Event → ℕ → Prop}

theorem stamps_reach (h : Reach collection C w) :
    Stamps w.store w.trace ∧ ∀ i, Dated w.store w.trace (w.pc i) := by
  refine Reach.shared (I := Stamps) (L := Dated) ?_ ?_ ?_ h
  · rintro s ⟨hemails, hgc, hobjects⟩
    refine ⟨⟨fun _ _ hr => ?_, fun _ _ hr => ?_, fun key hrow => ?_, fun key hobj => ?_⟩,
      ⟨fun _ _ ht => ?_, fun _ he => ?_, fun _ _ hl => ?_⟩⟩
    · cases hr
    · cases hr
    · rw [hgc] at hrow
      exact absurd rfl hrow
    · rw [hobjects] at hobj
      cases hobj
    · cases ht
    · cases he
    · cases hl
  · exact fun w i s' t' ev _ _ hs ht hst => stamps_step hst hs ht
  · exact fun w i j s' t' ev _ _ _ _ _ hj hst => hj.stable hst

/-- No two drains hold the same lease. -/
theorem leases_apart (h : Reach collection C w) {i k : ℕ} (hik : i ≠ k) :
    ∀ key leaseAt, (w.pc i).Holds key leaseAt → ¬ (w.pc k).Holds key leaseAt := by
  refine Reach.pairwise (Q := fun t u => ∀ key leaseAt, t.Holds key leaseAt → ¬ u.Holds key leaseAt)
    ?_ ?_ ?_ h i k hik
  · exact fun t u htu key leaseAt hu ht => htu key leaseAt ht hu
  · intro _ _ hl
    cases hl
  · intro w i k s' t' ev hw _ _ hapart hst key leaseAt ht' hk
    rcases hst.holds ht' with ht | ⟨rfl, row, rows, referenced, htask, -, hrow, -⟩
    · exact hapart key leaseAt ht hk
    · have hstamped := ((stamps_reach hw).2 k).lease key _ hk
      have hseen := ((stamps_reach hw).2 i).rows (key, row.updatedAt) (by rw [htask]; exact List.mem_cons_self)
      have hle := hstamped.2 row hrow
      have hgrace := hseen.1
      simp only [attachmentGcGraceMs] at hgrace
      omega

/-! ### The promises of the callers -/

/-- Uploads and deletions of objects finish within the lease time. -/
def Prompt (w : World Store Task Event) (i : ℕ) : Prop :=
  (∀ key r, w.pc i = .uploading key r → w.store.now < r + attachmentGcLeaseMs) ∧
  ∀ key leaseAt rows referenced, w.pc i = .removing key leaseAt rows referenced →
    w.store.now < leaseAt + attachmentGcLeaseMs

/-- The key has been uploaded, and the grace period of that upload's registration is not over. -/
def Published (w : World Store Task Event) (key : JsString) : Prop :=
  ∃ r, .uploaded key r ∈ w.trace ∧ w.store.now < r + attachmentGcGraceMs

/-- The latest registration of the key is within its grace period. -/
def RecentlyRegistered (w : World Store Task Event) (key : JsString) : Prop :=
  ∃ r, .registered key r ∈ w.trace ∧ (∀ r', .registered key r' ∈ w.trace → r' ≤ r) ∧
    w.store.now < r + attachmentGcGraceMs

/-- Emails that are really inserted reference only keys that meet the condition. -/
def Timely (ready : World Store Task Event → JsString → Prop) (w : World Store Task Event) (i : ℕ) : Prop :=
  Prompt w i ∧ ∀ rows kept, w.pc i = .inserting rows kept → ∀ e ∈ kept,
    w.store.emails.lookup e.1 = none → ∀ key ∈ e.2.keys, ready w key

/-! ### The invariant -/

def Store.Covered (s : Store) (key : JsString) : Prop := s.Referenced key ∨ s.gc.lookup key ≠ none

/-- The row, if there is one, is not the one that the drain saw. -/
def Store.Newer (s : Store) (e : JsString × ℤ) : Prop :=
  ∀ row, s.gc.lookup e.1 = some row → e.2 < row.updatedAt

structure Intact (s : Store) (τ : List Event) : Prop where
  leased : ∀ key row, s.gc.lookup key = some row → row.lastError = some gcInProgress →
    ∀ r, .registered key r ∈ τ → r + attachmentGcGraceMs ≤ row.updatedAt
  covered : ∀ key r, .registered key r ∈ τ → s.now < r + attachmentGcGraceMs → s.Covered key
  stored : ∀ key ∈ s.objects, s.Covered key
  fresh : ∀ key r, .uploaded key r ∈ τ → s.now < r + attachmentGcGraceMs →
    deletedSinceUpload key τ = false
  kept : ∀ key, s.Referenced key → deletedSinceUpload key τ = false

/-- The rows of a drain, the keys it has still to look up, and the referenced keys it has found. -/
def Task.verdict : Task → Todo × List JsString × List JsString
  | .scanning rows todo referenced => (rows, todo, referenced)
  | .draining rows referenced => (rows, [], referenced)
  | .removing _ _ rows referenced => (rows, [], referenced)
  | .failing _ _ _ rows referenced => (rows, [], referenced)
  | .clearing _ _ rows referenced => (rows, [], referenced)
  | _ => ([], [], [])

/-- What was found of a key still holds, unless its row has changed. -/
def Judged (s : Store) (todo referenced : List JsString) (e : JsString × ℤ) : Prop :=
  (e.1 ∈ referenced → s.Referenced e.1 ∨ s.Newer e) ∧
  (e.1 ∉ todo → e.1 ∉ referenced → ¬ s.Referenced e.1 ∨ s.Newer e)

structure Sound (s : Store) (t : Task) : Prop where
  judged : ∀ e ∈ t.verdict.1, Judged s t.verdict.2.1 t.verdict.2.2 e
  removing : ∀ key leaseAt rows referenced, t = .removing key leaseAt rows referenced →
    s.now < leaseAt + attachmentGcLeaseMs →
    (∃ row, s.gc.lookup key = some row ∧ row.leasedAt leaseAt = true) ∧ ¬ s.Referenced key
  clearing : ∀ key leaseAt rows referenced, t = .clearing key leaseAt rows referenced →
    ∀ row, s.gc.lookup key = some row → row.leasedAt leaseAt = true → key ∉ s.objects

theorem verdict_rows (t : Task) : t.verdict.1 = t.rows := by
  cases t <;> rfl

theorem leasedAt_iff {row : GcRow} :
    row.leasedAt leaseAt = true ↔ row.lastError = some gcInProgress ∧ row.updatedAt = leaseAt := by
  rw [GcRow.leasedAt, Bool.and_eq_true, decide_eq_true_eq, decide_eq_true_eq]

theorem blocked_iff {row : GcRow} {now : ℤ} : row.blocked now = true ↔
    row.lastError = some gcInProgress ∧ now - attachmentGcLeaseMs < row.updatedAt := by
  rw [GcRow.blocked, Bool.and_eq_true, decide_eq_true_eq, decide_eq_true_eq]

theorem errorText_ne (message : JsString) : errorText message ≠ gcInProgress := by
  intro h
  have hhead := congrArg List.head? h
  rw [errorText] at hhead
  revert hhead
  have hcons : ∀ m : JsString, ((js "AttachmentStorageError: " ++ m).take 500).head? = some 0x41 :=
    fun _ => rfl
  rw [hcons]
  decide

/-! ### Steps of other tasks -/

theorem newer_stable {e : JsString × ℤ} (h : GcStep s t s' t' ev)
    (hold : e.2 + attachmentGcGraceMs ≤ s.now) (hnewer : s.Newer e) : s'.Newer e := by
  intro row' hrow'
  have htend := h.tended e.1
  rw [hrow'] at htend
  rcases htend.row_new with hsame | hnow
  · exact hnewer row' hsame
  · simp only [attachmentGcGraceMs] at hold
    omega

/-- A reference is lost only to the trigger, which leaves a new row or meets a lease. -/
theorem wanted_stable {e : JsString × ℤ} (h : GcStep s t s' t' ev)
    (hold : e.2 + attachmentGcGraceMs ≤ s.now) (hsafe : safeAttachmentKey e.1 = true)
    (hwanted : s.Referenced e.1 ∨ s.Newer e) : s'.Referenced e.1 ∨ s'.Newer e := by
  rcases hwanted with href | hnewer
  · rcases h.loss href hsafe with href | ⟨row, hrow, hnew⟩
    · exact .inl href
    · refine .inr fun row' hrow' => ?_
      obtain rfl := Option.some.inj (hrow.symm.trans hrow')
      simp only [attachmentGcGraceMs] at hold
      rcases hnew with hblocked | hnow
      · have hlease := (blocked_iff.mp hblocked).2
        simp only [attachmentGcLeaseMs] at hlease
        omega
      · omega
  · exact .inr (newer_stable h hold hnewer)

/-- The step keeps its callers' promises, in the terms of one step. -/
structure Promised (s : Store) (τ : List Event) (t : Task) : Prop where
  uploading : ∀ key r, t = .uploading key r → s.now < r + attachmentGcLeaseMs
  removing : ∀ key leaseAt rows referenced, t = .removing key leaseAt rows referenced →
    s.now < leaseAt + attachmentGcLeaseMs
  inserting : ∀ rows kept, t = .inserting rows kept → ∀ e ∈ kept, s.emails.lookup e.1 = none →
    ∀ key ∈ e.2.keys, ∃ r, .uploaded key r ∈ τ ∧ s.now < r + attachmentGcGraceMs

/-- A new reference has a fresh registration. -/
theorem gain_fresh (h : GcStep s t s' t' ev) (hp : Promised s τ t) (hno : ¬ s.Referenced key)
    (hyes : s'.Referenced key) : ∃ r, .uploaded key r ∈ τ ∧ s.now < r + attachmentGcGraceMs := by
  rcases h.gain hyes with hold | ⟨rows, kept, htask, e, he, hnew, hkey⟩
  · exact absurd hold hno
  · exact hp.inserting rows kept htask e he hnew key hkey

theorem unwanted_stable {e : JsString × ℤ} (h : GcStep s t s' t' ev) (hs : Stamps s τ)
    (hp : Promised s τ t) (hold : e.2 + attachmentGcGraceMs ≤ s.now)
    (hunwanted : ¬ s.Referenced e.1 ∨ s.Newer e) : ¬ s'.Referenced e.1 ∨ s'.Newer e := by
  rcases hunwanted with hno | hnewer
  · by_cases hyes : s'.Referenced e.1
    · obtain ⟨r, hup, hnow⟩ := gain_fresh h hp hno hyes
      refine .inr fun row' hrow' => ?_
      have htend := h.tended e.1
      rw [hrow'] at htend
      rcases htend.row_new with hsame | hnew
      · have hle := (hs.registered _ _ (hs.uploaded _ _ hup)).2.2 row' hsame
        omega
      · simp only [attachmentGcGraceMs] at hold
        omega
    · exact .inl hyes
  · exact .inr (newer_stable h hold hnewer)

theorem judged_stable {todo referenced : List JsString} {e : JsString × ℤ} (h : GcStep s t s' t' ev)
    (hs : Stamps s τ) (hp : Promised s τ t)
    (hold : e.2 + attachmentGcGraceMs ≤ s.now ∧ safeAttachmentKey e.1 = true)
    (hj : Judged s todo referenced e) : Judged s' todo referenced e :=
  ⟨fun hmem => wanted_stable h hold.1 hold.2 (hj.1 hmem),
    fun htodo hno => unwanted_stable h hs hp hold.1 (hj.2 htodo hno)⟩

/-- While a lease lasts, nobody else touches the row or references the key. -/
theorem leased_stable {row : GcRow} (h : GcStep s t s' t' ev) (hs : Stamps s τ) (hd : Dated s τ t)
    (hi : Intact s τ) (hp : Promised s τ t) (hapart : ¬ t.Holds key leaseAt) (hpast : leaseAt ≤ s.now)
    (hlasts : s.now < leaseAt + attachmentGcLeaseMs) (hrow : s.gc.lookup key = some row)
    (hlease : row.leasedAt leaseAt = true) (hno : ¬ s.Referenced key) :
    s'.gc.lookup key = some row ∧ ¬ s'.Referenced key := by
  obtain ⟨herr, hupdated⟩ := leasedAt_iff.mp hlease
  have hseen : ∀ rows referenced, t ≠ .draining ((key, row.updatedAt) :: rows) referenced := by
    rintro rows referenced rfl
    have hgrace := (hd.rows _ List.mem_cons_self).1
    simp only [attachmentGcGraceMs, attachmentGcLeaseMs] at hgrace hlasts
    omega
  refine ⟨?_, fun hyes => ?_⟩
  · have htend := h.tended key
    rw [hrow] at htend
    generalize s'.gc.lookup key = row' at htend
    cases htend with
    | same => rfl
    | stamped _ hfree _ _ =>
      have hblocked : row.blocked s.now = true := blocked_iff.mpr ⟨herr, by omega⟩
      rw [hfree row rfl] at hblocked
      cases hblocked
    | leased htask => exact absurd htask (hseen _ _)
    | retained htask hheld =>
      rw [htask] at hapart
      exact absurd ⟨rfl, (leasedAt_iff.mp hheld).2.symm.trans hupdated⟩ hapart
    | unlisted htask => exact absurd htask (hseen _ _)
    | cleared htask hheld =>
      rw [htask] at hapart
      exact absurd ⟨rfl, (leasedAt_iff.mp hheld).2.symm.trans hupdated⟩ hapart
    | released href => exact absurd href hno
  · obtain ⟨r, hup, hnow⟩ := gain_fresh h hp hno hyes
    have hgrace := hi.leased key row hrow herr r (hs.uploaded _ _ hup)
    omega

/-- An object whose lease row is still there has not been uploaded again. -/
theorem removed_stable (h : GcStep s t s' t' ev) (hd : Dated s τ t) (hi : Intact s τ)
    (hp : Promised s τ t) (hpast : leaseAt ≤ s.now)
    (hstamp : ∀ row, s.gc.lookup key = some row → leaseAt ≤ row.updatedAt)
    (hgone : ∀ row, s.gc.lookup key = some row → row.leasedAt leaseAt = true → key ∉ s.objects) :
    ∀ row, s'.gc.lookup key = some row → row.leasedAt leaseAt = true → key ∉ s'.objects := by
  intro row' hrow' hlease hobj
  obtain ⟨herr, hupdated⟩ := leasedAt_iff.mp hlease
  have htend := h.tended key
  rw [hrow'] at htend
  generalize hrow : s.gc.lookup key = row at htend
  cases htend with
  | same =>
    rcases h.objects hobj with hobj | ⟨r, htask⟩
    · exact hgone row' hrow hlease hobj
    · have hgrace := hi.leased key row' hrow herr r (hd.uploading key r htask)
      have hprompt := hp.uploading key r htask
      simp only [attachmentGcGraceMs, attachmentGcLeaseMs] at hgrace hprompt
      omega
  | stamped _ _ _ hnone =>
    rw [hnone] at herr
    cases herr
  | leased htask _ _ hnow =>
    subst htask
    have hgrace := (hd.rows _ List.mem_cons_self).1
    have hle := hstamp _ hrow
    simp only [attachmentGcGraceMs] at hgrace
    omega
  | retained _ _ _ htext =>
    rw [htext] at herr
    exact errorText_ne _ (Option.some.inj herr)

/-! ### The step of the task itself -/

/-- A covered key stays covered, unless a drain removes its row. -/
theorem covered_stable (h : GcStep s t s' t' ev) (hsafe : safeAttachmentKey key = true)
    (hc : s.Covered key)
    (hunlisted : ∀ row rows referenced, s.gc.lookup key = some row → key ∈ referenced →
      t = .draining ((key, row.updatedAt) :: rows) referenced → s.Referenced key)
    (hcleared : ∀ row leaseAt rows referenced, s.gc.lookup key = some row →
      t = .clearing key leaseAt rows referenced → row.leasedAt leaseAt = true → s.Referenced key) :
    s'.Covered key := by
  have hloss : s.Referenced key → s'.Covered key := fun href => (h.loss href hsafe).imp_right
    fun ⟨row, hrow, _⟩ => by rw [hrow]; simp
  rcases hc with href | hrow
  · exact hloss href
  · obtain ⟨row, hrow⟩ := Option.ne_none_iff_exists'.mp hrow
    have htend := h.tended key
    rw [hrow] at htend
    generalize hrow' : s'.gc.lookup key = row' at htend
    cases htend with
    | same => exact .inr (by rw [hrow']; simp)
    | stamped | leased | retained => exact .inr (by rw [hrow']; simp)
    | unlisted htask hmem => exact hloss (hunlisted row _ _ hrow hmem htask)
    | cleared htask hheld => exact hloss (hcleared row _ _ _ hrow htask hheld)
    | released href => exact hloss href

theorem deletedSinceUpload_step (h : GcStep s t s' t' ev) (hτ : deletedSinceUpload key τ = false)
    (hno : ∀ leaseAt rows referenced, t ≠ .removing key leaseAt rows referenced) :
    deletedSinceUpload key (ev ++ τ) = false := by
  rcases h.event with rfl | ⟨k, rfl, -⟩ | ⟨k, r, rfl, -⟩ | ⟨k, l, rows, referenced, rfl, htask⟩
  · exact hτ
  · exact hτ
  · simp [deletedSinceUpload, hτ]
  · have hk : k ≠ key := by
      rintro rfl
      exact hno _ _ _ htask
    simpa [deletedSinceUpload, hk] using hτ

theorem intact_step (h : GcStep s t s' t' ev) (hs : Stamps s τ) (hd : Dated s τ t) (hi : Intact s τ)
    (ht : Sound s t) (hp : Promised s τ t) : Intact s' (ev ++ τ) := by
  -- while a lease lasts, every registration of the key is past its grace period
  have hleased : ∀ {key leaseAt rows referenced}, t = .removing key leaseAt rows referenced → ∀ r,
      .registered key r ∈ τ → r + attachmentGcGraceMs ≤ s.now := by
    intro key leaseAt rows referenced htask r hr
    obtain ⟨⟨row, hrow, hlease⟩, -⟩ := ht.removing _ _ _ _ htask (hp.removing _ _ _ _ htask)
    obtain ⟨herr, hupdated⟩ := leasedAt_iff.mp hlease
    have hgrace := hi.leased key row hrow herr r hr
    have hpast := (hd.lease key leaseAt (by rw [htask]; exact ⟨rfl, rfl⟩)).1
    omega
  refine ⟨fun key row' hrow' herr r hr => ?_, fun key r hr hnow => ?_, fun key hobj => ?_,
    fun key r hr hnow => ?_, fun key href => ?_⟩
  · rcases h.registered hr with hr | ⟨-, -, row, hrow, -, hnone⟩
    · have htend := h.tended key
      rw [hrow'] at htend
      generalize hrow : s.gc.lookup key = row at htend
      cases htend with
      | same => exact hi.leased key row' hrow herr r hr
      | stamped _ _ _ hnone =>
        rw [hnone] at herr
        cases herr
      | leased htask _ _ hnow =>
        subst htask
        have hgrace := (hd.rows _ List.mem_cons_self).1
        have hle := (hs.registered key r hr).2.2 _ hrow
        simp only at hgrace
        omega
      | retained _ _ _ htext =>
        rw [htext] at herr
        exact absurd (Option.some.inj herr) (errorText_ne _)
    · obtain rfl := Option.some.inj (hrow.symm.trans hrow')
      rw [hnone] at herr
      cases herr
  · rcases h.registered hr with hr | ⟨-, -, row, hrow, -⟩
    · have hbefore := h.now_le.trans_lt hnow
      refine covered_stable h (hs.registered key r hr).2.1 (hi.covered key r hr hbefore)
        (fun row rows referenced hrow _ htask => ?_) fun row leaseAt rows referenced hrow htask hheld => ?_
      · subst htask
        have hgrace := (hd.rows _ List.mem_cons_self).1
        have hle := (hs.registered key r hr).2.2 row hrow
        simp only at hgrace
        omega
      · obtain ⟨herr, hupdated⟩ := leasedAt_iff.mp hheld
        have hgrace := hi.leased key row hrow herr r hr
        have hpast := (hd.lease key leaseAt (by rw [htask]; exact ⟨rfl, rfl⟩)).1
        omega
    · exact .inr (by rw [hrow]; simp)
  · rcases h.objects hobj with hold | ⟨r, htask⟩
    · refine covered_stable h (hs.objects key hold) (hi.stored key hold)
        (fun row rows referenced hrow hmem htask => ?_) fun row leaseAt rows referenced hrow htask hheld => ?_
      · have hjudged := ht.judged (key, row.updatedAt) (by rw [htask]; exact List.mem_cons_self)
        rw [htask] at hjudged
        exact (hjudged.1 hmem).resolve_right fun hnewer => lt_irrefl _ (hnewer row hrow)
      · exact absurd hold (ht.clearing key leaseAt rows referenced htask row hrow hheld)
    · have hprompt := hp.uploading key r htask
      have hr := hd.uploading key r htask
      refine covered_stable h (hs.registered key r hr).2.1 (hi.covered key r hr ?_)
        (fun row rows referenced _ _ hother => ?_) fun row leaseAt rows referenced _ hother _ => ?_
      · simp only [attachmentGcGraceMs, attachmentGcLeaseMs] at hprompt ⊢
        omega
      · rw [htask] at hother
        cases hother
      · rw [htask] at hother
        cases hother
  · rcases h.uploaded hr with hr | htask
    · have hbefore := h.now_le.trans_lt hnow
      refine deletedSinceUpload_step h (hi.fresh key r hr hbefore) fun leaseAt rows referenced htask => ?_
      have hgrace := hleased htask r (hs.uploaded key r hr)
      omega
    · cases h with
      | upload =>
        obtain ⟨rfl, rfl⟩ := Task.uploading.inj htask
        simp [deletedSinceUpload]
      | _ => cases htask
  · by_cases hold : s.Referenced key
    · refine deletedSinceUpload_step h (hi.kept key hold) fun leaseAt rows referenced htask => ?_
      exact (ht.removing _ _ _ _ htask (hp.removing _ _ _ _ htask)).2 hold
    · obtain ⟨r, hup, hnow⟩ := gain_fresh h hp hold href
      refine deletedSinceUpload_step h (hi.fresh key r hup hnow) fun leaseAt rows referenced htask => ?_
      have hgrace := hleased htask r (hs.uploaded key r hup)
      omega

/-- A drain judges only what it has just looked up, and what it judged before. -/
theorem GcStep.judged (h : GcStep s t s' t' ev) (hs : Stamps s τ) (hd : Dated s τ t) (ht : Sound s t)
    (hp : Promised s τ t) : ∀ e ∈ t'.verdict.1, Judged s' t'.verdict.2.1 t'.verdict.2.2 e := by
  have hst := h
  have keep : ∀ e ∈ t.verdict.1, Judged s' t.verdict.2.1 t.verdict.2.2 e := fun e he =>
    judged_stable hst hs hp (hd.rows e (verdict_rows t ▸ he)) (ht.judged e he)
  cases h with
  | drain =>
    refine fun e he => ⟨fun hmem => ?_, fun htodo _ => absurd (List.mem_map_of_mem he) htodo⟩
    cases hmem
  | @scan rows todo referenced =>
    intro e he
    obtain ⟨hwanted, hunwanted⟩ := ht.judged e he
    refine ⟨fun hmem => ?_, fun htodo hno => ?_⟩
    · rcases List.mem_append.mp hmem with hmem | hmem
      · obtain ⟨-, hany⟩ := List.mem_filter.mp hmem
        obtain ⟨e', he', hkey⟩ := List.any_eq_true.mp hany
        exact .inl ⟨e'.1, e'.2, AList.mem_lookup_iff.mpr he', by simpa using hkey⟩
      · exact hwanted hmem
    · by_cases htake : e.1 ∈ todo.take attachmentRefChunk
      · refine .inl fun ⟨id, email, hemail, hkey⟩ => hno (List.mem_append_left _ ?_)
        refine List.mem_filter.mpr ⟨htake, List.any_eq_true.mpr ?_⟩
        exact ⟨⟨id, email⟩, AList.mem_lookup_iff.mp hemail, by simpa using hkey⟩
      · refine hunwanted (fun hmem => ?_) fun hmem => hno (List.mem_append_right _ hmem)
        rw [← List.take_append_drop attachmentRefChunk todo] at hmem
        exact (List.mem_append.mp hmem).elim htake htodo
  | keep | skip | lease => exact fun e he => keep e (List.mem_cons_of_mem _ he)
  | scanned | remove | removeFails | removeThrows | retain | clear => exact keep
  | _ => exact fun e he => by cases he

theorem sound_step (h : GcStep s t s' t' ev) (hs : Stamps s τ) (hd : Dated s τ t) (ht : Sound s t)
    (hp : Promised s τ t) : Sound s' t' := by
  refine ⟨h.judged hs hd ht hp, fun key leaseAt rows referenced htask _ => ?_,
    fun key leaseAt rows referenced htask => ?_⟩
  · have hholds : t'.Holds key leaseAt := by rw [htask]; exact ⟨rfl, rfl⟩
    rcases h.holds hholds with hold | ⟨rfl, row, rows', refs', htask₀, hno, hrow, -, hemails, -, row', hrow', hlease⟩
    · cases h with
      | lease => cases hold
      | remove | removeFails | removeThrows => cases htask
      | _ => cases htask
    · refine ⟨⟨row', hrow', hlease⟩, fun href => ?_⟩
      have hjudged := ht.judged (key, row.updatedAt) (by rw [htask₀]; exact List.mem_cons_self)
      rw [htask₀] at hjudged
      rw [Store.Referenced, ← hemails] at href
      exact (hjudged.2 List.not_mem_nil hno).elim (fun h => h href)
        fun hnewer => lt_irrefl _ (hnewer row hrow)
  · cases h with
    | remove =>
      obtain ⟨rfl, -⟩ := Task.clearing.inj htask
      exact fun _ _ _ => Finset.notMem_erase _ _
    | lease => cases htask
    | _ => cases htask

theorem sound_stable {u u' : Task} (h : GcStep s u s' u' ev) (hs : Stamps s τ) (hi : Intact s τ)
    (hu : Dated s τ u) (hp : Promised s τ u) (hd : Dated s τ t) (ht : Sound s t)
    (hapart : ∀ key leaseAt, t.Holds key leaseAt → ¬ u.Holds key leaseAt) : Sound s' t := by
  refine ⟨fun e he => ?_, fun key leaseAt rows referenced htask hlasts => ?_,
    fun key leaseAt rows referenced htask => ?_⟩
  · exact judged_stable h hs hp (hd.rows e (verdict_rows t ▸ he)) (ht.judged e he)
  · have hheld : t.Holds key leaseAt := by rw [htask]; exact ⟨rfl, rfl⟩
    have hlasts' := h.now_le.trans_lt hlasts
    obtain ⟨⟨row, hrow, hlease⟩, hno⟩ := ht.removing _ _ _ _ htask hlasts'
    obtain ⟨hrow', hno'⟩ := leased_stable h hs hu hi hp (hapart key leaseAt hheld) (hd.lease _ _ hheld).1
      hlasts' hrow hlease hno
    exact ⟨⟨row, hrow', hlease⟩, hno'⟩
  · have hheld : t.Holds key leaseAt := by rw [htask]; exact ⟨rfl, rfl⟩
    obtain ⟨hpast, hstamp⟩ := hd.lease _ _ hheld
    exact removed_stable h hu hi hp hpast hstamp (ht.clearing _ _ _ _ htask)

theorem Timely.promised {i : ℕ} (h : Timely Published w i) : Promised w.store w.trace (w.pc i) :=
  ⟨h.1.1, h.1.2, h.2⟩

theorem intact_reach (h : Reach collection (Timely Published) w) : Intact w.store w.trace := by
  refine (Reach.shared (I := Intact) (L := fun s _ t => Sound s t) ?_ ?_ ?_ h).1
  · rintro s ⟨hemails, hgc, hobjects⟩
    refine ⟨⟨fun key row hrow => ?_, fun _ _ hr => ?_, fun key hobj => ?_, fun _ _ hr => ?_,
      fun key href => ?_⟩, ⟨fun e he => ?_, fun _ _ _ _ ht => ?_, fun _ _ _ _ ht => ?_⟩⟩
    · rw [hgc] at hrow
      cases hrow
    · cases hr
    · rw [hobjects] at hobj
      cases hobj
    · cases hr
    · rfl
    · cases he
    · cases ht
    · cases ht
  · intro w i s' t' ev hw hc hi ht hst
    obtain ⟨hs, hd⟩ := stamps_reach hw
    exact ⟨intact_step hst hs (hd i) hi ht hc.promised, sound_step hst hs (hd i) ht hc.promised⟩
  · intro w i k s' t' ev hw hc hki hi _ hk hst
    obtain ⟨hs, hd⟩ := stamps_reach hw
    exact sound_stable hst hs hi (hd i) hc.promised (hd k) hk (leases_apart hw hki)

def emptyStore : Store := ⟨0, ∅, ∅, ∅⟩

def demoKey : JsString := js "unified/" ++ List.replicate 43 0x41

def demoMail : EmailId × Email := (js "mail", ⟨[⟨some demoKey⟩], true, 0, false⟩)

/-- The tasks whose next step is bound by a promise. -/
def Task.bound : Task → Bool
  | .uploading _ _ => true
  | .removing _ _ _ _ => true
  | .inserting _ _ => true
  | _ => false

theorem timely_free {ready : World Store Task Event → JsString → Prop} {i : ℕ}
    (h : (w.pc i).bound = false) : Timely ready w i := by
  refine ⟨⟨fun key r ht => ?_, fun _ _ _ _ ht => ?_⟩, fun _ _ ht => ?_⟩
  all_goals
    rw [ht] at h
    cases h

theorem timely_upload {ready : World Store Task Event → JsString → Prop} {i : ℕ} {r : ℤ}
    (h : w.pc i = .uploading key r) (hnow : w.store.now < r + attachmentGcLeaseMs) : Timely ready w i := by
  refine ⟨⟨fun key' r' ht => ?_, fun _ _ _ _ ht => ?_⟩, fun _ _ ht => ?_⟩
  · obtain ⟨-, rfl⟩ := Task.uploading.inj (h.symm.trans ht)
    exact hnow
  · cases h.symm.trans ht
  · cases h.symm.trans ht

theorem timely_remove {ready : World Store Task Event → JsString → Prop} {i : ℕ} {rows : Todo}
    {referenced : List JsString} (h : w.pc i = .removing key leaseAt rows referenced)
    (hnow : w.store.now < leaseAt + attachmentGcLeaseMs) : Timely ready w i := by
  refine ⟨⟨fun _ _ ht => ?_, fun key' leaseAt' _ _ ht => ?_⟩, fun _ _ ht => ?_⟩
  · cases h.symm.trans ht
  · obtain ⟨-, rfl, -⟩ := Task.removing.inj (h.symm.trans ht)
    exact hnow
  · cases h.symm.trans ht

theorem timely_insert {ready : World Store Task Event → JsString → Prop} {i : ℕ}
    {rows kept : List (EmailId × Email)} (h : w.pc i = .inserting rows kept)
    (hready : ∀ e ∈ kept, ∀ key ∈ e.2.keys, ready w key) : Timely ready w i := by
  refine ⟨⟨fun _ _ ht => ?_, fun _ _ _ _ ht => ?_⟩, fun rows' kept' ht e he _ => ?_⟩
  · cases h.symm.trans ht
  · cases h.symm.trans ht
  · obtain ⟨-, rfl⟩ := Task.inserting.inj (h.symm.trans ht)
    exact hready e he

theorem timely_demoMail {ready : World Store Task Event → JsString → Prop} {i : ℕ}
    (h : w.pc i = .inserting [demoMail] [demoMail]) (hready : ready w demoKey) : Timely ready w i := by
  refine timely_insert h fun e he key hkey => ?_
  obtain rfl := List.mem_singleton.mp he
  obtain rfl := List.mem_singleton.mp hkey
  exact hready

/-- The row that a registration at the time leaves. -/
def demoRow (time : ℤ) : KeyValue.Map JsString GcRow := AList.singleton demoKey ⟨0, none, time, time⟩

def demoUploaded : Store := ⟨0, ∅, demoRow 0, insert demoKey ∅⟩

/-- A registration and its upload. -/
theorem demo_upload (ready : World Store Task Event → JsString → Prop) :
    Reach collection (Timely ready) ((World.advance ⟨emptyStore, fun _ => .idle, []⟩ 0
      ⟨0, ∅, demoRow 0, ∅⟩ (.uploading demoKey 0) [.registered demoKey 0]).advance 0 demoUploaded .idle
        [.uploaded demoKey 0]) :=
  .next 0 (.next 0 (.start ⟨rfl, rfl, rfl⟩) (timely_free rfl) (.register (by decide +kernel) rfl))
    (timely_upload rfl (by decide)) .upload

end OneMail.Attachments
