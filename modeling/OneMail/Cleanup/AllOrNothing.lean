import OneMail.Cleanup.Addresses

/-! When the bulk deletion of addresses is all-or-nothing per address.

    The deletions themselves never change what the subquery selects: an unbound address has no binding to
    delete, an empty one no mail. As long as no step of another request does either between the first and
    the last statement, and none stores a row behind the cleanup's back, an address goes with all its rows
    or stays with all of them. -/

namespace OneMail.Cleanup
open JsString Interleave Table

variable {db db' : Database} {c c' : Call} {ev : List Event} {job : CleanupJob}
  {w w' w₀ : World Database Call Event} {i : ℕ} {ts : List Target}

/-- The address is still there and the cleanup took no row of it, or it was deleted and no row stored for it before
    that is left. -/
def AllOrNothing (a : AddressRow) (w : World Database Call Event) : Prop :=
  ((∃ b ∈ w.store.address, b.id = a.id ∧ b.name = a.name) ∧ .lost a.id ∉ w.trace) ∨
    (∀ b ∈ w.store.address, b.id ≠ a.id) ∧
      ∃ stored, .deleted a.id stored ∈ w.trace ∧ ∀ t, ∀ row ∈ w.store.rowsOf t a, stored ≤ row.stored

/-- Between the first and the last statement no address enters the selection, none leaves it and stays in the table,
    and no row of a selected address is stored where the cleanup has been; and `deleteAddressWithData` deletes an
    address that has no rows left. -/
structure Steady (job : CleanupJob) (ts : List Target) (w : World Database Call Event) (i : ℕ)
    (w' : World Database Call Event) : Prop where
  enters : ts ≠ sweepOrder → ∀ a ∈ job.selected w'.store, ∃ b ∈ job.selected w.store, b.id = a.id
  leaves : ts ≠ sweepOrder → ∀ a ∈ job.selected w.store, (∃ b ∈ w'.store.address, b.id = a.id) →
    ∃ b ∈ job.selected w'.store, b.id = a.id
  stores : ts ≠ sweepOrder → ∀ t ∉ ts, ∀ a ∈ job.selected w.store, w'.store.rowsOf t a ⊆ w.store.rowsOf t a
  emptied : ∀ a, w.pc i = .deleting a [] → ∀ b ∈ w.store.address, b.name = a.name → ∀ t, w.store.rowsOf t b = []

/-! ### Rows of an address -/

theorem rowsOf_modify_self {t : Target} {a : AddressRow} {f : List Row → List Row} :
    (db.modify t f).rowsOf t a = (f (db.rows t)).filter (·.key = some (t.key a)) := by
  simp [Database.rowsOf, Database.modify]

theorem rowsOf_modify_ne {t t' : Target} (h : t' ≠ t) {a : AddressRow} {f : List Row → List Row} :
    (db.modify t f).rowsOf t' a = db.rowsOf t' a := by
  simp [Database.rowsOf, Database.modify, h]

theorem rowsOf_congr {t : Target} {a b : AddressRow} (hid : a.id = b.id) (hname : a.name = b.name) :
    db.rowsOf t a = db.rowsOf t b := by
  have hkey : t.key a = t.key b := by cases t <;> simp [Target.key, hid, hname]
  rw [Database.rowsOf, hkey, Database.rowsOf]

theorem mem_rowsOf {t : Target} {a : AddressRow} {row : Row} :
    row ∈ db.rowsOf t a ↔ row ∈ db.rows t ∧ row.key = some (t.key a) := by
  simp [Database.rowsOf]

/-- A deletion leaves no row that was not there. -/
theorem rowsOf_delete {t t' : Target} {a : AddressRow} {p : Row → Bool} :
    (db.modify t (deleteWhere p)).rowsOf t' a ⊆ db.rowsOf t' a := by
  intro row hrow
  by_cases h : t' = t
  · subst h
    rw [rowsOf_modify_self] at hrow
    obtain ⟨hrow, hkey⟩ := List.mem_filter.mp hrow
    exact List.mem_filter.mpr ⟨(mem_deleteWhere.mp hrow).1, hkey⟩
  · rwa [rowsOf_modify_ne h] at hrow

theorem rowsOf_eraseRows {t t' : Target} {a b : AddressRow} : (eraseRows t a db).rowsOf t' b ⊆ db.rowsOf t' b :=
  rowsOf_delete

theorem rowsOf_eraseRows_self {t : Target} {a : AddressRow} : (eraseRows t a db).rowsOf t a = [] := by
  rw [eraseRows, rowsOf_modify_self, List.filter_eq_nil_iff]
  intro row hrow hkey
  have hkept := (mem_deleteWhere.mp hrow).2
  simp_all

/-- What the statements on a list of tables leave. -/
theorem rowsOf_eraseAll (t : Target) (a b : AddressRow) : ∀ (us : List Target) (db : Database),
    (us.foldl (fun db t => eraseRows t a db) db).rowsOf t b ⊆ db.rowsOf t b
  | [], _ => List.Subset.refl _
  | _ :: us, _ => List.Subset.trans (rowsOf_eraseAll t a b us _) rowsOf_eraseRows

theorem rowsOf_eraseAll_self (t : Target) (a : AddressRow) : ∀ (us : List Target) (db : Database), t ∈ us →
    (us.foldl (fun db t => eraseRows t a db) db).rowsOf t a = []
  | u :: us, db, h => by
    rcases List.mem_cons.mp h with rfl | h
    · refine List.subset_nil.mp ?_
      have hgone := rowsOf_eraseAll t a a us (eraseRows t a db)
      rwa [rowsOf_eraseRows_self] at hgone
    · exact rowsOf_eraseAll_self t a us _ h

theorem rowsOf_eraseAddress {t : Target} {a b : AddressRow} : (eraseAddress a db).rowsOf t b ⊆ db.rowsOf t b :=
  rowsOf_eraseAll t a b sweepOrder db

theorem rowsOf_eraseAddress_self {t : Target} {a : AddressRow} : (eraseAddress a db).rowsOf t a = [] :=
  rowsOf_eraseAll_self t a sweepOrder db (by cases t <;> decide)

theorem eraseAll_stored (a : AddressRow) : ∀ (us : List Target) (db : Database),
    (us.foldl (fun db t => eraseRows t a db) db).stored = db.stored
  | [], _ => rfl
  | _ :: us, _ => eraseAll_stored a us _

theorem mem_insertRow {t : Target} {row row' : Row} {rows : List Row} (h : row' ∈ insertRow t row rows) :
    row' ∈ rows ∨ row' = row := by
  have happend {rows' : List Row} (hsub : rows' ⊆ rows) (h : row' ∈ rows' ++ [row]) : row' ∈ rows ∨ row' = row :=
    (List.mem_append.mp h).imp (fun h => hsub h) List.mem_singleton.mp
  unfold insertRow at h
  cases t with
  | autoReply => exact happend (fun _ h => (mem_deleteWhere.mp h).1) h
  | sender | bindings =>
    dsimp only at h
    split at h
    · exact .inl h
    · exact happend (List.Subset.refl _) h
  | _ => exact happend (List.Subset.refl _) h

/-- A stored row has the next place. -/
theorem rowsOf_store {t t' : Target} {key : Option Key} {a : AddressRow} {row : Row}
    (h : row ∈ (db.store t key).rowsOf t' a) : row ∈ db.rowsOf t' a ∨ row.stored = db.stored := by
  have h' : row ∈ (db.modify t (insertRow t ⟨key, db.stored⟩)).rowsOf t' a := h
  by_cases ht : t' = t
  · subst ht
    rw [rowsOf_modify_self] at h'
    obtain ⟨hrow, hkey⟩ := List.mem_filter.mp h'
    rcases mem_insertRow hrow with hold | rfl
    · exact .inl (List.mem_filter.mpr ⟨hold, hkey⟩)
    · exact .inr rfl
  · rw [rowsOf_modify_ne ht] at h'
    exact .inl h'

/-! ### Steps of the other requests -/

/-- The addresses keep their ids and names. -/
theorem step_address (h : OtherStep db c db' c' ev) {b' : AddressRow} (hb : b' ∈ db'.address) :
    ∃ b ∈ db.address, b.id = b'.id ∧ b.name = b'.name := by
  have hdelete {db : Database} {p : AddressRow → Bool} {b' : AddressRow} (hb : b' ∈ deleteWhere p db.address) :
      ∃ b ∈ db.address, b.id = b'.id ∧ b.name = b'.name := ⟨b', (mem_deleteWhere.mp hb).1, rfl, rfl⟩
  cases h with
  | touch =>
    obtain ⟨b, hold, rfl⟩ := mem_updateWhere.mp hb
    exact ⟨b, hold, by split <;> rfl, by split <;> rfl⟩
  | eraseAddress => exact hdelete hb
  | deleteAddress => exact hdelete hb
  | _ => exact ⟨b', hb, rfl, rfl⟩

theorem step_consistent (h : OtherStep db c db' c' ev) (hcon : Consistent db) : Consistent db' := by
  cases h with
  | touch name =>
    have hids : (updateAddressUpdatedAt name db).address.map (·.id) = db.address.map (·.id) :=
      map_updateWhere _ fun _ => rfl
    have hnames : (updateAddressUpdatedAt name db).address.map (·.name) = db.address.map (·.name) :=
      map_updateWhere _ fun _ => rfl
    exact ⟨hids ▸ hcon.ids, hnames ▸ hcon.names⟩
  | eraseAddress | deleteAddress =>
    exact ⟨hcon.ids.sublist (List.filter_sublist.map _), hcon.names.sublist (List.filter_sublist.map _)⟩
  | _ => exact ⟨hcon.ids, hcon.names⟩

theorem step_rowsOf (h : OtherStep db c db' c' ev) {t : Target} {a : AddressRow} {row : Row}
    (hrow : row ∈ db'.rowsOf t a) : row ∈ db.rowsOf t a ∨ row.stored = db.stored := by
  cases h with
  | store | bind => exact rowsOf_store hrow
  | eraseAddress => exact .inl (rowsOf_eraseAddress hrow)
  | eraseRows => exact .inl (rowsOf_eraseRows hrow)
  | _ => exact .inl hrow

theorem step_stored (h : OtherStep db c db' c' ev) : db.stored ≤ db'.stored := by
  cases h with
  | store | bind => exact Nat.le_succ _
  | eraseAddress a => exact (eraseAll_stored a sweepOrder db).ge
  | _ => exact Nat.le_refl _

theorem step_lost (h : OtherStep db c db' c' ev) (addressId : ℕ) : .lost addressId ∉ ev := by
  cases h with
  | deleteAddress => simp
  | _ => simp

/-- An address stays in the table, or is deleted with all its rows, if the last statement of
    `deleteAddressWithData` finds none. -/
theorem step_deleted (h : OtherStep db c db' c' ev) (hcon : Consistent db)
    (hempty : ∀ a, c = .deleting a [] → ∀ b ∈ db.address, b.name = a.name → ∀ t, db.rowsOf t b = [])
    {b : AddressRow} (hb : b ∈ db.address) :
    (∃ b' ∈ db'.address, b'.id = b.id ∧ b'.name = b.name) ∨
      (∀ b' ∈ db'.address, b'.id ≠ b.id) ∧ .deleted b.id db.stored ∈ ev ∧ ∀ t, db'.rowsOf t b = [] := by
  cases h with
  | touch =>
    exact .inl ⟨_, mem_updateWhere_of_mem hb, by split <;> rfl, by split <;> rfl⟩
  | eraseAddress a ha =>
    by_cases hid : b.id = a.id
    · obtain rfl := eq_of_key hcon.ids hb ha hid
      refine .inr ⟨fun b' hb' => ?_, List.mem_cons_self, fun _ => rowsOf_eraseAddress_self⟩
      simpa using (mem_deleteWhere.mp hb').2
    · exact .inl ⟨b, mem_deleteWhere.mpr ⟨hb, by simp [hid]⟩, rfl, rfl⟩
  | @deleteAddress a =>
    by_cases hname : b.name = a.name
    · refine .inr ⟨fun b' hb' heq => ?_, ?_, hempty a rfl b hb hname⟩
      · obtain ⟨hb', hother⟩ := mem_deleteWhere.mp hb'
        obtain rfl := eq_of_key hcon.ids hb' hb heq
        simp [hname] at hother
      · exact List.mem_map.mpr ⟨b, List.mem_filter.mpr ⟨hb, by simp [hname]⟩, rfl⟩
    · exact .inl ⟨b, mem_deleteWhere.mpr ⟨hb, by simp [hname]⟩, rfl, rfl⟩
  | _ => exact .inl ⟨b, hb, rfl, rfl⟩

/-! ### Statements of the cleanup -/

theorem mem_selected {a : AddressRow} : a ∈ job.selected db ↔ a ∈ db.address ∧ a.id ∈ job.window db := by
  simp [CleanupJob.selected]

/-- A selected address qualifies. -/
theorem qualifies_of_selected (hcon : Consistent db) {a : AddressRow} (ha : a ∈ job.selected db) :
    job.qualifies db a = true := by
  obtain ⟨ha, hid⟩ := mem_selected.mp ha
  obtain ⟨b, hb, heq⟩ := List.mem_map.mp hid
  obtain ⟨hb, hq⟩ := mem_of_mem_selectTop hb
  obtain rfl := eq_of_key hcon.ids hb ha heq
  exact hq

/-- A table that the subquery looks into has no row of a selected address. -/
theorem bare_of_selected (hcon : Consistent db) {a : AddressRow} (ha : a ∈ job.selected db) {t : Target}
    (h : t = .bindings ∧ job.cleanType = .unboundAddress ∨ t = .rawMails ∧ job.cleanType = .emptyAddress) :
    db.rowsOf t a = [] := by
  have hq := qualifies_of_selected hcon ha
  rw [CleanupJob.qualifies, Bool.and_eq_true] at hq
  rcases h with ⟨rfl, htype⟩ | ⟨rfl, htype⟩ <;> simpa [CleanType.bare, htype] using hq.1

theorem sweep_rows (hcon : Consistent db) {t : Target}
    (h : t = .bindings ∧ job.cleanType = .unboundAddress ∨ t = .rawMails ∧ job.cleanType = .emptyAddress) :
    job.sweep t db = db := by
  have hkept : deleteWhere (fun row : Row => row.key.any (· ∈ (job.selected db).map t.key)) (db.rows t) = db.rows t := by
    refine List.filter_eq_self.mpr fun row hrow => ?_
    cases hkey : row.key with
    | none => simp [hkey]
    | some key =>
      simp only [hkey, Option.any_some, Bool.not_eq_true', decide_eq_false_iff_not, List.mem_map, not_exists, not_and]
      rintro a ha rfl
      have hnone := bare_of_selected hcon ha h
      rw [Database.rowsOf, List.filter_eq_nil_iff] at hnone
      exact hnone row hrow (by simp [hkey])
  rw [CleanupJob.sweep, Database.modify, hkept, Function.update_eq_self]

/-- The deletion of rows does not change the selection. -/
theorem qualifies_sweep (hcon : Consistent db) (t : Target) : job.qualifies (job.sweep t db) = job.qualifies db := by
  by_cases h : t = .bindings ∧ job.cleanType = .unboundAddress ∨ t = .rawMails ∧ job.cleanType = .emptyAddress
  · rw [sweep_rows hcon h]
  · funext a
    have hbare : job.cleanType.bare (job.sweep t db) a = job.cleanType.bare db a := by
      cases htype : job.cleanType with
      | unboundAddress =>
        have ht : Target.bindings ≠ t := fun heq => h (.inl ⟨heq.symm, htype⟩)
        simp only [CleanType.bare, CleanupJob.sweep, rowsOf_modify_ne ht]
      | emptyAddress =>
        have ht : Target.rawMails ≠ t := fun heq => h (.inr ⟨heq.symm, htype⟩)
        simp only [CleanType.bare, CleanupJob.sweep, rowsOf_modify_ne ht]
      | _ => rfl
    rw [CleanupJob.qualifies, hbare]
    rfl

theorem selected_sweep (hcon : Consistent db) (t : Target) : job.selected (job.sweep t db) = job.selected db := by
  have hwindow : job.window (job.sweep t db) = job.window db := by
    rw [CleanupJob.window, qualifies_sweep hcon]
    rfl
  rw [CleanupJob.selected, hwindow]
  rfl

theorem rowsOf_sweep {t t' : Target} {a : AddressRow} : (job.sweep t db).rowsOf t' a ⊆ db.rowsOf t' a := rowsOf_delete

theorem rowsOf_sweep_self {t : Target} {a : AddressRow} (ha : a ∈ job.selected db) :
    (job.sweep t db).rowsOf t a = [] := by
  rw [CleanupJob.sweep, rowsOf_modify_self, List.filter_eq_nil_iff]
  intro row hrow hkey
  have hkept := (mem_deleteWhere.mp hrow).2
  rw [of_decide_eq_true hkey] at hkept
  simp only [Option.any_some, decide_eq_false_iff_not, List.mem_map, not_exists, not_and] at hkept
  exact hkept a ha rfl

/-! ### Runs of the cleanup -/

/-- The address was deleted, and no row stored for it before that is left. -/
def Gone (a : AddressRow) (w : World Database Call Event) : Prop :=
  (∀ b ∈ w.store.address, b.id ≠ a.id) ∧ ∃ stored, .deleted a.id stored ∈ w.trace ∧ stored ≤ w.store.stored ∧
    ∀ t, ∀ row ∈ w.store.rowsOf t a, stored ≤ row.stored

/-- Where a cleanup stands that has the statements on `ts` still to do. -/
structure Inv (job : CleanupJob) (w₀ : World Database Call Event) (ts : List Target)
    (w : World Database Call Event) : Prop where
  consistent : Consistent w.store
  short : ts.length ≤ sweepOrder.length
  swept : ∀ t ∉ ts, ∀ a ∈ job.selected w.store, w.store.rowsOf t a = []
  fresh : ts = sweepOrder → ∀ addressId, .lost addressId ∉ w.trace
  lost : ∀ b ∈ w.store.address, .lost b.id ∈ w.trace → b ∈ job.selected w.store
  fate : ∀ a ∈ w₀.store.address, (∃ b ∈ w.store.address, b.id = a.id ∧ b.name = a.name) ∨ Gone a w

theorem gone_other (hst : Step others i w w') {a : AddressRow} (h : Gone a w) : Gone a w' := by
  obtain ⟨s', l', ev, hst, rfl⟩ := hst
  obtain ⟨hnone, stored, hev, hle, hrows⟩ := h
  refine ⟨fun b hb heq => ?_, stored, List.mem_append_right _ hev, hle.trans (step_stored hst), fun t row hrow => ?_⟩
  · obtain ⟨b', hb', hid, -⟩ := step_address hst hb
    exact hnone b' hb' (hid.trans heq)
  · rcases step_rowsOf hst hrow with hold | hnew
    · exact hrows t row hold
    · exact hnew ▸ hle

/-- The step of another request between two statements. -/
theorem Inv.other (h : Inv job w₀ ts w) (hC : Steady job ts w i w') (hst : Step others i w w') :
    Inv job w₀ ts w' := by
  have hgone {a : AddressRow} := gone_other hst (a := a)
  obtain ⟨s', l', ev, hst, rfl⟩ := hst
  have hcon' := step_consistent hst h.consistent
  refine ⟨hcon', h.short, fun t ht a ha => ?_, fun hts addressId hlost => ?_, fun b hb hlost => ?_, fun a ha => ?_⟩
  · -- a selected address was selected before, and the cleanup's tables have got no row of it
    have hts : ts ≠ sweepOrder := fun heq => ht (heq ▸ by cases t <;> decide)
    obtain ⟨b, hb, hid⟩ := hC.enters hts a ha
    obtain ⟨b', hb', hid', hname'⟩ := step_address hst (mem_selected.mp ha).1
    obtain rfl := eq_of_key h.consistent.ids hb' (mem_selected.mp hb).1 (hid'.trans hid.symm)
    refine List.subset_nil.mp ?_
    rw [← h.swept t ht b' hb, rowsOf_congr hid'.symm hname'.symm]
    exact hC.stores hts t ht b' hb
  · rcases List.mem_append.mp hlost with hlost | hlost
    · exact step_lost hst addressId hlost
    · exact h.fresh hts addressId hlost
  · obtain ⟨b', hb', hid, -⟩ := step_address hst hb
    rcases List.mem_append.mp hlost with hlost | hlost
    · exact absurd hlost (step_lost hst b.id)
    · by_cases hts : ts = sweepOrder
      · exact absurd hlost (h.fresh hts b.id)
      · obtain ⟨b'', hb'', hid''⟩ := hC.leaves hts b' (h.lost b' hb' (hid ▸ hlost)) ⟨b, hb, hid.symm⟩
        obtain rfl := eq_of_key hcon'.ids (mem_selected.mp hb'').1 hb (hid''.trans hid)
        exact hb''
  · rcases h.fate a ha with ⟨b, hb, hid, hname⟩ | hgone'
    · rcases step_deleted hst h.consistent hC.emptied hb with ⟨b', hb', hid', hname'⟩ | ⟨hnone, hev, hrows⟩
      · exact .inl ⟨b', hb', hid'.trans hid, hname'.trans hname⟩
      · refine .inr ⟨fun b' hb' => hid ▸ hnone b' hb', w.store.stored, ?_, step_stored hst, fun t row hrow => ?_⟩
        · exact List.mem_append_left _ (hid ▸ hev)
        · rw [advance_store, rowsOf_congr hid.symm hname.symm, hrows t] at hrow
          cases hrow
    · exact .inr (hgone hgone')

/-- A statement of the cleanup. -/
theorem Inv.sweep {t : Target} (h : Inv job w₀ (t :: ts) w) :
    Inv job w₀ ts { w with store := job.sweep t w.store, trace := job.losses t w.store ++ w.trace } := by
  have hselected : job.selected (job.sweep t w.store) = job.selected w.store := selected_sweep h.consistent t
  have hshort := h.short
  rw [List.length_cons] at hshort
  refine ⟨⟨h.consistent.ids, h.consistent.names⟩, by omega, fun t' ht' a ha => ?_, fun hts => ?_,
    fun b hb hlost => ?_, fun a ha => (h.fate a ha).imp id ?_⟩
  · rw [hselected] at ha
    by_cases heq : t' = t
    · subst heq
      exact rowsOf_sweep_self ha
    · refine List.subset_nil.mp ?_
      rw [← h.swept t' (by simp [heq, ht']) a ha]
      exact rowsOf_sweep
  · subst hts
    omega
  · rw [hselected]
    rcases List.mem_append.mp hlost with hlost | hlost
    · obtain ⟨a, ha, heq⟩ := List.mem_map.mp hlost
      have ha := (List.mem_filter.mp ha).1
      obtain rfl := eq_of_key h.consistent.ids (mem_selected.mp ha).1 hb (Event.lost.inj heq)
      exact ha
    · exact h.lost b hb hlost
  · rintro ⟨hnone, stored, hev, hle, hrows⟩
    exact ⟨hnone, stored, List.mem_append_right _ hev, hle, fun t' row hrow => hrows t' row (rowsOf_sweep hrow)⟩

theorem inv_run (hcon : Consistent w₀.store) (htrace : w₀.trace = []) (h : Run job (Steady job) w₀ ts w) :
    Inv job w₀ ts w := by
  induction h with
  | start =>
    refine ⟨hcon, Nat.le_refl _, fun t ht => absurd (by cases t <;> decide) ht, fun _ addressId hlost => ?_,
      fun b _ hlost => ?_, fun a ha => .inl ⟨a, ha, rfl, rfl⟩⟩ <;> simp [htrace] at hlost
  | other i _ hC hst ih => exact ih.other hC hst
  | sweep _ ih => exact ih.sweep

/-- A cleanup among steady requests deletes every address with all its rows, or leaves it all its rows. -/
theorem cleanup_all_or_nothing {w₀ w : World Database Call Event} (hcon : Consistent w₀.store)
    (htrace : w₀.trace = []) (h : Finished job (Steady job) w₀ w) : ∀ a ∈ w₀.store.address, AllOrNothing a w := by
  obtain ⟨h⟩ := h
  rename_i w
  have hinv := inv_run hcon htrace h
  intro a ha
  rcases hinv.fate a ha with ⟨b, hb, hid, hname⟩ | ⟨hnone, stored, hev, -, hrows⟩
  · by_cases hwindow : b.id ∈ job.window w.store
    · have hb' : b ∈ job.selected w.store := mem_selected.mpr ⟨hb, hwindow⟩
      refine .inr ⟨fun c hc heq => ?_, w.store.stored, ?_, fun t row hrow => ?_⟩
      · obtain ⟨-, hkept⟩ := mem_deleteWhere.mp hc
        rw [hid, ← heq] at hwindow
        simp [hwindow] at hkept
      · exact List.mem_append_left _ (List.mem_map.mpr ⟨b, hb', by rw [hid]⟩)
      · have hrow' : row ∈ w.store.rowsOf t a := hrow
        rw [rowsOf_congr hid.symm hname.symm, hinv.swept t List.not_mem_nil b hb'] at hrow'
        cases hrow'
    · refine .inl ⟨⟨b, mem_deleteWhere.mpr ⟨hb, by simp [hwindow]⟩, hid, hname⟩, fun hlost => ?_⟩
      rcases List.mem_append.mp hlost with hlost | hlost
      · obtain ⟨c, -, heq⟩ := List.mem_map.mp hlost
        cases heq
      · exact hwindow (mem_selected.mp (hinv.lost b hb (hid ▸ hlost))).2
  · refine .inr ⟨fun b hb => hnone b (mem_deleteWhere.mp hb).1, stored, List.mem_append_right _ hev, hrows⟩

/-! ### Runs -/

def demoAddress : AddressRow := ⟨1, js "x@one.test", some 0, some 0⟩

/-- An address with one mail, not used for ten days. -/
def demoDatabase : Database where
  address := [demoAddress]
  rows
    | .rawMails => [⟨some (.name (js "x@one.test")), 0⟩]
    | _ => []
  now := 10 * day
  stored := 1

def demoJob : CleanupJob := ⟨.inactiveAddress, 7 * day, 3000⟩

def demoWorld : World Database Call Event := ⟨demoDatabase, fun _ => .idle, []⟩

theorem demoDatabase_consistent : Consistent demoDatabase := ⟨by decide, by decide⟩

/-- The cleanup runs alone. -/
theorem cleanup_all_or_nothing_demo : ∃ w, AllOrNothing demoAddress w := by
  have h : Run demoJob (Steady demoJob) demoWorld sweepOrder demoWorld := .start
  have h := h.sweep.sweep.sweep.sweep.sweep.sweep
  exact ⟨_, cleanup_all_or_nothing demoDatabase_consistent rfl (.finish h) demoAddress (by decide)⟩

/-- The address is used again after its mail was deleted: it stays without the mail. -/
theorem touched_address_loses_mail : ¬ ∀ (job : CleanupJob) (w₀ w : World Database Call Event),
    Consistent w₀.store → w₀.trace = [] → Finished job (fun _ _ _ _ => True) w₀ w →
      ∀ a ∈ w₀.store.address, AllOrNothing a w := by
  intro hall
  have h : Run demoJob (fun _ _ _ _ => True) demoWorld sweepOrder demoWorld := .start
  have h := h.sweep.other 0 trivial ⟨_, _, _, .touch (js "x@one.test"), rfl⟩
  have h := h.sweep.sweep.sweep.sweep.sweep
  rcases hall demoJob _ _ demoDatabase_consistent rfl (.finish h) demoAddress (by decide) with ⟨-, hlost⟩ | ⟨hnone, -⟩
  · exact hlost (by decide)
  · exact hnone { demoAddress with updatedAt := some (10 * day) } (by decide) rfl

end OneMail.Cleanup
