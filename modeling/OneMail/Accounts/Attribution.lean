import OneMail.Accounts.Removal

/-! When an external account stays attributable to its owner.

    The address row of a user name and its binding are shared by all accounts of that name. Creating an
    account makes them, a failed creation may delete the address again, and a removal deletes the binding.
    As long as no removal and no failed creation has a sibling account, and no user's account is inserted
    beside another's, every created account keeps both. -/

namespace OneMail.Accounts
open JsString Interleave Table

variable {s s' : Store} {c c' : Call} {ev : List Event} {w : World Store Call Event} {i : ℕ}

/-- The external address of the name is there and bound to the user. -/
def Bound (s : Store) (user : ℕ) (username : JsString) : Prop :=
  ∃ row ∈ s.address, row.name = username ∧ row.sourceMeta = external ∧ ⟨user, row.id⟩ ∈ s.bindings

/-- Accounts that were reported as created are bound to their user, and a name has one user. -/
structure Attributable (w : World Store Call Event) : Prop where
  bound : ∀ id, .created id ∈ w.trace → ∀ row ∈ w.store.accounts, row.id = id →
    Bound w.store row.userId row.username
  oneUser : ∀ row ∈ w.store.accounts, ∀ row' ∈ w.store.accounts,
    row.username = row'.username → row.userId = row'.userId

/-- The batch of a removal, and the compensation that deletes an address, meet no other account of the name;
    an INSERT that no enabled account of the name refuses meets only accounts of its user. -/
def Unshared (w : World Store Call Event) (i : ℕ) : Prop :=
  match w.pc i with
  | .purgedShard r => ∀ row ∈ w.store.accounts, row.username = r.username → row.id = r.id
  | .undoAddress r id _ => ∀ row ∈ w.store.accounts, row.username = r.username → row.id = id
  | .checked r => (∃ row ∈ w.store.accounts, row.username = r.username ∧ row.enabled = true) ∨
      ∀ row ∈ w.store.accounts, row.username = r.username → row.userId = r.user
  | _ => True

/-! ### The tables -/

theorem eraseAccount_accounts {user : ℕ} {id username : JsString} {row : MailAccountRow} :
    row ∈ (s.eraseAccount user id username).accounts ↔
      row ∈ s.accounts ∧ (decide (row.id = id) && decide (row.userId = user)) = false := mem_deleteWhere

/-- Where the account rows of a step come from: rows keep their id, user and name, and a new one is inserted by
    a creation under an id that was never drawn, where no enabled account has its name. -/
theorem step_accounts (h : AccountStep s c s' c' ev) {row' : MailAccountRow} (hrow : row' ∈ s'.accounts) :
    (∃ row ∈ s.accounts, row'.id = row.id ∧ row'.userId = row.userId ∧ row'.username = row.username) ∨
      ∃ r, c = .checked r ∧ row'.id ∉ s.drawn ∧ row'.id ∈ s'.drawn ∧ row'.userId = r.user ∧
        row'.username = r.username ∧ ∀ row ∈ s.accounts, row.username = r.username → row.enabled = false := by
  cases h with
  | @insert r id hid hname =>
    rcases List.mem_append.mp hrow with hold | hnew
    · exact .inl ⟨row', hold, rfl, rfl, rfl⟩
    · obtain rfl := List.mem_singleton.mp hnew
      exact .inr ⟨r, rfl, hid, List.mem_cons_self, rfl, rfl, hname⟩
  | retract => exact .inl ⟨row', (mem_deleteWhere.mp hrow).1, rfl, rfl, rfl⟩
  | undoAccount => exact .inl ⟨row', (mem_deleteWhere.mp hrow).1, rfl, rfl, rfl⟩
  | erase => exact .inl ⟨row', (eraseAccount_accounts.mp hrow).1, rfl, rfl, rfl⟩
  | toggle | disable =>
    obtain ⟨row, hold, rfl⟩ := mem_updateWhere.mp hrow
    exact .inl ⟨row, hold, by split <;> rfl, by split <;> rfl, by split <;> rfl⟩
  | _ => exact .inl ⟨row', hrow, rfl, rfl, rfl⟩

theorem step_drawn (h : AccountStep s c s' c' ev) : s.drawn ⊆ s'.drawn := by
  cases h with
  | insert => exact List.subset_cons_self _ _
  | _ => exact List.Subset.refl _

theorem step_accountIds (h : AccountStep s c s' c' ev) (hids : (s.accounts.map (·.id)).Nodup)
    (hdrawn : ∀ row ∈ s.accounts, row.id ∈ s.drawn) : (s'.accounts.map (·.id)).Nodup := by
  cases h with
  | @insert r id hid _ =>
    refine nodup_append_key hids fun row hrow heq => hid ?_
    have hold := hdrawn row hrow
    rw [heq] at hold
    exact hold
  | retract | undoAccount | erase => exact hids.sublist (List.filter_sublist.map _)
  | toggle | disable =>
    refine Eq.mpr (congrArg List.Nodup ?_) hids
    exact map_updateWhere _ fun _ => rfl
  | _ => exact hids

/-- An address is new under the next rowid, or was there before. -/
theorem step_address (h : AccountStep s c s' c' ev) (haddr : ∀ row ∈ s.address, row.id < s.nextAddress)
    (hids : (s.address.map (·.id)).Nodup) (hnames : (s.address.map (·.name)).Nodup) :
    (∀ row ∈ s'.address, row.id < s'.nextAddress) ∧ (s'.address.map (·.id)).Nodup ∧
      (s'.address.map (·.name)).Nodup := by
  cases h with
  | @ensureNew r id existed hnew =>
    refine ⟨fun row hrow => ?_, nodup_append_key hids fun row hrow => (haddr row hrow).ne,
      nodup_append_key hnames hnew⟩
    rcases List.mem_append.mp hrow with hold | hone
    · exact (haddr row hold).trans (Nat.lt_succ_self _)
    · obtain rfl := List.mem_singleton.mp hone
      exact Nat.lt_succ_self _
  | undoAddress =>
    exact ⟨fun row hrow => haddr row (mem_deleteWhere.mp hrow).1, hids.sublist (List.filter_sublist.map _),
      hnames.sublist (List.filter_sublist.map _)⟩
  | _ => exact ⟨haddr, hids, hnames⟩

theorem step_boundOnce (h : AccountStep s c s' c' ev) (hbound : (s.bindings.map (·.addressId)).Nodup) :
    (s'.bindings.map (·.addressId)).Nodup := by
  cases h with
  | bindNew hnew | bindLost hnew => exact nodup_append_key hbound hnew
  | erase => exact hbound.sublist (List.filter_sublist.map _)
  | _ => exact hbound

/-- An INSERT whose names are those of its user leaves every name with one user. -/
theorem step_oneUser (h : AccountStep w.store (w.pc i) s' c' ev) (hU : Unshared w i) (hcon : Consistent w.store) :
    ∀ row ∈ s'.accounts, ∀ row' ∈ s'.accounts, row.username = row'.username → row.userId = row'.userId := by
  -- a new row has the user of every old row of its name
  have hnew {r : CreateRequest} (hc : w.pc i = .checked r)
      (hname : ∀ row ∈ w.store.accounts, row.username = r.username → row.enabled = false) :
      ∀ row ∈ w.store.accounts, row.username = r.username → row.userId = r.user := by
    simp only [Unshared, hc] at hU
    rcases hU with ⟨row, hrow, heq, henabled⟩ | hU
    · rw [hname row hrow heq] at henabled
      cases henabled
    · exact hU
  intro row hrow row' hrow' heq
  rcases step_accounts h hrow with ⟨old, hold, -, hu, hn⟩ | ⟨r, hc, -, -, hu, hn, hname⟩ <;>
    rcases step_accounts h hrow' with ⟨old', hold', -, hu', hn'⟩ | ⟨r', hc', -, -, hu', hn', hname'⟩
  · rw [hu, hu']
    exact hcon.oneUser old hold old' hold' (by rw [← hn, ← hn', heq])
  · rw [hu, hu']
    exact hnew hc' hname' old hold (by rw [← hn, heq, hn'])
  · rw [hu, hu']
    exact (hnew hc hname old' hold' (by rw [← hn', ← heq, hn])).symm
  · rw [hc] at hc'
    obtain rfl : r = r' := by injection hc'
    rw [hu, hu']

theorem consistent (h : Reach accounts Unshared w) : Consistent w.store := by
  refine Reach.invariant (I := fun w => Consistent w.store) (fun _ hs => hs) ?_ h
  intro w i s' l' ev _ hcon hU hst
  obtain ⟨hnext, hids, hnames⟩ := step_address hst hcon.nextAddress hcon.addressIds hcon.addressNames
  refine ⟨step_accountIds hst hcon.accountIds hcon.drawn, fun row hrow => ?_, hids, hnames, hnext,
    step_boundOnce hst hcon.boundOnce, step_oneUser hst hU hcon⟩
  rcases step_accounts hst hrow with ⟨old, hold, hid, -⟩ | ⟨-, -, -, hid, -⟩
  · rw [hid]
    exact step_drawn hst (hcon.drawn old hold)
  · exact hid

/-! ### Whose account a request is about -/

/-- The account that a creation has in hand until it answers. -/
def Call.creation : Call → Option Removal
  | .inserted r id | .overfull r id | .binding r id | .looked r id _ | .ensured r id _ | .addressed r id _ _
  | .compared r id _ _ _ | .unconflicted r id _ _ _ | .bound r id | .undoAddress r id _ | .undoAccount r id =>
    some ⟨r.user, id, r.username⟩
  | _ => none

/-- The account that a removal is about. -/
def Call.removal : Call → Option Removal
  | .loaded r | .marked r | .disabled r | .purging r _ | .purgedShard r | .erased r => some r
  | _ => none

/-- A request knows the user and the name of its account. -/
def Knows (s : Store) (r : Removal) : Prop :=
  r.id ∈ s.drawn ∧ ∀ row ∈ s.accounts, row.id = r.id → row.userId = r.user ∧ row.username = r.username

theorem knows_step (h : AccountStep s c s' c' ev) {r : Removal} (hr : Knows s r) : Knows s' r := by
  refine ⟨step_drawn h hr.1, fun row hrow hid => ?_⟩
  rcases step_accounts h hrow with ⟨old, hold, hid', hu, hn⟩ | ⟨-, -, hnew, -⟩
  · rw [hu, hn]
    exact hr.2 old hold (hid' ▸ hid)
  · rw [hid] at hnew
    exact absurd hr.1 hnew

/-- A creation keeps its account from step to step, and takes it up when it inserts the row. -/
theorem step_creation (h : AccountStep s c s' c' ev) {r : Removal} (hr : c'.creation = some r) :
    c.creation = some r ∨ ∃ req, c = .checked req ∧ c' = .inserted req r.id ∧ r.user = req.user ∧
      r.username = req.username ∧ r.id ∉ s.drawn ∧
        s'.accounts = s.accounts ++ [⟨r.id, r.user, r.username, true⟩] ∧ s'.drawn = r.id :: s.drawn := by
  cases h with
  | insert id hid =>
    obtain rfl := Option.some.inj hr
    exact .inr ⟨_, rfl, rfl, rfl, rfl, hid, rfl, rfl⟩
  | fail =>
    cases c <;> simp only [afterFailure, rollback] at hr <;> (try split at hr) <;>
      first | exact .inl hr | cases hr
  | compare | bindOld | bindLost =>
    simp only [rollback] at hr
    (repeat' split at hr) <;> exact .inl hr
  | recount | look | readAddress | route =>
    (repeat' split at hr) <;> exact .inl hr
  | _ => first | exact .inl hr | cases hr

theorem step_removal (h : AccountStep s c s' c' ev) {r : Removal} (hr : c'.removal = some r) :
    c.removal = some r ∨ ∃ row ∈ s.accounts, r = ⟨row.userId, row.id, row.username⟩ ∧ s' = s := by
  cases h with
  | load row hrow =>
    obtain rfl := Option.some.inj hr
    exact .inr ⟨row, hrow, rfl, rfl⟩
  | fail =>
    cases c <;> simp only [afterFailure, rollback] at hr <;> (try split at hr) <;> cases hr
  | compare | bindOld | bindLost =>
    simp only [rollback] at hr
    (repeat' split at hr) <;> cases hr
  | recount | look | readAddress | route =>
    (repeat' split at hr) <;> exact .inl hr
  | _ => first | exact .inl hr | cases hr

theorem knows (h : Reach accounts Unshared w) (i : ℕ) {r : Removal}
    (hr : (w.pc i).creation = some r ∨ (w.pc i).removal = some r) : Knows w.store r := by
  suffices hinv : ∀ i r, (w.pc i).creation = some r ∨ (w.pc i).removal = some r → Knows w.store r from hinv i r hr
  refine Reach.invariant
    (I := fun w => ∀ i r, (w.pc i).creation = some r ∨ (w.pc i).removal = some r → Knows w.store r) ?_ ?_ h
  · rintro s - i r (hr | hr) <;> cases hr
  intro w i s' l' ev hw hknows _ hst j r hr
  by_cases hj : j = i
  · subst hj
    rw [advance_pc_self] at hr
    rcases hr with hr | hr
    · rcases step_creation hst hr with hold | ⟨req, -, -, -, -, hnew, hrows, hdrawn⟩
      · exact knows_step hst (hknows j r (.inl hold))
      · refine ⟨by rw [advance_store, hdrawn]; exact List.mem_cons_self, fun row hrow hid => ?_⟩
        rw [advance_store, hrows] at hrow
        rcases List.mem_append.mp hrow with hold | hone
        · exact absurd (hid ▸ (consistent hw).drawn row hold) hnew
        · obtain rfl := List.mem_singleton.mp hone
          exact ⟨rfl, rfl⟩
    · rcases step_removal hst hr with hold | ⟨row, hrow, rfl, rfl⟩
      · exact knows_step hst (hknows j r (.inr hold))
      · refine ⟨(consistent hw).drawn row hrow, fun row' hrow' hid => ?_⟩
        obtain rfl := eq_of_key (consistent hw).accountIds hrow' hrow hid
        exact ⟨rfl, rfl⟩
  · rw [advance_pc_ne _ _ _ _ hj] at hr
    exact knows_step hst (hknows j r hr)

/-- Two creations are never about one account. -/
theorem creations_distinct (h : Reach accounts Unshared w) {i j : ℕ} (hij : i ≠ j) {r r' : Removal}
    (hr : (w.pc i).creation = some r) (hr' : (w.pc j).creation = some r') : r.id ≠ r'.id := by
  refine Reach.pairwise (Q := fun l m => ∀ r r', l.creation = some r → m.creation = some r' → r.id ≠ r'.id)
    (fun l m hQ r r' hr hr' => (hQ r' r hr' hr).symm) (fun r r' hr => by cases hr) ?_ h i j hij r r' hr hr'
  intro w i j s' l' ev hw _ _ hQ hst r r' hr hr'
  rcases step_creation hst hr with hold | ⟨-, -, -, -, -, hnew, -⟩
  · exact hQ r r' hold hr'
  · exact fun heq => hnew (heq ▸ (knows hw j (.inl hr')).1)

/-! ### What a creation has established -/

/-- Where a creation stands on its way to the binding, as long as its account is there. -/
def Established (s : Store) : Call → Prop
  | .addressed r id addrId _ => (∃ row ∈ s.accounts, row.id = id) → ⟨addrId, r.username, external⟩ ∈ s.address
  | .compared r id addrId _ existing | .unconflicted r id addrId _ existing =>
    (∃ row ∈ s.accounts, row.id = id) →
      ⟨addrId, r.username, external⟩ ∈ s.address ∧ (existing = true → ⟨r.user, addrId⟩ ∈ s.bindings)
  | .bound r id => (∃ row ∈ s.accounts, row.id = id) → Bound s r.user r.username
  | _ => True

/-- An address is deleted only by the compensation of a creation of its name. -/
theorem address_kept (h : AccountStep s c s' c' ev) {a : AddressRow} (ha : a ∈ s.address)
    (hc : ∀ r id addrId, c = .undoAddress r id addrId → r.username ≠ a.name) : a ∈ s'.address := by
  cases h with
  | ensureNew => exact List.mem_append_left _ ha
  | @undoAddress r id addrId =>
    refine mem_deleteWhere.mpr ⟨ha, ?_⟩
    simp [(hc r id addrId rfl).symm]
  | _ => exact ha

/-- A binding is deleted only by the removal of an account of the address's name. -/
theorem binding_kept (h : AccountStep s c s' c' ev) (hids : (s.address.map (·.id)).Nodup) {a : AddressRow}
    (ha : a ∈ s.address) {user : ℕ} (hb : ⟨user, a.id⟩ ∈ s.bindings)
    (hc : ∀ r, c = .purgedShard r → c' = .erased r → r.username = a.name → r.user ≠ user) :
    ⟨user, a.id⟩ ∈ s'.bindings := by
  cases h with
  | bindNew | bindLost => exact List.mem_append_left _ hb
  | @erase r =>
    refine mem_deleteWhere.mpr ⟨hb, ?_⟩
    by_cases huser : r.user = user
    · have hother : a.id ∉ addressIds r.username s.address := fun hmem => by
        obtain ⟨a', ha', hid⟩ := List.mem_map.mp hmem
        obtain ⟨ha', hname⟩ := List.mem_filter.mp ha'
        obtain rfl := eq_of_key hids ha' ha hid
        exact hc r rfl rfl (of_decide_eq_true hname).symm huser
      simp [hother]
    · simp [Ne.symm huser]
  | _ => exact hb

/-- The step of another request leaves the address and the binding of an account alone, as long as it leaves its
    row. -/
theorem shared_kept (hw : Reach accounts Unshared w) (hU : Unshared w i)
    (hst : AccountStep w.store (w.pc i) s' c' ev) {row : MailAccountRow} (hrow : row ∈ w.store.accounts)
    (hstays : ∃ row' ∈ s'.accounts, row'.id = row.id)
    (hother : ∀ r, (w.pc i).creation = some r → r.id ≠ row.id) {a : AddressRow} (ha : a ∈ w.store.address)
    (hname : a.name = row.username) :
    a ∈ s'.address ∧ (⟨row.userId, a.id⟩ ∈ w.store.bindings → ⟨row.userId, a.id⟩ ∈ s'.bindings) := by
  constructor
  · refine address_kept hst ha fun r id addrId hc hr => ?_
    simp only [Unshared, hc] at hU
    refine hother ⟨r.user, id, r.username⟩ (by rw [hc]; rfl) (hU row hrow ?_).symm
    rw [hr, hname]
  · refine fun hb => binding_kept hst (consistent hw).addressIds ha hb fun r hc hc' hr _ => ?_
    have hknows := knows hw i (r := r) (.inr (by rw [hc]; rfl))
    simp only [Unshared, hc] at hU
    have hid := hU row hrow (by rw [hr, hname])
    -- the removal deletes the row as well
    obtain ⟨row', hrow', hid'⟩ := hstays
    rw [hc, hc'] at hst
    generalize hl : Call.purgedShard r = l at hst
    generalize hl' : Call.erased r = l' at hst
    cases hst with
    | @erase r' =>
      obtain rfl : r = r' := by injection hl
      obtain ⟨hrow', hkept⟩ := eraseAccount_accounts.mp hrow'
      have huser := (hknows.2 row' hrow' (hid'.trans hid)).1
      simp [hid'.trans hid, huser] at hkept
    | fail =>
      subst hl
      cases hl'
    | _ => cases hl

theorem bound_kept (hw : Reach accounts Unshared w) (hU : Unshared w i)
    (hst : AccountStep w.store (w.pc i) s' c' ev) {row : MailAccountRow} (hrow : row ∈ w.store.accounts)
    (hstays : ∃ row' ∈ s'.accounts, row'.id = row.id)
    (hother : ∀ r, (w.pc i).creation = some r → r.id ≠ row.id)
    (h : Bound w.store row.userId row.username) : Bound s' row.userId row.username := by
  obtain ⟨a, ha, hname, hexternal, hb⟩ := h
  obtain ⟨ha', hb'⟩ := shared_kept hw hU hst hrow hstays hother ha hname
  exact ⟨a, ha', hname, hexternal, hb' hb⟩

/-- The row of a known account that a step leaves was there, with the same user and name. -/
theorem known_row (hst : AccountStep s c s' c' ev) {r : Removal} (hr : Knows s r)
    (hstays : ∃ row' ∈ s'.accounts, row'.id = r.id) :
    ∃ row ∈ s.accounts, row.id = r.id ∧ row.userId = r.user ∧ row.username = r.username := by
  obtain ⟨row', hrow', hid⟩ := hstays
  rcases step_accounts hst hrow' with ⟨row, hrow, hid', -⟩ | ⟨-, -, hnew, -⟩
  · exact ⟨row, hrow, hid' ▸ hid, hr.2 row hrow (hid' ▸ hid)⟩
  · rw [hid] at hnew
    exact absurd hr.1 hnew

/-- What a creation has established outlives the steps of the others. -/
theorem established_stable (hw : Reach accounts Unshared w) (hU : Unshared w i)
    (hst : AccountStep w.store (w.pc i) s' c' ev) {j : ℕ} (hj : j ≠ i)
    (h : Established w.store (w.pc j)) : Established s' (w.pc j) := by
  have hkept {r : Removal} (hr : (w.pc j).creation = some r) (hstays : ∃ row' ∈ s'.accounts, row'.id = r.id) :
      ∃ row ∈ w.store.accounts, row.id = r.id ∧ row.userId = r.user ∧ row.username = r.username ∧
        ∀ r', (w.pc i).creation = some r' → r'.id ≠ row.id := by
    obtain ⟨row, hrow, hid, hu, hn⟩ := known_row hst (knows hw j (.inl hr)) hstays
    exact ⟨row, hrow, hid, hu, hn, fun r' hr' => hid ▸ creations_distinct hw (Ne.symm hj) hr' hr⟩
  cases hc : w.pc j with
  | addressed r id addrId created =>
    simp only [hc, Established, Call.creation] at h hkept ⊢
    intro hstays
    obtain ⟨row, hrow, hid, -, hn, hother⟩ := hkept rfl hstays
    exact (shared_kept hw hU hst hrow (hid ▸ hstays) hother (h ⟨row, hrow, hid⟩) hn.symm).1
  | compared r id addrId created existing | unconflicted r id addrId created existing =>
    simp only [hc, Established, Call.creation] at h hkept ⊢
    intro hstays
    obtain ⟨row, hrow, hid, hu, hn, hother⟩ := hkept rfl hstays
    obtain ⟨ha, hb⟩ := h ⟨row, hrow, hid⟩
    obtain ⟨ha', hb'⟩ := shared_kept hw hU hst hrow (hid ▸ hstays) hother ha hn.symm
    rw [hu] at hb'
    exact ⟨ha', fun hexisting => hb' (hb hexisting)⟩
  | bound r id =>
    simp only [hc, Established, Call.creation] at h hkept ⊢
    intro hstays
    obtain ⟨row, hrow, hid, hu, hn, hother⟩ := hkept rfl hstays
    have hbound := h ⟨row, hrow, hid⟩
    simp only at hu hn
    rw [← hu, ← hn] at hbound ⊢
    exact bound_kept hw hU hst hrow (hid ▸ hstays) hother hbound
  | _ => exact trivial

/-- What a creation establishes by its own steps. -/
theorem established_step (hst : AccountStep s c s' c' ev) (h : Established s c) : Established s' c' := by
  cases hst with
  | fail =>
    cases c <;> simp only [afterFailure, rollback] <;> (try split) <;> exact trivial
  | recount | look | route => (repeat' split) <;> exact trivial
  | @readAddress r =>
    split
    · rename_i a ha
      split
      · intro _
        have hname : a.name = r.username := by simpa using List.find?_some ha
        rw [← hname, ← ‹a.sourceMeta = external›]
        exact List.mem_of_find?_eq_some ha
      · exact trivial
    · exact trivial
  | readBinding => exact fun hrow => ⟨h hrow, of_decide_eq_true⟩
  | compare =>
    simp only [rollback]
    (repeat' split) <;> first | exact h | exact trivial
  | bindNew => exact fun hrow => ⟨_, (h hrow).1, rfl, rfl, List.mem_append_right _ List.mem_cons_self⟩
  | bindOld =>
    simp only [rollback]
    split
    · exact fun hrow => ⟨_, (h hrow).1, rfl, rfl, (h hrow).2 ‹_›⟩
    · split <;> exact trivial
  | bindLost =>
    simp only [rollback]
    split <;> exact trivial
  | _ => exact trivial

theorem step_created (hst : AccountStep s c s' c' ev) {id : JsString} (hev : .created id ∈ ev) :
    ∃ r, c = .bound r id ∧ c' = .idle ∧ s' = s := by
  cases hst with
  | @report r id' =>
    obtain rfl : id = id' := by simpa using hev
    exact ⟨r, rfl, rfl, rfl⟩
  | purge | latePurge | tombstone => simp at hev
  | _ => cases hev

/-- An account that was reported as created: no creation has it in hand, and it is bound as long as it exists. -/
def Settled (w : World Store Call Event) (id : JsString) : Prop :=
  id ∈ w.store.drawn ∧ (∀ i r, (w.pc i).creation = some r → r.id ≠ id) ∧
    ∀ row ∈ w.store.accounts, row.id = id → Bound w.store row.userId row.username

theorem settled_step (hw : Reach accounts Unshared w) (hU : Unshared w i)
    (hst : AccountStep w.store (w.pc i) s' c' ev) {id : JsString} (h : Settled w id) :
    Settled (w.advance i s' c' ev) id := by
  obtain ⟨hdrawn, hfree, hbound⟩ := h
  refine ⟨step_drawn hst hdrawn, fun j r hr => ?_, fun row hrow hid => ?_⟩
  · by_cases hj : j = i
    · subst hj
      rw [advance_pc_self] at hr
      rcases step_creation hst hr with hold | ⟨-, -, -, -, -, hnew, -⟩
      · exact hfree j r hold
      · exact fun heq => hnew (heq ▸ hdrawn)
    · rw [advance_pc_ne _ _ _ _ hj] at hr
      exact hfree j r hr
  · rcases step_accounts hst hrow with ⟨old, hold, hid', hu, hn⟩ | ⟨-, -, hnew, -⟩
    · rw [hu, hn]
      exact bound_kept hw hU hst hold ⟨row, hrow, hid'⟩ (fun r hr => (hid'.symm.trans hid) ▸ hfree i r hr)
        (hbound old hold (hid' ▸ hid))
    · rw [hid] at hnew
      exact absurd hdrawn hnew

/-- The step that reports an account as created. -/
theorem settled_report (hw : Reach accounts Unshared w) (hst : AccountStep w.store (w.pc i) s' c' ev)
    (hown : Established w.store (w.pc i)) {id : JsString} (hev : .created id ∈ ev) :
    Settled (w.advance i s' c' ev) id := by
  obtain ⟨r, hc, rfl, rfl⟩ := step_created hst hev
  have hcreation : (w.pc i).creation = some ⟨r.user, id, r.username⟩ := by rw [hc]; rfl
  have hknows := knows hw i (.inl hcreation)
  rw [hc] at hown
  refine ⟨hknows.1, fun j r' hr' => ?_, fun row hrow hid => ?_⟩
  · by_cases hj : j = i
    · subst hj
      rw [advance_pc_self] at hr'
      cases hr'
    · rw [advance_pc_ne _ _ _ _ hj] at hr'
      exact creations_distinct hw hj hr' hcreation
  · obtain ⟨hu, hn⟩ := hknows.2 row hrow hid
    rw [hu, hn]
    exact hown ⟨row, hrow, hid⟩

/-- Along a run that shares no name at a removal, at a compensation or between users, every created account stays
    attributable. -/
theorem accounts_attributable {w : World Store Call Event} (h : Reach accounts Unshared w) : Attributable w := by
  suffices hinv : (∀ i, Established w.store (w.pc i)) ∧ ∀ id, .created id ∈ w.trace → Settled w id from
    ⟨fun id hid => (hinv.2 id hid).2.2, (consistent h).oneUser⟩
  refine Reach.invariant
    (I := fun w => (∀ i, Established w.store (w.pc i)) ∧ ∀ id, .created id ∈ w.trace → Settled w id) ?_ ?_ h
  · exact fun s _ => ⟨fun i => trivial, fun id hid => absurd hid List.not_mem_nil⟩
  rintro w i s' l' ev hw ⟨hest, hsettled⟩ hU hst
  constructor
  · intro j
    by_cases hj : j = i
    · subst hj
      rw [advance_pc_self]
      exact established_step hst (hest j)
    · rw [advance_pc_ne _ _ _ _ hj]
      exact established_stable hw hU hst hj (hest j)
  · intro id hid
    rcases List.mem_append.mp hid with hnew | hold
    · exact settled_report hw hst (hest i) hnew
    · exact settled_step hw hU hst (hsettled id hold)

/-! ### Runs -/

def emptyStore : Store where
  databases _ := ⟨[], []⟩
  accounts := []
  address := []
  bindings := []
  owner _ := none
  nextAddress := 1
  drawn := []
  clock := 0

theorem emptyStore_consistent : Consistent emptyStore where
  accountIds := by decide
  drawn := by decide
  addressIds := by decide
  addressNames := by decide
  nextAddress := by decide
  boundOnce := by decide
  oneUser := by decide

def demoRequest : CreateRequest := ⟨1, js "me@example.org", 0⟩

/-- A user connects a mailbox. -/
theorem accounts_attributable_demo : ∃ w, .created (js "a1") ∈ w.trace ∧ Attributable w := by
  have h : Reach accounts Unshared ⟨emptyStore, fun _ => .idle, []⟩ := .start emptyStore_consistent
  have h := h.next 0 trivial (.count demoRequest (.inl rfl))
  have h := h.next 0 trivial (.check (by decide))
  have h := h.next 0 (.inr (by decide)) (.insert (js "a1") (by decide) (by decide))
  have h := h.next 0 trivial .recount
  have h := h.next 0 trivial .look
  have h := h.next 0 trivial (.ensureNew (by decide))
  have h := h.next 0 trivial .readAddress
  have h := h.next 0 trivial .readBinding
  have h := h.next 0 trivial .compare
  have h := h.next 0 trivial (.bindNew (by decide))
  have h := h.next 0 trivial .report
  exact ⟨_, by decide, accounts_attributable h⟩

/-- An account is disabled, a second one of the same name is created, and the first is removed: the second has lost
    its binding, and no request is under way. -/
theorem sibling_removal_unbinds :
    ¬ ∀ w : World Store Call Event, Reachable accounts w → (∀ i, w.pc i = .idle) → Attributable w := by
  intro hall
  have h : Reachable accounts ⟨demoStore, fun _ => .idle, []⟩ := .start demoStore_consistent
  have h := h.next 0 trivial (.readEnabled 1 demoAccount (by decide) rfl)
  have h := h.next 0 trivial (.toggle (by decide))
  have h := h.next 0 trivial (.count demoRequest (.inl rfl))
  have h := h.next 0 trivial (.check (by decide))
  have h := h.next 0 trivial (.insert (js "a2") (by decide) (by decide))
  have h := h.next 0 trivial .recount
  have h := h.next 0 trivial .look
  have h := h.next 0 trivial (.ensureOld (by decide))
  have h := h.next 0 trivial .readAddress
  have h := h.next 0 trivial .readBinding
  have h := h.next 0 trivial .compare
  have h := h.next 0 trivial (.bindOld (by decide))
  have h := h.next 0 trivial .report
  have h := h.next 0 trivial (.load { demoAccount with enabled := false } (by decide))
  have h := h.next 0 trivial .mark
  have h := h.next 0 trivial .disable
  have h := h.next 0 trivial .route
  have h := h.next 0 trivial .erase
  have h := h.next 0 trivial .tombstone
  have hattributable := hall _ h fun i => by
    by_cases hi : i = 0 <;> simp [World.advance, hi]
  obtain ⟨row, -, -, -, hb⟩ := hattributable.bound (js "a2") (by decide) ⟨js "a2", 1, js "me@example.org", true⟩
    (by decide) rfl
  exact List.not_mem_nil hb

end OneMail.Accounts
