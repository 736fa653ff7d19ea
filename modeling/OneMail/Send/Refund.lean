import OneMail.Send.Dispatch

/-! A balance is given back once.

    Two mechanisms give a balance back. A request that fails before its dispatch increments the balance
    itself and leaves its row as it is. An operator's rejection releases the row of an unknown delivery
    and then pays; when the row is released already it pays again, on the word of a column that neither
    mechanism ever sets. A rejection that finds its row unknown pays for a request that is past its
    dispatch, and releases a row only once. `RefundsOnce` asks that the other branch is taken only for a
    balance that nobody has given back or is about to. -/

namespace OneMail.Send
open JsString Table Interleave

variable {s s' : Store} {c c' : Call} {τ ev : List Event}

/-! ### What a step does to a row -/

/-- The delivery of the row is marked and not settled. -/
def Underway (r : Reservation) : Prop := r.status = .active ∧ r.dispatchState ≠ .pending

/-- What a step of a call from `c` to `c'` can make of a row. -/
structure RowMove (c c' : Call) (r r' : Reservation) : Prop where
  id : r'.id = r.id
  released : r.status = .released → r'.status = .released
  releasable : releasable r' = true → releasable r = true
  underway : Underway r' → Underway r ∨ ∃ m b, c = .ready m r.id b ∧ c' = .dispatching m r.id
  sender : r'.balanceReserved = true → (r.balanceReserved = true ∧ r'.senderAddress = r.senderAddress) ∨
    ∃ m, c = .debited m r.id ∧ r'.senderAddress = some m.address

theorem RowMove.refl (r : Reservation) : RowMove c c' r r :=
  ⟨rfl, fun h => h, fun h => h, .inl, fun h => .inl ⟨h, rfl⟩⟩

/-- A row that becomes terminal. -/
theorem RowMove.terminal {r r' : Reservation} (hid : r'.id = r.id)
    (hreleased : r.status = .released → r'.status = .released) (hterminal : r'.status ≠ .active)
    (hsender : r'.balanceReserved = r.balanceReserved ∧ r'.senderAddress = r.senderAddress) :
    RowMove c c' r r' where
  id := hid
  released := hreleased
  releasable h := by simp [Send.releasable, hterminal] at h
  underway h := absurd h.1 hterminal
  sender h := .inl ⟨by rw [← hsender.1, h], hsender.2⟩

theorem prev_updateWhere {t : List Reservation} {p : Reservation → Bool} {f : Reservation → Reservation}
    (hf : ∀ r, p r = true → RowMove c c' r (f r)) :
    ∀ r' ∈ updateWhere p f t, ∃ r ∈ t, RowMove c c' r r' := by
  intro r' hr'
  obtain ⟨r, hr, rfl⟩ := mem_updateWhere.mp hr'
  refine ⟨r, hr, ?_⟩
  split
  · exact hf r ‹_›
  · exact .refl r

/-- A row after a releasing statement: as it was, or released. -/
theorem prev_releaseRows {now : ℕ} {r' : Reservation} : ∀ {ids : List ℕ} {q : Quotas},
    r' ∈ (releaseRows now ids q).reservations → ∃ r ∈ q.reservations,
      (r' = r ∧ r.id ∉ ids) ∨ r' = { r with status := .released, updatedAt := now }
  | [], _, hr' => ⟨r', hr', .inl ⟨rfl, by simp⟩⟩
  | id :: ids, q, hr' => by
    obtain ⟨x, hx, hx'⟩ : ∃ x ∈ (releaseRow now id q).reservations,
        (r' = x ∧ x.id ∉ ids) ∨ r' = { x with status := .released, updatedAt := now } :=
      prev_releaseRows hr'
    obtain ⟨r, hr, rfl⟩ := mem_updateWhere.mp hx
    refine ⟨r, hr, ?_⟩
    by_cases hid : r.id = id
    · rcases hx' with ⟨rfl, -⟩ | rfl <;> simp [hid]
    · rcases hx' with ⟨rfl, hx'⟩ | rfl <;> simp_all

theorem move_released (now : ℕ) (r : Reservation) :
    RowMove c c' r { r with status := .released, updatedAt := now } :=
  .terminal rfl (fun _ => rfl) (by simp) ⟨rfl, rfl⟩

theorem move_releaseRows {now : ℕ} {r' : Reservation} {ids : List ℕ} {q : Quotas}
    (hr' : r' ∈ (releaseRows now ids q).reservations) : ∃ r ∈ q.reservations, RowMove c c' r r' := by
  obtain ⟨r, hr, ⟨rfl, -⟩ | rfl⟩ := prev_releaseRows hr'
  · exact ⟨r', hr, .refl r'⟩
  · exact ⟨r, hr, move_released now r⟩

/-- The operator's batch leaves no row pending that it made so. -/
theorem move_reject {id now : ℕ} {r' : Reservation} (hr' : r' ∈ (releaseRows now
    ((releasableById id (updateDispatchState id .pending .unknown now s.quotas.reservations)).map (·.id))
    ⟨updateDispatchState id .pending .unknown now s.quotas.reservations,
      s.quotas.counters⟩).reservations) : ∃ r ∈ s.quotas.reservations, RowMove c c' r r' := by
  obtain ⟨x, hx, hx'⟩ := prev_releaseRows hr'
  obtain ⟨r, hr, rfl⟩ := mem_updateWhere.mp hx
  refine ⟨r, hr, ?_⟩
  split at hx'
  · rename_i hp
    rw [if_pos hp] at hx
    simp only [Bool.and_eq_true, decide_eq_true_eq] at hp
    rcases hx' with ⟨-, hnot⟩ | rfl
    · refine absurd (List.mem_map.mpr ⟨_, mem_releasableById.mpr ⟨hx, hp.1.1, ?_⟩, rfl⟩) hnot
      simp [releasable, hp]
    · exact .terminal rfl (fun _ => rfl) (by simp) ⟨rfl, rfl⟩
  · rcases hx' with ⟨rfl, -⟩ | rfl
    · exact .refl r'
    · exact move_released now r

/-- Every row was a row before, moved by the call, or is inserted by it. -/
theorem row_step (h : MailStep s c s' c' ev) : ∀ r' ∈ s'.quotas.reservations,
    (∃ r ∈ s.quotas.reservations, RowMove c c' r r') ∨
      ∃ m quota id now, c = .inserting m quota id now ∧
        r' = newReservation id now quota m.idempotencyKey m.requestHash := by
  intro r' hr'
  cases h with
  | sweep | expire | rollBack => exact .inl (move_releaseRows hr')
  | reject now hnow rows hrows => subst hrows; exact .inl (move_reject hr')
  | clear | purge => exact .inl ⟨r', (mem_deleteWhere.mp hr').1, .refl r'⟩
  | insert =>
    rcases List.mem_append.mp hr' with hr | hr
    · exact .inl ⟨r', hr, .refl r'⟩
    · exact .inr ⟨_, _, _, _, rfl, List.mem_singleton.mp hr⟩
  | @charge m id now =>
    refine .inl (prev_updateWhere (fun r hp => ?_) r' hr')
    simp only [Bool.and_eq_true, decide_eq_true_eq] at hp
    exact ⟨rfl, fun h => h, fun h => h, .inl, fun _ => .inr ⟨m, by rw [hp.1.1], rfl⟩⟩
  | @mark m id b now =>
    refine .inl (prev_updateWhere (fun r hp => ?_) r' hr')
    simp only [Bool.and_eq_true, decide_eq_true_eq] at hp
    refine ⟨rfl, fun h => h, fun h => ?_, fun _ => .inr ⟨m, b, by rw [hp.1.1], by rw [hp.1.1]⟩,
      fun h => .inl ⟨h, rfl⟩⟩
    simp [releasable] at h
  | succeed now =>
    refine .inl (prev_updateWhere (fun r hp => ?_) r' hr')
    simp only [Bool.and_eq_true, decide_eq_true_eq] at hp
    refine ⟨rfl, fun h => h, fun h => ?_, fun _ => .inl ⟨hp.1.2, by simp [hp.2]⟩,
      fun h => .inl ⟨h, rfl⟩⟩
    simp [releasable] at h
  | commit now =>
    refine .inl (prev_updateWhere (fun r hp => ?_) r' hr')
    simp only [committable, Bool.and_eq_true, decide_eq_true_eq] at hp
    exact .terminal rfl (fun h => by rw [hp.1.2] at h; cases h) (by simp [commitRow]) ⟨rfl, rfl⟩
  | accept now =>
    refine .inl (prev_updateWhere (fun r hp => ?_) r' hr')
    simp only [unresolved, Bool.and_eq_true, decide_eq_true_eq] at hp
    exact .terminal rfl (fun h => by rw [hp.2.1] at h; cases h) (by simp [acceptRow]) ⟨rfl, rfl⟩
  | promote =>
    refine .inl (prev_updateWhere (fun r hp => ?_) r' hr')
    simp only [Bool.and_eq_true, decide_eq_true_eq] at hp
    exact .terminal rfl (fun h => by rw [hp.1] at h; cases h) (by simp [commitRow]) ⟨rfl, rfl⟩
  | repay now =>
    refine .inl (prev_updateWhere (fun r hp => ?_) r' hr')
    exact ⟨rfl, fun h => h, fun h => h, .inl, fun h => .inl ⟨h, rfl⟩⟩
  | _ => exact .inl ⟨r', hr', .refl r'⟩

/-! ### Who may still give a balance back -/

/-- An operator's call that has read the row. -/
def Call.resolved : Call → Option ℕ
  | .rejecting id _ | .repaying id _ _ => some id
  | _ => none

/-- The reservation an operator's call is about to repay. -/
def Call.toRepay : Call → Option ℕ
  | .repaying id _ _ => some id
  | _ => none

/-- The decrement a call is to give back. -/
def Call.charged : Call → Option (ℕ × JsString)
  | .debited m id | .ready m id true | .rollingBack m id true | .refunding m id => some (id, m.address)
  | .repaying id address _ | .rejecting id (some (address, _)) => some (id, address)
  | _ => none

theorem refundOf_some {r : Reservation} {address addressId : JsString}
    (h : refundOf r = some (address, addressId)) :
    r.balanceReserved = true ∧ r.senderAddress = some address := by
  unfold refundOf at h
  split at h
  · rename_i hreserved
    rw [Bool.and_eq_true] at hreserved
    split at h
    · rename_i ha _
      cases h
      exact ⟨hreserved.1, orElse_none ha⟩
    · cases h
  · cases h

theorem find?_id {t : List Reservation} {id : ℕ} {r : Reservation} (h : t.find? (·.id = id) = some r) :
    r ∈ t ∧ r.id = id := ⟨List.mem_of_find?_eq_some h, by simpa using List.find?_some h⟩

theorem toRepay_afterRefund {id n : ℕ} {refund : Option (JsString × JsString)}
    (h : (afterRefund id refund).toRepay = some n) :
    n = id ∧ ∃ address addressId, refund = some (address, addressId) := by
  rcases refund with _ | ⟨address, addressId⟩
  · cases h
  · exact ⟨(Option.some.inj h).symm, address, addressId, rfl⟩

/-- An operator's call comes to repay on the branch of a released row, or after its own batch. -/
theorem toRepay_step (h : MailStep s c s' c' ev) {n : ℕ} (hn : c'.toRepay = some n) :
    (c = .resolving n .rejected ∧ s' = s ∧ ev = [.rejectedReleased n] ∧
      ∃ r, s.quotas.reservations.find? (·.id = n) = some r ∧ refundPending r .rejected = true) ∨
    (.rejected n ∈ ev ∧ ∃ refund now rows, c = .rejecting n refund ∧ rows = releasableById n
      (updateDispatchState n .pending .unknown now s.quotas.reservations) ∧ rows ≠ [] ∧
      s' = (s.setReservations (updateDispatchState n .pending .unknown now
        s.quotas.reservations)).release now rows) := by
  cases h with
  | @refundAgain id outcome r hfind hr =>
    obtain ⟨rfl, -⟩ := toRepay_afterRefund hn
    cases outcome with
    | sent => simp [refundPending] at hr
    | rejected => exact .inl ⟨rfl, rfl, rfl, r, hfind, hr⟩
  | @reject id refund now hnow rows hrows =>
    split at hn
    · cases hn
    · rename_i hne
      obtain ⟨rfl, -⟩ := toRepay_afterRefund hn
      exact .inr ⟨by simp [hne], refund, now, rows, rfl, hrows, hne, rfl⟩
  | rollBack | rollBackFails => split at hn <;> cases hn
  | _ => cases hn

theorem resolved_step (h : MailStep s c s' c' ev) {n : ℕ} (hn : c'.resolved = some n) :
    c.resolved = some n ∨ ∃ r ∈ s.quotas.reservations, r.id = n := by
  cases h with
  | @refundAgain id outcome r hfind hr =>
    rcases hrefund : refundOf r with _ | ⟨address, addressId⟩ <;> rw [hrefund] at hn <;> cases hn
    exact .inr ⟨r, find?_id hfind⟩
  | rejectUnknown r hfind => cases hn; exact .inr ⟨r, find?_id hfind⟩
  | @reject id refund =>
    split at hn
    · cases hn
    · rcases refund with _ | ⟨address, addressId⟩
      · cases hn
      · exact .inl hn
  | rollBack | rollBackFails => split at hn <;> cases hn
  | _ => cases hn

theorem charged_step (h : MailStep s c s' c' ev) {n : ℕ} {address : JsString}
    (hn : c'.charged = some (n, address)) : c.charged = some (n, address) ∨ .debited n address ∈ ev ∨
      ∃ r ∈ s.quotas.reservations, r.id = n ∧ r.balanceReserved = true ∧
        r.senderAddress = some address := by
  cases h with
  | debit => cases hn; exact .inr (.inl List.mem_cons_self)
  | charge | chargeFails => exact .inl hn
  | @noProvider m id b | @markFails m id b => cases b <;> [cases hn; exact .inl hn]
  | @rollBack m id b | @rollBackFails m id b => cases b <;> [cases hn; exact .inl hn]
  | @refundAgain id outcome r hfind =>
    rcases hrefund : refundOf r with _ | ⟨a, addressId⟩ <;> rw [hrefund] at hn <;> cases hn
    obtain ⟨hr, hid⟩ := find?_id hfind
    exact .inr (.inr ⟨r, hr, hid, refundOf_some hrefund⟩)
  | @rejectUnknown id r hfind =>
    rcases hrefund : refundOf r with _ | ⟨a, addressId⟩ <;> rw [hrefund] at hn <;> cases hn
    obtain ⟨hr, hid⟩ := find?_id hfind
    exact .inr (.inr ⟨r, hr, hid, refundOf_some hrefund⟩)
  | @reject id refund =>
    split at hn
    · cases hn
    · rcases refund with _ | ⟨a, addressId⟩
      · cases hn
      · exact .inl hn
  | _ => cases hn

/-! ### Facts of every run -/

variable {w : World Store Call Event}

theorem row_inserted (h : Reachable mail w) {r : Reservation} (hr : r ∈ w.store.quotas.reservations) :
    r.id ∈ insertedOnce.ids w.trace := by
  obtain ⟨r₀, hr₀, hs⟩ := (ledger_reach h).rows r hr
  exact List.mem_filterMap.mpr ⟨_, hr₀, by rw [hs.id]; rfl⟩

theorem row_lt (h : Reachable mail w) {r : Reservation} (hr : r ∈ w.store.quotas.reservations) :
    r.id < w.store.uuids := (insertedOnce.intact h).1.2 _ (row_inserted h hr)

/-- A decrement that is to be given back was made, and so was that of a charged row. -/
theorem charged_reach (h : Reachable mail w) :
    (∀ r ∈ w.store.quotas.reservations, r.balanceReserved = true →
      ∃ address, r.senderAddress = some address ∧ .debited r.id address ∈ w.trace) ∧
    ∀ i n address, (w.pc i).charged = some (n, address) → .debited n address ∈ w.trace := by
  refine Reach.shared (I := fun s τ => ∀ r ∈ s.quotas.reservations, r.balanceReserved = true →
    ∃ address, r.senderAddress = some address ∧ .debited r.id address ∈ τ)
    (L := fun _ τ c => ∀ n address, c.charged = some (n, address) → .debited n address ∈ τ) ?_ ?_ ?_ h
  · rintro s ⟨hq, -⟩
    refine ⟨fun r hr => ?_, fun _ _ hn => by cases hn⟩
    rw [hq] at hr
    cases hr
  · intro w i s' l' ev _ _ hI hL hst
    refine ⟨fun r' hr' hres => ?_, fun n address hn => ?_⟩
    · rcases row_step hst r' hr' with ⟨r, hr, hmove⟩ | ⟨m, quota, id, now, -, rfl⟩
      · rcases hmove.sender hres with ⟨hold, hsame⟩ | ⟨m, hpc, hsender⟩
        · obtain ⟨address, ha, hd⟩ := hI r hr hold
          exact ⟨address, hsame.trans ha, List.mem_append_right _ (by rwa [hmove.id])⟩
        · refine ⟨m.address, hsender, List.mem_append_right _ ?_⟩
          rw [hmove.id]
          exact hL _ _ (by rw [hpc]; rfl)
      · cases hres
    · rcases charged_step hst hn with hn | hd | ⟨r, hr, rfl, hres, hsender⟩
      · exact List.mem_append_right _ (hL n address hn)
      · exact List.mem_append_left _ hd
      · obtain ⟨a, ha, hd⟩ := hI r hr hres
        rw [hsender] at ha
        cases ha
        exact List.mem_append_right _ hd
  · exact fun _ _ _ _ _ _ _ _ _ _ _ hL _ n address hn => List.mem_append_right _ (hL n address hn)

/-- An operator's call is about an inserted reservation. -/
theorem resolved_inserted (h : Reachable mail w) :
    ∀ i n, (w.pc i).resolved = some n → n ∈ insertedOnce.ids w.trace := by
  refine (Reach.shared (I := fun _ _ => True)
    (L := fun _ τ c => ∀ n, c.resolved = some n → n ∈ insertedOnce.ids τ)
    (fun _ _ => ⟨trivial, fun _ hn => by cases hn⟩) ?_ ?_ h).2
  · intro w i s' l' ev hw _ _ hL hst
    refine ⟨trivial, fun n hn => ?_⟩
    rw [insertedOnce.ids_append]
    rcases resolved_step hst hn with hn | ⟨r, hr, rfl⟩
    · exact List.mem_append_right _ (hL n hn)
    · exact List.mem_append_right _ (row_inserted hw hr)
  · intro w i j s' l' ev _ _ _ _ _ hL _ n hn
    rw [insertedOnce.ids_append]
    exact List.mem_append_right _ (hL n hn)

/-- A call that may still roll back has not marked its row. -/
theorem toRefund_unmarked (h : Reachable mail w) : ∀ i n, (w.pc i).toRefund = some n →
    ∀ r ∈ w.store.quotas.reservations, r.id = n → ¬ Underway r := by
  refine (Reach.shared (I := fun _ _ => True) (L := fun s _ c => ∀ n, c.toRefund = some n →
    ∀ r ∈ s.quotas.reservations, r.id = n → ¬ Underway r) ?_ ?_ ?_ h).2
  · exact fun _ _ => ⟨trivial, fun _ hn => by cases hn⟩
  · intro w i s' l' ev hw _ _ hL hst
    refine ⟨trivial, fun n hn r' hr' hid hunder => ?_⟩
    rcases row_step hst r' hr' with ⟨r, hr, hmove⟩ | ⟨m, quota, id, now, -, rfl⟩
    · have hrid := hmove.id.symm.trans hid
      rcases hmove.underway hunder with hunder | ⟨m, b, -, hl'⟩
      · rcases toRefund_step hst hn with hn | rfl
        · exact hL n hn r hr hrid hunder
        · exact absurd (row_lt hw hr) (by omega)
      · rw [hl'] at hn
        cases hn
    · exact hunder.2 rfl
  · intro w i j s' l' ev hw _ hji _ _ hL hst n hn r' hr' hid hunder
    rcases row_step hst r' hr' with ⟨r, hr, hmove⟩ | ⟨m, quota, id, now, -, rfl⟩
    · have hrid := hmove.id.symm.trans hid
      rcases hmove.underway hunder with hunder | ⟨m, b, hpc, -⟩
      · exact hL n hn r hr hrid hunder
      · exact uuids.own_apart hw i j hji.symm n (by rw [hpc, hrid]; rfl) (toRefund_own hn)
    · exact hunder.2 rfl

/-- The row an inserting call is about to insert is not one an operator's call has read. -/
theorem resolved_ne_inserting (h : Reachable mail w) {i j n : ℕ} {m : Mail} {quota : Quota} {id now : ℕ}
    (hn : (w.pc j).resolved = some n) (hpc : w.pc i = .inserting m quota id now) : id ≠ n := by
  rintro rfl
  exact insertedOnce.fresh h i id (by rw [hpc]; rfl) (resolved_inserted h j id hn)

/-- What an operator's call relies on: its row is not pending, and the one it is about to repay is
    released. -/
def Call.Settles (s : Store) (c : Call) : Prop :=
  ∀ n, c.resolved = some n → ∀ r ∈ s.quotas.reservations, r.id = n →
    releasable r = false ∧ (c.toRepay = some n → r.status = .released)

theorem released_settles {r : Reservation} (h : r.status = .released) : releasable r = false := by
  simp [releasable, h]

theorem settles_own (h : MailStep s c s' c' ev) (hids : (s.quotas.reservations.map (·.id)).Nodup)
    (hc : c.Settles s) : c'.Settles s' := by
  intro n hn r' hr' hid
  cases h with
  | @refundAgain id outcome r hfind hr =>
    obtain ⟨hmem, hrid⟩ := find?_id hfind
    have hreleased : r.status = .released := by
      simp only [refundPending, Bool.and_eq_true, decide_eq_true_eq] at hr
      exact hr.1.1.1
    rcases hrefund : refundOf r with _ | ⟨a, addressId⟩ <;> rw [hrefund] at hn <;> cases hn
    obtain rfl := eq_of_key hids hr' hmem (hid.trans hrid.symm)
    exact ⟨released_settles hreleased, fun _ => hreleased⟩
  | @rejectUnknown id r hfind hr =>
    cases hn
    obtain ⟨hmem, hrid⟩ := find?_id hfind
    obtain rfl := eq_of_key hids hr' hmem (hid.trans hrid.symm)
    simp only [unresolved, Bool.and_eq_true, decide_eq_true_eq] at hr
    exact ⟨by simp [releasable, hr.2], fun hn => by cases hn⟩
  | @reject id refund now hnow rows hrows =>
    split at hn
    · cases hn
    · rename_i hne
      rcases refund with _ | ⟨a, addressId⟩
      · cases hn
      · cases hn
        -- the batch found the row of this id, and a row it found is released
        obtain ⟨x, hx⟩ := List.exists_mem_of_ne_nil rows hne
        have hxid : x.id = n := (mem_releasableById.mp (hrows ▸ hx)).2.1
        obtain ⟨y, hy, ⟨rfl, hnot⟩ | rfl⟩ := prev_releaseRows hr'
        · exact absurd (List.mem_map.mpr ⟨x, hx, hxid.trans hid.symm⟩) hnot
        · exact ⟨released_settles rfl, fun _ => rfl⟩
  | rollBack | rollBackFails => split at hn <;> cases hn
  | _ => cases hn

theorem settles_reach (h : Reachable mail w) :
    ∀ i, (w.pc i).Settles w.store := by
  refine (Reach.shared (I := fun _ _ => True) (L := fun s _ c => c.Settles s) ?_ ?_ ?_ h).2
  · exact fun _ _ => ⟨trivial, fun _ hn => by cases hn⟩
  · exact fun w i s' l' ev hw _ _ hL hst => ⟨trivial, settles_own hst (ledger_reach hw).ids hL⟩
  · intro w i j s' l' ev hw _ _ _ _ hL hst n hn r' hr' hid
    rcases row_step hst r' hr' with ⟨r, hr, hmove⟩ | ⟨m, quota, id, now, hpc, rfl⟩
    · obtain ⟨hpending, hreleased⟩ := hL n hn r hr (hmove.id.symm.trans hid)
      refine ⟨Bool.eq_false_iff.mpr fun hrel => ?_, fun hn => hmove.released (hreleased hn)⟩
      rw [hmove.releasable hrel] at hpending
      cases hpending
    · exact absurd hid (resolved_ne_inserting hw hn hpc)

theorem toRepay_resolved {c : Call} {n : ℕ} (hn : c.toRepay = some n) : c.resolved = some n := by
  cases c <;> first | exact hn | cases hn

theorem toRepay_released (h : Reachable mail w) {i n : ℕ}
    (hn : (w.pc i).toRepay = some n) {r : Reservation} (hr : r ∈ w.store.quotas.reservations)
    (hid : r.id = n) : r.status = .released :=
  (settles_reach h i n (toRepay_resolved hn) r hr hid).2 hn

/-- The batch of a rejection releases a row that was marked. -/
theorem reject_underway (h : Reachable mail w) {i n now : ℕ}
    {refund : Option (JsString × JsString)} (hpc : w.pc i = .rejecting n refund)
    (hrows : releasableById n (updateDispatchState n .pending .unknown now
      w.store.quotas.reservations) ≠ []) :
    ∃ r ∈ w.store.quotas.reservations, r.id = n ∧ Underway r := by
  obtain ⟨x, hx⟩ := List.exists_mem_of_ne_nil _ hrows
  obtain ⟨hx, hp⟩ := mem_releasableById.mp hx
  obtain ⟨r, hr, rfl⟩ := mem_updateWhere.mp hx
  by_cases hmark : (r.id = n && r.status = .active && r.dispatchState = .unknown) = true
  · simp only [Bool.and_eq_true, decide_eq_true_eq] at hmark
    exact ⟨r, hr, hmark.1.1, hmark.1.2, by simp [hmark.2]⟩
  · rw [if_neg hmark] at hp
    have hpending := (settles_reach h i n (by rw [hpc]; rfl) r hr hp.1).1
    rw [hp.2] at hpending
    cases hpending

/-! ### Refunds -/

def Event.repayment : Event → Option ℕ
  | .refunded id _ | .repaid id _ => some id
  | _ => none

/-- The reservations whose balance was given back, by the request or by an operator. -/
def repayments (τ : List Event) : List ℕ := τ.filterMap Event.repayment

theorem repayments_append (ev τ : List Event) : repayments (ev ++ τ) = repayments ev ++ repayments τ :=
  List.filterMap_append

/-- The steps that give a balance back; every other step does not. -/
theorem repayment_step (h : MailStep s c s' c' ev) : repayments ev = [] ∨
    (∃ m id, c = .refunding m id ∧ c' = .idle ∧ ev = [.refunded id m.address]) ∨
    ∃ id address addressId, c = .repaying id address addressId ∧ c' = .idle ∧
      ev = [.repaid id address] := by
  have hmap : ∀ {g : Reservation → Event}, (∀ r, (g r).repayment = none) → ∀ l : List Reservation,
      repayments (l.map g) = [] := fun hg l => filterMap_map_none hg l
  have hrel : ∀ rows, repayments (releasedEvents rows) = [] := fun rows => by
    rw [releasedEvents, ← List.map_reverse]
    exact hmap (fun _ => rfl) _
  cases h with
  | sweep | rollBack | expire => exact .inl (hrel _)
  | commit | accept | promote | purge => exact .inl (hmap (fun _ => rfl) _)
  | reject =>
    refine .inl ?_
    rw [repayments_append, hrel]
    split <;> rfl
  | @refund m id =>
    rcases senderEvents_cases (.refunded id m.address) m.address s.senders with hev | hev
    · exact .inl (by rw [hev]; rfl)
    · exact .inr (.inl ⟨m, id, rfl, rfl, hev⟩)
  | @repay id address addressId =>
    split
    · rcases senderEvents_cases (.repaid id address) address s.senders with hev | hev
      · exact .inl (by rw [hev]; rfl)
      · exact .inr (.inr ⟨id, address, addressId, rfl, rfl, hev⟩)
    · exact .inl rfl
  | _ => exact .inl rfl

/-- An operator resolves as rejected a row that is released, charged and not marked as refunded only
    when nobody has given its balance back or is about to. -/
def RefundsOnce (w : World Store Call Event) (i : ℕ) : Prop :=
  ∀ id r, w.pc i = .resolving id .rejected → w.store.quotas.reservations.find? (·.id = id) = some r →
    refundPending r .rejected = true → id ∉ repayments w.trace ∧
      ∀ j, (w.pc j).toRefund ≠ some id ∧ (w.pc j).toRepay ≠ some id

/-- Two calls that may both give the balance of one reservation back. -/
def Rivals (c c' : Call) : Prop :=
  ∃ n, c.toRepay = some n ∧ (c'.toRefund = some n ∨ c'.toRepay = some n) ∨
    c.toRefund = some n ∧ c'.toRepay = some n

theorem rivals_symm {c c' : Call} (h : Rivals c c') : Rivals c' c := by
  obtain ⟨n, ⟨hc, hc' | hc'⟩ | ⟨hc, hc'⟩⟩ := h
  · exact ⟨n, .inr ⟨hc', hc⟩⟩
  · exact ⟨n, .inl ⟨hc', .inr hc⟩⟩
  · exact ⟨n, .inl ⟨hc', .inl hc⟩⟩

theorem not_rivals (h : Reach mail RefundsOnce w) :
    ∀ i j, i ≠ j → ¬ Rivals (w.pc i) (w.pc j) := by
  refine Reach.pairwise (Q := fun c c' => ¬ Rivals c c') (fun _ _ hq hr => hq (rivals_symm hr)) ?_ ?_ h
  · rintro ⟨n, ⟨hn, -⟩ | ⟨hn, -⟩⟩ <;> cases hn
  · rintro w i j s' l' ev hw honce hji hq hst ⟨n, ⟨hn, hj⟩ | ⟨hn, hj⟩⟩
    · rcases toRepay_step hst hn with ⟨hpc, -, -, r, hfind, hr⟩ | ⟨-, refund, now, rows, hpc, rfl, hne, -⟩
      · obtain ⟨-, hnone⟩ := honce n r hpc hfind hr
        exact hj.elim (hnone j).1 (hnone j).2
      · -- the row the batch released was marked: nobody was about to give its balance back
        obtain ⟨r, hr, hid, hunder⟩ := reject_underway hw.reachable hpc hne
        rcases hj with hj | hj
        · exact toRefund_unmarked hw.reachable j n hj r hr hid hunder
        · have hreleased := toRepay_released hw.reachable hj hr hid
          rw [hunder.1] at hreleased
          cases hreleased
    · rcases toRefund_step hst hn with hn | rfl
      · exact hq ⟨n, .inr ⟨hn, hj⟩⟩
      · have hmem := resolved_inserted hw.reachable j _ (toRepay_resolved hj)
        exact absurd ((insertedOnce.intact hw.reachable).1.2 _ hmem) (Nat.lt_irrefl _)

/-- What is given back is given back once: not yet for a row whose delivery is under way, nor for a
    call that is about to. -/
theorem repayments_reach (h : Reach mail RefundsOnce w) :
    ((repayments w.trace).Nodup ∧ (∀ n ∈ repayments w.trace, n < w.store.uuids) ∧
      ∀ r ∈ w.store.quotas.reservations, Underway r → r.id ∉ repayments w.trace) ∧
    ∀ i n, (w.pc i).toRefund = some n ∨ (w.pc i).toRepay = some n → n ∉ repayments w.trace := by
  refine Reach.shared
    (I := fun s τ => (repayments τ).Nodup ∧ (∀ n ∈ repayments τ, n < s.uuids) ∧
      ∀ r ∈ s.quotas.reservations, Underway r → r.id ∉ repayments τ)
    (L := fun _ τ c => ∀ n, c.toRefund = some n ∨ c.toRepay = some n → n ∉ repayments τ) ?_ ?_ ?_ h
  · rintro s ⟨hq, -⟩
    refine ⟨⟨.nil, fun n hn => (by cases hn), fun r hr => ?_⟩, fun n _ hn => by cases hn⟩
    rw [hq] at hr
    cases hr
  · intro w i s' l' ev hw honce ⟨hnd, hlt, hrows⟩ hL hst
    have hr := hw.reachable
    have hmono : ∀ n ∈ repayments w.trace, n < s'.uuids := fun n hn =>
      (hlt n hn).trans_le (uuids.mono hst)
    -- a marked row was marked before, or is marked by a call that has given nothing back
    have hold : ∀ r' ∈ s'.quotas.reservations, Underway r' → r'.id ∉ repayments w.trace ∧
        ∀ n, (w.pc i).toRefund = some n ∨ (w.pc i).toRepay = some n → l' = .idle → r'.id ≠ n := by
      intro r' hr' hunder
      rcases row_step hst r' hr' with ⟨r, hmem, hmove⟩ | ⟨m, quota, id, now, -, rfl⟩
      · rw [hmove.id]
        rcases hmove.underway hunder with hunder | ⟨m, b, hpc, hl'⟩
        · refine ⟨hrows r hmem hunder, ?_⟩
          rintro n (hn | hn) - hid
          · exact toRefund_unmarked hr i n hn r hmem hid hunder
          · have hreleased := toRepay_released hr hn hmem hid
            rw [hunder.1] at hreleased
            cases hreleased
        · exact ⟨hL _ (.inl (by rw [hpc]; rfl)), fun n _ hidle => by rw [hl'] at hidle; cases hidle⟩
      · exact absurd rfl hunder.2
    have hnext : ∀ n, l'.toRefund = some n ∨ l'.toRepay = some n → n ∉ repayments w.trace := by
      rintro n (hn | hn) hmem
      · rcases toRefund_step hst hn with hn | rfl
        · exact hL n (.inl hn) hmem
        · exact absurd (hlt _ hmem) (lt_irrefl _)
      · rcases toRepay_step hst hn with ⟨hpc, -, -, r, hfind, hrp⟩ | ⟨-, refund, now, rows, hpc, rfl, hne, -⟩
        · exact (honce n r hpc hfind hrp).1 hmem
        · obtain ⟨r, hrmem, rfl, hunder⟩ := reject_underway hr hpc hne
          exact hrows r hrmem hunder hmem
    rw [repayments_append]
    have hgive : ∀ n, (w.pc i).toRefund = some n ∨ (w.pc i).toRepay = some n → n < w.store.uuids →
        l' = .idle → repayments ev = [n] →
        ((repayments ev ++ repayments w.trace).Nodup ∧
          (∀ n ∈ repayments ev ++ repayments w.trace, n < s'.uuids) ∧
          ∀ r ∈ s'.quotas.reservations, Underway r → r.id ∉ repayments ev ++ repayments w.trace) ∧
        ∀ n, l'.toRefund = some n ∨ l'.toRepay = some n → n ∉ repayments ev ++ repayments w.trace := by
      intro n hn hnlt hidle hev
      rw [hev, List.singleton_append]
      refine ⟨⟨List.nodup_cons.mpr ⟨hL n hn, hnd⟩, ?_, fun r' hr' hunder => ?_⟩, ?_⟩
      · rintro k (_ | ⟨_, hk⟩)
        · exact hnlt.trans_le (uuids.mono hst)
        · exact hmono k hk
      · obtain ⟨hnot, hne⟩ := hold r' hr' hunder
        rw [List.mem_cons, not_or]
        exact ⟨hne n hn hidle, hnot⟩
      · rw [hidle]
        rintro k (hk | hk) <;> cases hk
    rcases repayment_step hst with hnone | ⟨m, id, hpc, hidle, rfl⟩ | ⟨id, a, aid, hpc, hidle, rfl⟩
    · rw [hnone, List.nil_append]
      exact ⟨⟨hnd, hmono, fun r' hr' hunder => (hold r' hr' hunder).1⟩, hnext⟩
    · refine hgive id (.inl (by rw [hpc]; rfl)) ?_ hidle rfl
      exact uuids.own_lt hr i id (by rw [hpc]; rfl)
    · refine hgive id (.inr (by rw [hpc]; rfl)) ?_ hidle rfl
      exact (insertedOnce.intact hr).1.2 _ (resolved_inserted hr i id (by rw [hpc]; rfl))
  · intro w i j s' l' ev hw _ hji _ _ hL hst n hn hmem
    rw [repayments_append, List.mem_append] at hmem
    rcases hmem with hmem | hmem
    · have hrivals := not_rivals hw i j hji.symm
      rcases repayment_step hst with hnone | ⟨m, id, hpc, -, rfl⟩ | ⟨id, a, aid, hpc, -, rfl⟩
      · rw [hnone] at hmem
        cases hmem
      · obtain rfl : n = id := List.mem_singleton.mp hmem
        rcases hn with hn | hn
        · exact uuids.own_apart hw.reachable i j hji.symm n (by rw [hpc]; rfl) (toRefund_own hn)
        · exact hrivals ⟨n, .inr ⟨by rw [hpc]; rfl, hn⟩⟩
      · obtain rfl : n = id := List.mem_singleton.mp hmem
        exact hrivals ⟨n, .inl ⟨by rw [hpc]; rfl, hn⟩⟩
    · exact hL n hn hmem

end OneMail.Send
