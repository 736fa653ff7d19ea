import OneMail.Send.Quota

/-! A key is dispatched once.

    Marking the dispatch moves the row of the call from pending to unknown, where the sweepers and the
    rollback leave it alone; from then on only an operator's rejection or the purge takes it away, so
    no other call can take the key. The mark is a conditional UPDATE whose row count nobody looks at,
    and the provider is called with no look at the row: a call whose reservation was released in the
    meantime goes on. `Fenced` asks that the mark finds its row and that the call still owns its key
    when it calls the provider. -/

namespace OneMail.Send
open JsString Table Interleave

variable {s s' : Store} {c c' : Call} {τ ev : List Event}

/-! ### The row of a call -/

/-- A call whose reservation is inserted. -/
def Call.holding : Call → Option (Mail × ℕ)
  | .reserved m id | .debited m id | .ready m id _ | .dispatching m id | .accepted m id
  | .committing m id | .rollingBack m id _ | .refunding m id => some (m, id)
  | _ => none

theorem holding_step (h : MailStep s c s' c' ev) {m : Mail} {id : ℕ} (hc : c'.holding = some (m, id)) :
    c.holding = some (m, id) ∨
      ∃ now quota, .inserted (newReservation id now quota m.idempotencyKey m.requestHash) ∈ ev := by
  cases h with
  | insert => cases hc; exact .inr ⟨_, _, List.mem_cons_self⟩
  | rollBack | rollBackFails => split at hc <;> [exact .inl hc; cases hc]
  | @reject id refund =>
    split at hc
    · cases hc
    · rcases refund with _ | ⟨_, _⟩ <;> cases hc
  | @refundAgain id outcome r =>
    rcases hr : refundOf r with _ | ⟨_, _⟩ <;> rw [hr] at hc <;> cases hc
  | _ => first | exact .inl hc | cases hc

theorem holding_inserted {w : World Store Call Event} (h : Reachable mail w) :
    ∀ i m id, (w.pc i).holding = some (m, id) →
      ∃ now quota, .inserted (newReservation id now quota m.idempotencyKey m.requestHash) ∈ w.trace := by
  refine (Reach.shared (I := fun _ _ => True) (L := fun _ τ c => ∀ m id, c.holding = some (m, id) →
    ∃ now quota, .inserted (newReservation id now quota m.idempotencyKey m.requestHash) ∈ τ)
    (fun _ _ => ⟨trivial, fun _ _ hc => by cases hc⟩) ?_ ?_ h).2
  · intro w i s' l' ev _ _ _ hc hst
    refine ⟨trivial, fun m id hm => ?_⟩
    rcases holding_step hst hm with hm | ⟨now, quota, hmem⟩
    · obtain ⟨now, quota, hmem⟩ := hc m id hm
      exact ⟨now, quota, List.mem_append_right _ hmem⟩
    · exact ⟨now, quota, List.mem_append_left _ hmem⟩
  · intro w i j s' l' ev _ _ _ _ _ hc _ m id hm
    obtain ⟨now, quota, hmem⟩ := hc m id hm
    exact ⟨now, quota, List.mem_append_right _ hmem⟩

/-- The row of a call carries its key and its hash. -/
theorem row_of_call {w : World Store Call Event} (h : Reachable mail w) {i id : ℕ} {m : Mail}
    (hc : (w.pc i).holding = some (m, id)) {r : Reservation} (hr : r ∈ w.store.quotas.reservations)
    (hid : r.id = id) : r.idempotencyKey = m.idempotencyKey ∧ r.requestHash = m.requestHash := by
  obtain ⟨now, quota, hmem⟩ := holding_inserted h i m id hc
  obtain ⟨r₀, hr₀, hs⟩ := (ledger_reach h).rows r hr
  obtain rfl := eq_of_key (ledger_reach h).inserted (mem_insertions.mpr hr₀) (mem_insertions.mpr hmem)
    (hs.id.symm.trans hid)
  exact ⟨hs.idempotencyKey, hs.requestHash⟩

/-- The unique index. -/
def KeysUnique (reservations : List Reservation) : Prop :=
  ∀ r ∈ reservations, ∀ r' ∈ reservations, ∀ key, r.idempotencyKey = some key →
    r'.idempotencyKey = some key → r.id = r'.id

theorem findKey_none {key : JsString} (h : findKey key s = none) :
    ∀ r ∈ s.quotas.reservations, r.idempotencyKey ≠ some key := by
  simpa [findKey] using h

theorem inserted_step (h : MailStep s c s' c' ev) {r : Reservation} (hr : .inserted r ∈ ev) :
    ev = [.inserted r] ∧ ∀ key, r.idempotencyKey = some key → findKey key s = none := by
  refine (called_step h).elim (fun hquiet => by cases hquiet _ hr) ?_
  rintro (⟨m, quota, id, now, -, -, -, hunique, rfl⟩ | ⟨m, id, -, -, rfl⟩ | ⟨m, id, -, -, rfl⟩ |
    ⟨m, id, -, -, rfl⟩)
  · cases List.mem_singleton.mp hr
    exact ⟨rfl, hunique⟩
  all_goals cases List.mem_singleton.mp hr

theorem dispatched_step (h : MailStep s c s' c' ev) {id : ℕ} {m : Mail} (hd : .dispatched id m ∈ ev) :
    c = .dispatching m id ∧ ev = [.dispatched id m] := by
  refine (called_step h).elim (fun hquiet => by cases hquiet _ hd) ?_
  rintro (⟨m, quota, id, now, -, -, -, -, rfl⟩ | ⟨m, id, -, -, rfl⟩ | ⟨m, id, rfl, -, rfl⟩ |
    ⟨m, id, -, -, rfl⟩)
  case inr.inr.inl =>
    cases List.mem_singleton.mp hd
    exact ⟨rfl, rfl⟩
  all_goals cases List.mem_singleton.mp hd

theorem keysUnique_reach {w : World Store Call Event} (h : Reachable mail w) :
    KeysUnique w.store.quotas.reservations := by
  refine Reach.invariant (I := fun w => KeysUnique w.store.quotas.reservations) ?_ ?_ h
  · rintro s ⟨hq, -⟩ r hr
    rw [hq] at hr
    cases hr
  · intro w i s' l' ev hw hunique _ hst r hr r' hr' key hk hk'
    have hprev := (moves_reach hw hst).prev
    rcases hprev r hr with ⟨x, hx, hs⟩ | ⟨x, hx, hs⟩ <;> rcases hprev r' hr' with ⟨x', hx', hs'⟩ | ⟨x', hx', hs'⟩
    · rw [hs.id, hs'.id]
      exact hunique x hx x' hx' key (by rw [← hs.idempotencyKey, hk])
        (by rw [← hs'.idempotencyKey, hk'])
    · obtain ⟨-, hnone⟩ := inserted_step hst hx'
      exact absurd (by rw [← hs.idempotencyKey, hk])
        (findKey_none (hnone key (by rw [← hs'.idempotencyKey, hk'])) x hx)
    · obtain ⟨-, hnone⟩ := inserted_step hst hx
      exact absurd (by rw [← hs'.idempotencyKey, hk'])
        (findKey_none (hnone key (by rw [← hs.idempotencyKey, hk])) x' hx')
    · obtain ⟨hev, -⟩ := inserted_step hst hx
      rw [hev] at hx'
      cases List.mem_singleton.mp hx'
      rw [hs.id, hs'.id]

/-! ### A marked row stays -/

/-- The delivery has been marked, and the row is not given up. -/
def Marked (r : Reservation) : Prop := r.status ≠ .released ∧ r.dispatchState ≠ .pending

theorem not_releasable {r : Reservation} (h : Marked r) : releasable r = false := by
  simp only [releasable, Bool.and_eq_false_iff, decide_eq_false_iff_not]
  exact .inr h.2

theorem mem_releaseRows {now : ℕ} {r : Reservation} : ∀ {ids : List ℕ} {q : Quotas},
    r ∈ q.reservations → r.id ∉ ids → r ∈ (releaseRows now ids q).reservations
  | [], _, hr, _ => hr
  | id :: ids, q, hr, hid => by
    rw [List.mem_cons, not_or] at hid
    have hkept : r ∈ (releaseRow now id q).reservations := mem_updateWhere.mpr ⟨r, hr, by simp [hid.1]⟩
    exact (mem_releaseRows hkept hid.2 : r ∈ (releaseRows now ids _).reservations)

/-- A marked row is not among the rows of a releasing statement. -/
theorem not_mem_releasable {rows t : List Reservation} (hids : (t.map (·.id)).Nodup)
    (hrows : ∀ x ∈ rows, x ∈ t ∧ releasable x = true) {r : Reservation} (hr : r ∈ t) (hm : Marked r) :
    r.id ∉ rows.map (·.id) := by
  intro hmem
  obtain ⟨x, hx, hid⟩ := List.mem_map.mp hmem
  obtain ⟨hx, hrel⟩ := hrows x hx
  obtain rfl := eq_of_key hids hx hr hid
  rw [not_releasable hm] at hrel
  cases hrel

/-- An update of one row that keeps the mark. -/
theorem marked_updateWhere {t : List Reservation} {p : Reservation → Bool}
    {f : Reservation → Reservation} {r : Reservation} (hr : r ∈ t) (hm : Marked r)
    (hf : p r = true → SameSlot r (f r) ∧ Marked (f r)) :
    ∃ r' ∈ updateWhere p f t, SameSlot r r' ∧ Marked r' := by
  refine ⟨_, mem_updateWhere_of_mem hr, ?_⟩
  split
  · rename_i hp
    exact hf hp
  · exact ⟨.refl r, hm⟩

theorem marked_reject {id now : ℕ} {r : Reservation} (hids : (s.quotas.reservations.map (·.id)).Nodup)
    (hr : r ∈ s.quotas.reservations) (hm : Marked r) {rows : List Reservation}
    (hrows : rows = releasableById id
      (updateDispatchState id .pending .unknown now s.quotas.reservations)) :
    (∃ r' ∈ (releaseRows now (rows.map (·.id)) ⟨updateDispatchState id .pending .unknown now
      s.quotas.reservations, s.quotas.counters⟩).reservations, SameSlot r r' ∧ Marked r') ∨
      r.id = id ∧ rows ≠ [] := by
  by_cases hp : (r.id = id && r.status = .active && r.dispatchState = .unknown) = true
  · -- the operator's row: the batch finds it pending
    have hmem := mem_updateWhere_of_mem (p := fun r => r.id = id && r.status = .active &&
      r.dispatchState = .unknown) (f := fun r => { r with dispatchState := .pending, updatedAt := now }) hr
    rw [if_pos hp] at hmem
    simp only [Bool.and_eq_true, decide_eq_true_eq] at hp
    refine .inr ⟨hp.1.1, fun hnil => ?_⟩
    have hrow : _ ∈ releasableById id (updateDispatchState id .pending .unknown now
      s.quotas.reservations) := List.mem_filter.mpr ⟨hmem, by simp [releasable, hp]⟩
    rw [← hrows, hnil] at hrow
    cases hrow
  · left
    have hmem := mem_updateWhere_of_mem (p := fun r => r.id = id && r.status = .active &&
      r.dispatchState = .unknown) (f := fun r => { r with dispatchState := .pending, updatedAt := now }) hr
    rw [if_neg hp] at hmem
    have hids' : ((updateDispatchState id .pending .unknown now s.quotas.reservations).map
        (·.id)).Nodup := by
      rw [updateDispatchState, map_updateWhere Reservation.id (by exact fun _ => rfl)]
      exact hids
    refine ⟨r, mem_releaseRows hmem (not_mem_releasable hids' (fun x hx => ?_) hmem hm), .refl r, hm⟩
    exact releasable_rows (hrows ▸ hx)

/-- From its mark on a row leaves only by an operator's rejection or by the purge. -/
theorem marked_step (h : MailStep s c s' c' ev) (hids : (s.quotas.reservations.map (·.id)).Nodup)
    {r : Reservation} (hr : r ∈ s.quotas.reservations) (hm : Marked r) :
    (∃ r' ∈ s'.quotas.reservations, SameSlot r r' ∧ Marked r') ∨ .rejected r.id ∈ ev ∨ .purged r ∈ ev := by
  cases h with
  | sweep | expire =>
    exact .inl ⟨r, mem_releaseRows hr (not_mem_releasable hids (fun _ hx => expired_rows hx) hr hm),
      .refl r, hm⟩
  | rollBack =>
    exact .inl ⟨r, mem_releaseRows hr (not_mem_releasable hids (fun _ hx => releasable_rows hx) hr hm),
      .refl r, hm⟩
  | clear =>
    refine .inl ⟨r, mem_deleteWhere.mpr ⟨hr, ?_⟩, .refl r, hm⟩
    simp [hm.1]
  | insert => exact .inl ⟨r, List.mem_append_left _ hr, .refl r, hm⟩
  | charge => exact .inl (marked_updateWhere hr hm fun _ => ⟨⟨rfl, rfl, rfl, rfl, rfl⟩, hm⟩)
  | mark =>
    exact .inl (marked_updateWhere hr hm fun _ => ⟨⟨rfl, rfl, rfl, rfl, rfl⟩, hm.1, by simp⟩)
  | succeed =>
    exact .inl (marked_updateWhere hr hm fun _ => ⟨⟨rfl, rfl, rfl, rfl, rfl⟩, hm.1, by simp⟩)
  | commit | promote =>
    exact .inl (marked_updateWhere hr hm fun _ => ⟨⟨rfl, rfl, rfl, rfl, rfl⟩, by simp [commitRow], hm.2⟩)
  | accept =>
    exact .inl (marked_updateWhere hr hm fun _ => ⟨⟨rfl, rfl, rfl, rfl, rfl⟩, by simp [acceptRow],
      by simp [acceptRow]⟩)
  | reject now hnow rows hrows =>
    rcases marked_reject hids hr hm hrows with hkept | ⟨rfl, hne⟩
    · exact .inl hkept
    · exact .inr (.inl (by rw [if_neg hne]; exact List.mem_append_left _ List.mem_cons_self))
  | repay => exact .inl (marked_updateWhere hr hm fun _ => ⟨⟨rfl, rfl, rfl, rfl, rfl⟩, hm⟩)
  | @purge now batchLimit =>
    by_cases hp : r.id ∈ (purgeable now batchLimit s.quotas.reservations).map (·.id)
    · obtain ⟨x, hx, hid⟩ := List.mem_map.mp hp
      obtain rfl := eq_of_key hids (mem_of_mem_selectTop hx).1 hr hid
      exact .inr (.inr (List.mem_map.mpr ⟨x, hx, rfl⟩))
    · exact .inl ⟨r, mem_deleteWhere.mpr ⟨hr, by simpa using hp⟩, .refl r, hm⟩
  | _ => exact .inl ⟨r, hr, .refl r, hm⟩

/-! ### Fenced calls -/

/-- The call marks its dispatch while its reservation is active and pending, and calls the provider
    while its reservation is stored or its key is free. -/
def Call.Fenced (s : Store) : Call → Prop
  | .ready m id _ => m.hasProvider = true → ∀ key, m.idempotencyKey = some key →
      ∃ r ∈ s.quotas.reservations, r.id = id ∧ releasable r = true
  | .dispatching m id => ∀ key, m.idempotencyKey = some key →
      (∃ r ∈ s.quotas.reservations, r.id = id) ∨ findKey key s = none
  | _ => True

def Fenced (w : World Store Call Event) (i : ℕ) : Prop := (w.pc i).Fenced w.store

/-- The delivery of reservation `id` under `key` is on record, unless an operator rejected it or it
    was purged. -/
def Recorded (s : Store) (τ : List Event) (id : ℕ) (key : JsString) : Prop :=
  .rejected id ∈ τ ∨ (∃ r, .purged r ∈ τ ∧ r.idempotencyKey = some key) ∨
    ∃ r ∈ s.quotas.reservations, r.id = id ∧ r.idempotencyKey = some key ∧ Marked r

theorem recorded_step (h : MailStep s c s' c' ev) (hids : (s.quotas.reservations.map (·.id)).Nodup)
    {id : ℕ} {key : JsString} (hrec : Recorded s τ id key) : Recorded s' (ev ++ τ) id key := by
  rcases hrec with hrej | ⟨r, hpur, hk⟩ | ⟨r, hr, rfl, hk, hm⟩
  · exact .inl (List.mem_append_right _ hrej)
  · exact .inr (.inl ⟨r, List.mem_append_right _ hpur, hk⟩)
  · rcases marked_step h hids hr hm with ⟨r', hr', hs, hm'⟩ | hrej | hpur
    · exact .inr (.inr ⟨r', hr', hs.id, by rw [hs.idempotencyKey, hk], hm'⟩)
    · exact .inl (List.mem_append_left _ hrej)
    · exact .inr (.inl ⟨r, List.mem_append_left _ hpur, hk⟩)

/-- What a call that is about to call the provider relies on. -/
def Call.Recorded (s : Store) (τ : List Event) : Call → Prop
  | .dispatching m id => ∀ key, m.idempotencyKey = some key → OneMail.Send.Recorded s τ id key
  | _ => True

/-- The mark puts the delivery on record. -/
theorem mark_recorded {w : World Store Call Event} (h : Reachable mail w) {i now id : ℕ} {m : Mail}
    {b : Bool} (hc : w.pc i = .ready m id b) {key : JsString} (hk : m.idempotencyKey = some key)
    (hrow : ∃ r ∈ w.store.quotas.reservations, r.id = id ∧ releasable r = true) :
    Recorded (w.store.setReservations (updateDispatchState id .unknown .pending now
      w.store.quotas.reservations)) w.trace id key := by
  obtain ⟨r, hr, hid, hrel⟩ := hrow
  have hkey := (row_of_call h (i := i) (by rw [hc]; rfl) hr hid).1
  simp only [releasable, Bool.and_eq_true, decide_eq_true_eq] at hrel
  refine .inr (.inr ⟨_, mem_updateWhere_of_mem hr, ?_⟩)
  rw [if_pos (by simp [hid, hrel])]
  exact ⟨hid, hkey.trans hk, by simp [hrel.1], by simp⟩

theorem recorded_own {w : World Store Call Event} (h : Reachable mail w) {i : ℕ} {s' : Store}
    {c' : Call} {ev : List Event} (hfenced : Fenced w i)
    (hst : MailStep w.store (w.pc i) s' c' ev) : c'.Recorded s' (ev ++ w.trace) := by
  generalize hc : w.pc i = c at hst
  unfold Fenced at hfenced
  rw [hc] at hfenced
  cases hst with
  | @mark m id b now hnow hprovider =>
    exact fun key hk => mark_recorded h hc hk (hfenced hprovider key hk)
  | rollBack | rollBackFails => split <;> trivial
  | reject =>
    split
    · trivial
    · exact afterRefund_trivial trivial (fun _ _ _ => trivial) _ _
  | refundAgain => exact afterRefund_trivial trivial (fun _ _ _ => trivial) _ _
  | _ => trivial

/-- Every delivery the provider was called for is on record. -/
theorem recorded_reach {w : World Store Call Event} (h : Reach mail Fenced w) :
    (∀ id m key, .dispatched id m ∈ w.trace → m.idempotencyKey = some key →
      Recorded w.store w.trace id key) ∧ ∀ i, (w.pc i).Recorded w.store w.trace := by
  refine Reach.shared (I := fun s τ => ∀ id m key, .dispatched id m ∈ τ → m.idempotencyKey = some key →
    Recorded s τ id key) (L := fun s τ c => c.Recorded s τ) ?_ ?_ ?_ h
  · exact fun s _ => ⟨fun _ _ _ hd => (by cases hd), trivial⟩
  · intro w i s' l' ev hw hfenced hI hL hst
    have hids := (ledger_reach hw.reachable).ids
    refine ⟨fun id m key hd hk => ?_, recorded_own hw.reachable hfenced hst⟩
    rcases List.mem_append.mp hd with hd | hd
    · -- the call that has just called the provider had its own delivery on record
      refine recorded_step hst hids ?_
      obtain ⟨hc, -⟩ := dispatched_step hst hd
      rw [hc] at hL
      exact hL key hk
    · exact recorded_step hst hids (hI id m key hd hk)
  · intro w i j s' l' ev hw _ _ _ _ hL hst
    have hids := (ledger_reach hw.reachable).ids
    generalize w.pc j = c at hL
    cases c with
    | dispatching m id => exact fun key hk => recorded_step hst hids (hL key hk)
    | _ => trivial

/-! ### One dispatch for a key -/

/-- While the reservation of a fenced call is stored or its key is free, no other reservation holds
    the key. -/
theorem fenced_owner {w : World Store Call Event} (h : Reachable mail w) {i id : ℕ} {m : Mail}
    (hfenced : Fenced w i) (hc : w.pc i = .dispatching m id) {key : JsString}
    (hk : m.idempotencyKey = some key) {r : Reservation} (hr : r ∈ w.store.quotas.reservations)
    (hrk : r.idempotencyKey = some key) : r.id = id := by
  unfold Fenced at hfenced
  rw [hc] at hfenced
  rcases hfenced key hk with ⟨r₁, hr₁, hid⟩ | hnone
  · have hkey := (row_of_call h (i := i) (by rw [hc]; rfl) hr₁ hid).1
    rw [← hid]
    exact keysUnique_reach h r hr r₁ hr₁ key hrk (hkey.trans hk)
  · exact absurd hrk (findKey_none hnone r hr)

/-- Every earlier attempt under the key was rejected by an operator before the provider is called
    again. -/
def Superseded : List Event → Prop :=
  Historic fun τ e => ∀ id m key, e = .dispatched id m → m.idempotencyKey = some key →
    (∀ r, .purged r ∈ τ → r.idempotencyKey ≠ some key) →
    ∀ id' m', .dispatched id' m' ∈ τ → m'.idempotencyKey = some key → .rejected id' ∈ τ

theorem superseded_reach {w : World Store Call Event} (h : Reach mail Fenced w) :
    Superseded w.trace := by
  refine Reach.invariant (I := fun w => Superseded w.trace) (fun _ _ => trivial) ?_ h
  intro w i s' l' ev hw hhist hfenced hst
  by_cases hd : ∃ id m, .dispatched id m ∈ ev
  · obtain ⟨id, m, hmem⟩ := hd
    obtain ⟨hc, rfl⟩ := dispatched_step hst hmem
    refine ⟨?_, hhist⟩
    rintro _ _ key ⟨⟩ hk hpurged id' m' hd' hk'
    rcases (recorded_reach hw).1 id' m' key hd' hk' with hrej | ⟨r, hpur, hrk⟩ | ⟨r, hr, hid, hrk, -⟩
    · exact hrej
    · exact absurd hrk (hpurged r hpur)
    · -- the recorded row is the call's own, which has not called the provider yet
      have hown := fenced_owner hw.reachable hfenced hc hk hr hrk
      have hfresh := dispatchedOnce.fresh hw.reachable i id (by rw [hc]; rfl)
      exact absurd (List.mem_filterMap.mpr ⟨_, hd', by rw [← hown, hid]; rfl⟩) hfresh
  · refine Historic.append (fun later e earlier hev => ?_) hhist
    rintro id m key rfl
    exact absurd ⟨id, m, by rw [hev]; simp⟩ hd

/-- In every run of fenced calls: a reservation calls the provider at most once; when the provider is
    called for a key of which no row was purged, every earlier attempt under it had been rejected by
    an operator; and a call whose hash differs from the one stored under its key does not call it. -/
theorem key_dispatched_once {w : World Store Call Event} (h : Reach mail Fenced w) :
    (w.trace.filterMap Event.dispatch).Nodup ∧
    (∀ later id m earlier key, w.trace = later ++ .dispatched id m :: earlier →
      m.idempotencyKey = some key → (∀ r, .purged r ∈ earlier → r.idempotencyKey ≠ some key) →
      ∀ id' m', .dispatched id' m' ∈ earlier → m'.idempotencyKey = some key → .rejected id' ∈ earlier) ∧
    ∀ i s' c' ev id m key, Fenced w i → MailStep w.store (w.pc i) s' c' ev → .dispatched id m ∈ ev →
      m.idempotencyKey = some key → ∀ r ∈ w.store.quotas.reservations, r.idempotencyKey = some key →
        r.requestHash = m.requestHash := by
  refine ⟨dispatchedOnce.nodup h.reachable, fun later id m earlier key hτ hk hp => ?_, ?_⟩
  · exact historic_iff.mp (superseded_reach h) later _ earlier hτ id m key rfl hk hp
  · intro i s' c' ev id m key hfenced hst hd hk r hr hrk
    obtain ⟨hc, -⟩ := dispatched_step hst hd
    exact (row_of_call h.reachable (i := i) (by rw [hc]; rfl) hr
      (fenced_owner h.reachable hfenced hc hk hr hrk)).2

/-! ### Runs -/

/-- A mail under the key `k`. -/
def keyedMail : Mail := bindingAdminMail (some (js "k")) (some (js "h"))

def keyedRow (id now : ℕ) : Reservation :=
  newReservation id now ⟨none, none, none, none⟩ (some (js "k")) (some (js "h"))

/-- No quota is configured. -/
def freeStore : Store := ⟨⟨[], []⟩, .missing, [], [], 0, 0⟩

/-- A call takes the key and is accepted by the provider; a retry gets its answer from the row. -/
theorem key_dispatched_once_run : ∃ w : World Store Call Event, Reach mail Fenced w ∧
    w.trace.filterMap Event.dispatch = [0] ∧ (w.trace.filterMap Event.dispatch).Nodup := by
  have h : Reach mail Fenced ⟨freeStore, fun _ => .idle, []⟩ := .start ⟨rfl, rfl, rfl⟩
  have h := h.next 0 trivial (.start keyedMail)
  have h := h.next 0 trivial (.readConfig _ rfl (by decide))
  have h := h.next 0 trivial (.sweep 0 (by decide))
  have h := h.next 0 trivial (.vacant (js "k") rfl (by decide))
  have h := h.next 0 trivial (.insert (by decide) (by decide))
  have h := h.next 0 trivial (.free rfl)
  have h := h.next 0 (fun _ _ _ => ⟨keyedRow 0 0, by decide, rfl, rfl⟩) (.mark 0 (by decide) rfl)
  have h := h.next 0 (fun _ _ => .inl ⟨{ keyedRow 0 0 with dispatchState := .unknown }, by decide, rfl⟩)
    .dispatch
  have h := h.next 0 trivial (.succeed 0 (by decide))
  have h := h.next 1 trivial (.start keyedMail)
  have h := h.next 1 trivial (.readConfig _ rfl (by decide))
  have h := h.next 1 trivial (.sweep 0 (by decide))
  have h := h.next 1 trivial (.replayed (js "k") { keyedRow 0 0 with dispatchState := .sent } rfl
    (by decide) (by decide))
  exact ⟨_, h, by decide, (key_dispatched_once h).1⟩

def Event.purge : Event → Option Reservation
  | .purged r => some r
  | _ => none

theorem no_purge (h : τ.filterMap Event.purge = []) (key : JsString) :
    ∀ r, .purged r ∈ τ → r.idempotencyKey ≠ some key :=
  fun _ hr => by cases List.filterMap_eq_nil_iff.mp h _ hr

/-- A call pauses between its reservation and its mark until a retry has released the row and taken
    the key; its mark then finds no row, and both calls reach the provider. -/
theorem expired_call_dispatches : ¬ ∀ w : World Store Call Event, Reachable mail w →
    ∀ later id m earlier key, w.trace = later ++ .dispatched id m :: earlier →
      m.idempotencyKey = some key → (∀ r, .purged r ∈ earlier → r.idempotencyKey ≠ some key) →
      ∀ id' m', .dispatched id' m' ∈ earlier → m'.idempotencyKey = some key →
        .rejected id' ∈ earlier := by
  intro hall
  have h : Reachable mail ⟨freeStore, fun _ => .idle, []⟩ := .start ⟨rfl, rfl, rfl⟩
  have h := h.next 0 trivial (.start keyedMail)
  have h := h.next 0 trivial (.readConfig _ rfl (by decide))
  have h := h.next 0 trivial (.sweep 0 (by decide))
  have h := h.next 0 trivial (.vacant (js "k") rfl (by decide))
  have h := h.next 0 trivial (.insert (by decide) (by decide))
  have h := h.next 0 trivial (.free rfl)
  have h := h.next 2 trivial (.tick 900000)
  have h := h.next 1 trivial (.start keyedMail)
  have h := h.next 1 trivial (.readConfig _ rfl (by decide))
  have h := h.next 1 trivial (.sweep 900000 (by decide))
  have h := h.next 1 trivial (.stale (js "k") { keyedRow 0 0 with
    status := .released, updatedAt := 900000 } rfl (by decide) (by decide))
  have h := h.next 1 trivial .clear
  have h := h.next 1 trivial (.insert (by decide) (by decide))
  have h := h.next 1 trivial (.free rfl)
  have h := h.next 1 trivial (.mark 900000 (by decide) rfl)
  have h := h.next 1 trivial .dispatch
  have h := h.next 0 trivial (.mark 900000 (by decide) rfl)
  have h := h.next 0 trivial .dispatch
  have hrej := hall _ h [] 0 keyedMail _ (js "k") rfl rfl (no_purge rfl _) 1 keyedMail
    (.head _) rfl
  revert hrej
  decide

end OneMail.Send
