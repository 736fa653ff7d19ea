import OneMail.Send.Calls

/-! The quota counters over whole runs.

    Every step of the system is a chain of ledger moves (`moves_step`): the row a call inserts is new,
    and a daily key is no monthly one. So the `Ledger` holds in every reachable store. A counter stays
    within its limit because the INSERT that raises it reads it in the same statement. -/

namespace OneMail.Send
open JsString Table Interleave

variable {s s' : Store} {c c' : Call} {τ ev : List Event}

/-! ### What a call binds -/

/-- Before the INSERT the keys of a call are a daily and a monthly one. -/
def Call.KeysApart : Call → Prop
  | .configured _ quota | .swept _ quota | .clearing _ quota _ _ _ | .inserting _ quota _ _ =>
    Apart quota.dailyKey quota.monthlyKey
  | _ => True

theorem apart_readQuota {config : StoredConfig} {now : ℕ} {quota : Quota}
    (h : readQuota config now = some quota) : Apart quota.dailyKey quota.monthlyKey := by
  unfold readQuota at h
  split at h
  · cases h
    exact fun _ h => by cases h
  · cases h
  · split at h
    · cases h
      intro key hd hm
      obtain ⟨_, -, hd⟩ := Option.map_eq_some_iff.mp hd
      obtain ⟨_, -, hm⟩ := Option.map_eq_some_iff.mp hm
      exact dailyKey_ne_monthlyKey now now (hd.trans hm.symm)
    · cases h

theorem afterRefund_trivial {L : Call → Prop} (hidle : L .idle)
    (hrepay : ∀ id address addressId, L (.repaying id address addressId)) (id : ℕ) :
    ∀ refund, L (afterRefund id refund)
  | none => hidle
  | some (address, addressId) => hrepay id address addressId

theorem keysApart_step (h : MailStep s c s' c' ev) (hc : c.KeysApart) : c'.KeysApart := by
  cases h with
  | readConfig quota h => exact apart_readQuota h
  | sweep | keyless | vacant | stale | clear => exact hc
  | rollBack | rollBackFails => split <;> trivial
  | reject =>
    split
    · trivial
    · exact afterRefund_trivial trivial (fun _ _ _ => trivial) _ _
  | refundAgain => exact afterRefund_trivial trivial (fun _ _ _ => trivial) _ _
  | _ => trivial

theorem keysApart_reach {w : World Store Call Event} (h : Reachable mail w) :
    ∀ i, (w.pc i).KeysApart := by
  refine (Reach.shared (I := fun _ _ => True) (L := fun _ _ c => c.KeysApart)
    (fun _ _ => ⟨trivial, trivial⟩) ?_ ?_ h).2
  · exact fun w i s' l' ev _ _ _ hc hst => ⟨trivial, keysApart_step hst hc⟩
  · exact fun _ _ _ _ _ _ _ _ _ _ _ hc _ => hc

/-- The id of a call that has not inserted is not inserted. -/
theorem toInsert_fresh {w : World Store Call Event} (h : Reachable mail w) {i n : ℕ}
    (hn : (w.pc i).toInsert = some n) : n ∉ (insertions w.trace).map (·.id) := by
  rw [insertions, List.map_filterMap]
  exact insertedOnce.fresh h i n hn

/-! ### Every step is a chain of ledger moves -/

/-- Every row was a row before, or was inserted. -/
theorem QuotaMoves.prev {q q' : Quotas} (h : QuotaMoves q τ q' ev) : ∀ r' ∈ q'.reservations,
    (∃ r ∈ q.reservations, SameSlot r r') ∨ ∃ r, .inserted r ∈ ev ∧ SameSlot r r' := by
  have one : ∀ {q' q'' : Quotas} {τ ev' : List Event}, QuotaMove q' τ q'' ev' → ∀ r' ∈ q''.reservations,
      (∃ r ∈ q'.reservations, SameSlot r r') ∨ .inserted r' ∈ ev' := by
    intro q' q'' τ ev' hm r' hr'
    cases hm with
    | touch hu =>
      obtain ⟨r, hr, hs, -⟩ := Forall₂.prev hu hr'
      exact .inl ⟨r, hr, hs⟩
    | insert r =>
      rcases List.mem_append.mp hr' with hr | hr
      · exact .inl ⟨r', hr, .refl r'⟩
      · obtain rfl := List.mem_singleton.mp hr
        exact .inr List.mem_cons_self
    | release now r hr hrel =>
      obtain ⟨x, hx, rfl⟩ := mem_updateWhere.mp hr'
      exact .inl ⟨x, hx, by split <;> exact ⟨rfl, rfl, rfl, rfl, rfl⟩⟩
    | commit p f hp hf =>
      obtain ⟨x, hx, rfl⟩ := mem_updateWhere.mp hr'
      refine .inl ⟨x, hx, ?_⟩
      split
      · exact (hf x).1
      · exact .refl x
    | delete p hp => exact .inl ⟨r', (mem_deleteWhere.mp hr').1, .refl r'⟩
    | note => exact .inl ⟨r', hr', .refl r'⟩
  induction h with
  | refl => exact fun r' hr' => .inl ⟨r', hr', .refl r'⟩
  | tail _ hm ih =>
    intro r'' hr''
    rcases one hm r'' hr'' with ⟨r', hr', hs'⟩ | hins
    · rcases ih r' hr' with ⟨r, hr, hs⟩ | ⟨r, hr, hs⟩
      · exact .inl ⟨r, hr, hs.trans hs'⟩
      · exact .inr ⟨r, List.mem_append_right _ hr, hs.trans hs'⟩
    · exact .inr ⟨r'', List.mem_append_left _ hins, .refl r''⟩

theorem QuotaMoves.notes {q : Quotas} : ∀ {ev : List Event},
    (∀ e ∈ ev, e.insertion = none ∧ e.release = none ∧ e.commitment = none) → QuotaMoves q τ q ev
  | [], _ => .refl
  | e :: _, h => .tail (QuotaMoves.notes fun e he => h e (List.mem_cons_of_mem _ he))
      (.note e (h e List.mem_cons_self).1 (h e List.mem_cons_self).2.1 (h e List.mem_cons_self).2.2)

/-- A statement the trace does not show. -/
theorem QuotaMoves.silent {q q' q'' : Quotas} (h : QuotaMoves q τ q' ev)
    (hm : QuotaMove q' (ev ++ τ) q'' []) : QuotaMoves q τ q'' ev := .tail h hm

theorem touch_dispatchState {q : Quotas} (id : ℕ) (state expected : DispatchState) (now : ℕ) :
    QuotaMoves q τ ⟨updateDispatchState id state expected now q.reservations, q.counters⟩ [] :=
  .single (.touch (touch_updateWhere (by exact fun _ => ⟨⟨rfl, rfl, rfl, rfl, rfl⟩, rfl⟩) _))

theorem mem_releasableById {id : ℕ} {reservations : List Reservation} {r : Reservation} :
    r ∈ releasableById id reservations ↔ r ∈ reservations ∧ r.id = id ∧ releasable r = true := by
  simp only [releasableById, List.mem_filter, Bool.and_eq_true, decide_eq_true_eq]

theorem releasable_rows {id : ℕ} {reservations : List Reservation} {r : Reservation}
    (h : r ∈ releasableById id reservations) : r ∈ reservations ∧ releasable r = true :=
  ⟨(mem_releasableById.mp h).1, (mem_releasableById.mp h).2.2⟩

theorem senderEvents_note {e : Event} (address : JsString) (senders : List Sender)
    (he : e.insertion = none ∧ e.release = none ∧ e.commitment = none) :
    ∀ e' ∈ senderEvents e address senders,
      e'.insertion = none ∧ e'.release = none ∧ e'.commitment = none := by
  unfold senderEvents
  split
  · intro e' he'
    obtain rfl := List.mem_singleton.mp he'
    exact he
  · simp

/-- What each step does to the quota tables. -/
theorem moves_step (h : MailStep s c s' c' ev) (hc : c.KeysApart)
    (hfresh : ∀ n, c.toInsert = some n → n ∉ (insertions τ).map (·.id))
    (hids : (s.quotas.reservations.map (·.id)).Nodup) : QuotaMoves s.quotas τ s'.quotas ev := by
  cases h with
  | sweep now | expire =>
    exact moves_releaseRows _ _ hids (nodup_selectTop hids _ _ _) fun _ hr => expired_rows hr
  | rollBack now =>
    exact moves_releaseRows _ _ hids (hids.sublist (List.filter_sublist.map _)) fun _ hr =>
      releasable_rows hr
  | clear =>
    refine .single (.delete _ fun r _ hp ha => ?_)
    simp [ha] at hp
  | insert hadmits hunique => exact .single (.insert _ rfl (hfresh _ rfl) hc)
  | charge now => exact .single (.touch (touch_updateWhere (by exact fun _ => ⟨⟨rfl, rfl, rfl, rfl, rfl⟩, rfl⟩) _))
  | mark now | succeed now => exact touch_dispatchState _ _ _ now
  | commit now =>
    refine .single (.commit _ _ (fun r hp => ?_) fun r => ⟨⟨rfl, rfl, rfl, rfl, rfl⟩, rfl⟩)
    simp only [committable, Bool.and_eq_true, decide_eq_true_eq] at hp
    exact hp.1.2
  | accept now =>
    refine .single (.commit _ _ (fun r hp => ?_) fun r => ⟨⟨rfl, rfl, rfl, rfl, rfl⟩, rfl⟩)
    simp only [unresolved, Bool.and_eq_true, decide_eq_true_eq] at hp
    exact hp.2.1
  | promote =>
    refine .single (.commit _ _ (fun r hp => ?_) fun r => ⟨⟨rfl, rfl, rfl, rfl, rfl⟩, rfl⟩)
    simp only [Bool.and_eq_true, decide_eq_true_eq] at hp
    exact hp.1
  | @reject id refund now hnow rows hrows =>
    -- the batch: back to pending, then released
    have hpending := touch_dispatchState (q := s.quotas) (τ := τ) id .pending .unknown now
    have hids' : ((updateDispatchState id .pending .unknown now s.quotas.reservations).map
        (·.id)).Nodup := by
      rw [updateDispatchState, map_updateWhere Reservation.id (by exact fun _ => rfl)]
      exact hids
    subst hrows
    have hrelease := moves_releaseRows (τ := [] ++ τ) now
      (releasableById id (updateDispatchState id .pending .unknown now s.quotas.reservations))
      (q := ⟨updateDispatchState id .pending .unknown now s.quotas.reservations, s.quotas.counters⟩)
      hids' (hids'.sublist (List.filter_sublist.map _)) fun r hr => releasable_rows hr
    have hmoves := hpending.trans hrelease
    rw [List.append_nil] at hmoves
    refine hmoves.trans (QuotaMoves.notes ?_)
    split
    · simp
    · intro e he
      obtain rfl := List.mem_singleton.mp he
      exact ⟨rfl, rfl, rfl⟩
  | refund => exact QuotaMoves.notes (senderEvents_note _ _ ⟨rfl, rfl, rfl⟩)
  | repay now =>
    refine (QuotaMoves.notes ?_).silent (.touch (touch_updateWhere
      (by exact fun _ => ⟨⟨rfl, rfl, rfl, rfl, rfl⟩, rfl⟩) _))
    split
    · exact senderEvents_note _ _ ⟨rfl, rfl, rfl⟩
    · simp
  | purge =>
    refine (QuotaMoves.notes ?_).silent (.delete _ ?_)
    · intro e he
      obtain ⟨r, -, rfl⟩ := List.mem_map.mp he
      exact ⟨rfl, rfl, rfl⟩
    · intro r hr hp
      -- the purged rows are the selected ones, and those are terminal
      obtain ⟨x, hx, hxr⟩ := List.mem_map.mp (of_decide_eq_true hp)
      obtain ⟨hx, hxp⟩ := mem_of_mem_selectTop hx
      obtain rfl := eq_of_key hids hx hr hxr
      simp only [Bool.and_eq_true, decide_eq_true_eq] at hxp
      exact hxp.1
  | debit | dispatch | dispatchFails | grant | drop | refundAgain =>
    exact QuotaMoves.notes (by rintro e he; obtain rfl := List.mem_singleton.mp he; exact ⟨rfl, rfl, rfl⟩)
  | _ => exact .refl

theorem ledger_reach {w : World Store Call Event} (h : Reachable mail w) :
    Ledger w.store.quotas w.trace := by
  refine Reach.invariant (I := fun w => Ledger w.store.quotas w.trace) ?_ ?_ h
  · rintro s ⟨hq, -⟩
    rw [hq]
    exact ⟨.nil, by simp, .nil, by simp, .nil, by simp [releases], by simp [commitments], by simp,
      by simp, trivial, fun _ => rfl⟩
  · intro w i s' l' ev hw hledger _ hst
    exact hledger.moves (moves_step hst (keysApart_reach hw i) (fun _ => toInsert_fresh hw) hledger.ids)

theorem moves_reach {w : World Store Call Event} (h : Reachable mail w) {i : ℕ} {s' : Store} {c' : Call}
    {ev : List Event} (hst : MailStep w.store (w.pc i) s' c' ev) :
    QuotaMoves w.store.quotas w.trace s'.quotas ev :=
  moves_step hst (keysApart_reach h i) (fun _ => toInsert_fresh h) (ledger_reach h).ids

/-! ### The limit -/

def Quota.limitOf (key : JsString) (quota : Quota) : Option ℕ :=
  if quota.dailyKey = some key then quota.dailyLimit
  else if quota.monthlyKey = some key then quota.monthlyLimit
  else none

/-- Whenever `key` is the current key of a configured limit, that limit is `limit`. -/
def KeepsLimit (key : JsString) (limit : ℕ) (w : World Store Call Event) (_ : ℕ) : Prop :=
  ∀ quota l, readQuota w.store.config w.store.clock = some quota → quota.limitOf key = some l → l = limit

/-- The reservation is held to `limit` under `key`. -/
def Quota.HeldTo (key : JsString) (limit : ℕ) (quota : Quota) : Prop :=
  (quota.dailyKey = some key → quota.dailyLimit = some limit) ∧
    (quota.monthlyKey = some key → quota.monthlyLimit = some limit)

def Call.HeldTo (key : JsString) (limit : ℕ) : Call → Prop
  | .configured _ quota | .swept _ quota | .clearing _ quota _ _ _ | .inserting _ quota _ _ =>
    quota.HeldTo key limit
  | _ => True

/-- A key comes with its limit. -/
theorem limits_readQuota {config : StoredConfig} {now : ℕ} {quota : Quota}
    (h : readQuota config now = some quota) :
    quota.dailyKey.isSome = quota.dailyLimit.isSome ∧
      quota.monthlyKey.isSome = quota.monthlyLimit.isSome := by
  unfold readQuota at h
  split at h
  · cases h
    exact ⟨rfl, rfl⟩
  · cases h
  · split at h
    · cases h
      exact ⟨Option.isSome_map, Option.isSome_map⟩
    · cases h

theorem heldTo_readQuota {config : StoredConfig} {now limit : ℕ} {key : JsString} {quota : Quota}
    (h : readQuota config now = some quota) (hl : ∀ l, quota.limitOf key = some l → l = limit) :
    quota.HeldTo key limit := by
  obtain ⟨hdaily, hmonthly⟩ := limits_readQuota h
  constructor
  · intro hk
    rw [hk] at hdaily
    obtain ⟨l, hlimit⟩ := Option.isSome_iff_exists.mp hdaily.symm
    rw [hlimit, hl l (by rw [Quota.limitOf, if_pos hk, hlimit])]
  · intro hk
    have hne : quota.dailyKey ≠ some key := fun hd => apart_readQuota h key hd hk
    rw [hk] at hmonthly
    obtain ⟨l, hlimit⟩ := Option.isSome_iff_exists.mp hmonthly.symm
    rw [hlimit, hl l (by rw [Quota.limitOf, if_neg hne, if_pos hk, hlimit])]

theorem heldTo_step {key : JsString} {limit : ℕ} (h : MailStep s c s' c' ev)
    (hl : ∀ quota l, readQuota s.config s.clock = some quota → quota.limitOf key = some l → l = limit)
    (hc : c.HeldTo key limit) : c'.HeldTo key limit := by
  cases h with
  | readConfig quota h => exact heldTo_readQuota h (hl quota · h)
  | sweep | keyless | vacant | stale | clear => exact hc
  | rollBack | rollBackFails => split <;> trivial
  | reject =>
    split
    · trivial
    · exact afterRefund_trivial trivial (fun _ _ _ => trivial) _ _
  | refundAgain => exact afterRefund_trivial trivial (fun _ _ _ => trivial) _ _
  | _ => trivial

theorem heldTo_reach {key : JsString} {limit : ℕ} {w : World Store Call Event}
    (h : Reach mail (KeepsLimit key limit) w) : ∀ i, (w.pc i).HeldTo key limit := by
  refine (Reach.shared (I := fun _ _ => True) (L := fun _ _ c => c.HeldTo key limit)
    (fun _ _ => ⟨trivial, trivial⟩) ?_ ?_ h).2
  · exact fun w i s' l' ev _ hkeep _ hc hst => ⟨trivial, heldTo_step hst hkeep hc⟩
  · exact fun _ _ _ _ _ _ _ _ _ _ _ hc _ => hc

/-- The INSERT of a reservation, or no insertion at all. -/
theorem insertions_step (h : MailStep s c s' c' ev) :
    insertions ev = [] ∨ ∃ m quota id now, c = .inserting m quota id now ∧
      quota.admits s.quotas.counters = true ∧
      ev = [.inserted (newReservation id now quota m.idempotencyKey m.requestHash)] := by
  refine (called_step h).elim (fun hquiet => .inl (List.filterMap_eq_nil_iff.mpr fun e he => ?_)) ?_
  · have := hquiet e he
    cases e <;> first | rfl | cases this
  rintro (⟨m, quota, id, now, rfl, -, hadmits, -, rfl⟩ | ⟨m, id, -, -, rfl⟩ | ⟨m, id, -, -, rfl⟩ |
    ⟨m, id, -, -, rfl⟩)
  · exact .inr ⟨m, quota, id, now, rfl, hadmits, rfl⟩
  all_goals exact .inl rfl

/-- The INSERT reads the counter it is about to raise. -/
theorem admits_lt {key : JsString} {limit : ℕ} {quota : Quota} {counters : List Counter}
    (h : quota.admits counters = true) (hheld : quota.HeldTo key limit)
    (hk : quota.dailyKey = some key ∨ quota.monthlyKey = some key) : count key counters < limit := by
  simp only [Quota.admits, Bool.and_eq_true] at h
  rcases hk with hk | hk
  · simpa [admitsKey, hk, hheld.1 hk] using h.1
  · simpa [admitsKey, hk, hheld.2 hk] using h.2

theorem count_le {key : JsString} {limit : ℕ} {w : World Store Call Event}
    (h : Reach mail (KeepsLimit key limit) w) : count key w.store.quotas.counters ≤ limit := by
  refine Reach.invariant (I := fun w => count key w.store.quotas.counters ≤ limit) ?_ ?_ h
  · rintro s ⟨hq, -⟩
    rw [hq]
    exact Int.natCast_nonneg limit
  · intro w i s' l' ev hw hle _ hst
    have hnow := (ledger_reach hw.reachable).counters key
    have hthen := (ledger_reach (hw.reachable.next i trivial hst)).counters key
    rw [advance_store, advance_trace, insertions, releases, List.filterMap_append,
      List.filterMap_append, ← insertions, ← insertions, ← releases, ← releases, List.countP_append,
      List.countP_append] at hthen
    rw [advance_store]
    rcases insertions_step hst with hnone | ⟨m, quota, id, now, hpc, hadmits, rfl⟩
    · rw [hnone, List.countP_nil] at hthen
      omega
    · have hheld : quota.HeldTo key limit := by
        have := heldTo_reach hw i
        rwa [hpc] at this
      have hone (r : Reservation) : (insertions [.inserted r]).countP (·.uses key) =
          if r.uses key = true then 1 else 0 := List.countP_singleton
      rw [hone] at hthen
      split at hthen
      · rename_i hk
        rw [Reservation.uses, Bool.or_eq_true, decide_eq_true_eq, decide_eq_true_eq] at hk
        have hlt := admits_lt hadmits hheld hk
        omega
      · omega

/-- In every reachable store the counter of a key is the number of reservations inserted with it less
    the number that reached `released`; a reservation is released at most once and never after it was
    committed; and while a limit stays configured its current counter stays within it. -/
theorem quota_ledger :
    (∀ w : World Store Call Event, Reachable mail w →
      (∀ key, count key w.store.quotas.counters =
        ((insertions w.trace).countP (·.uses key) : ℤ) - (releases w.trace).countP (·.uses key)) ∧
      (∀ r ∈ w.store.quotas.reservations,
        r.id ∈ (releases w.trace).map (·.id) ↔ r.status = .released) ∧
      ((releases w.trace).map (·.id)).Nodup ∧
      ∀ later r earlier, w.trace = later ++ .released r :: earlier →
        r.id ∉ (commitments earlier).map (·.id)) ∧
    ∀ key limit (w : World Store Call Event), Reach mail (KeepsLimit key limit) w →
      count key w.store.quotas.counters ≤ limit := by
  refine ⟨fun w h => ?_, fun key limit w h => count_le h⟩
  have hledger := ledger_reach h
  exact ⟨hledger.counters, hledger.closed, hledger.released, fun later r earlier hτ =>
    historic_iff.mp hledger.once later _ earlier hτ r rfl⟩

/-- The store of the run below: one mail a day. -/
def demoStore : Store where
  quotas := ⟨[], []⟩
  config := .stored ⟨true, false, .int 1, .absent⟩
  senders := []
  addresses := []
  clock := 0
  uuids := 0

/-- A send takes the one slot of the day and fails for want of a provider, and gives it back; the next
    one takes it again. -/
theorem quota_ledger_run : ∃ w : World Store Call Event,
    Reach mail (KeepsLimit (getDailyCountKey 0) 1) w ∧
    (insertions w.trace).length = 2 ∧ (releases w.trace).length = 1 ∧
    count (getDailyCountKey 0) w.store.quotas.counters ≤ 1 := by
  have keeps : ∀ w : World Store Call Event, w.store.config = demoStore.config → w.store.clock = 0 →
      ∀ i, KeepsLimit (getDailyCountKey 0) 1 w i := by
    intro w hconfig hclock _ quota l hquota hl
    rw [hconfig, hclock] at hquota
    cases hquota
    cases hl
    rfl
  have h : Reach mail (KeepsLimit (getDailyCountKey 0) 1) ⟨demoStore, fun _ => .idle, []⟩ :=
    .start ⟨rfl, rfl, rfl⟩
  have h := h.next 0 (keeps _ rfl rfl 0) (.start ⟨none, none, [], [], false, false⟩)
  have h := h.next 0 (keeps _ rfl rfl 0) (.readConfig _ rfl (by decide))
  have h := h.next 0 (keeps _ rfl rfl 0) (.sweep 0 (by decide))
  have h := h.next 0 (keeps _ rfl rfl 0) (.keyless rfl)
  have h := h.next 0 (keeps _ rfl rfl 0) (.insert (by decide) (by decide))
  have h := h.next 0 (keeps _ rfl rfl 0) (.free rfl)
  have h := h.next 0 (keeps _ rfl rfl 0) (.noProvider rfl)
  have h := h.next 0 (keeps _ rfl rfl 0) (.rollBack 0 (by decide))
  have h := h.next 1 (keeps _ rfl rfl 1) (.start ⟨none, none, [], [], false, true⟩)
  have h := h.next 1 (keeps _ rfl rfl 1) (.readConfig _ rfl (by decide))
  have h := h.next 1 (keeps _ rfl rfl 1) (.sweep 0 (by decide))
  have h := h.next 1 (keeps _ rfl rfl 1) (.keyless rfl)
  have h := h.next 1 (keeps _ rfl rfl 1) (.insert (by decide) (by decide))
  exact ⟨_, h, by decide, by decide, quota_ledger.2 _ 1 _ h⟩

end OneMail.Send
