import OneMail.Send.Refund

/-! The sender balance over whole runs.

    A balance is what was granted, less the decrements, plus what was given back. Every refund belongs
    to a decrement of the same address, and no reservation is refunded twice, so a balance never exceeds
    what was granted. -/

namespace OneMail.Send
open JsString Table Interleave

variable {s s' : Store} {c c' : Call} {τ ev : List Event} {w : World Store Call Event}

/-! ### Sums over the events -/

def Event.grant (address : JsString) : Event → ℤ
  | .granted a amount => if a = address then amount else 0
  | _ => 0

def Event.debitAt (address : JsString) : Event → Option ℕ
  | .debited id a => if a = address then some id else none
  | _ => none

def Event.repaymentAt (address : JsString) : Event → Option ℕ
  | .refunded id a | .repaid id a => if a = address then some id else none
  | _ => none

/-- What was granted to an address, the first balance included. -/
def grants (address : JsString) (τ : List Event) : ℤ := (τ.map (Event.grant address)).sum

/-- The reservations that took from the balance of an address. -/
def debitsAt (address : JsString) (τ : List Event) : List ℕ := τ.filterMap (Event.debitAt address)

/-- The reservations that were given back to the balance of an address. -/
def repaymentsAt (address : JsString) (τ : List Event) : List ℕ :=
  τ.filterMap (Event.repaymentAt address)

/-- What the events change in the balance of an address. -/
def netOf (address : JsString) (τ : List Event) : ℤ :=
  grants address τ - (debitsAt address τ).length + (repaymentsAt address τ).length

theorem netOf_append (address : JsString) (ev τ : List Event) :
    netOf address (ev ++ τ) = netOf address ev + netOf address τ := by
  simp only [netOf, grants, debitsAt, repaymentsAt, List.map_append, List.sum_append,
    List.filterMap_append, List.length_append]
  push_cast
  omega

def Event.pays : Event → Bool
  | .debited _ _ | .refunded _ _ | .repaid _ _ | .granted _ _ => true
  | _ => false

theorem netOf_quiet {address : JsString} : ∀ {ev : List Event}, (∀ e ∈ ev, e.pays = false) →
    netOf address ev = 0
  | [], _ => rfl
  | e :: ev, h => by
    have hev : netOf address ev = 0 := netOf_quiet fun e he => h e (List.mem_cons_of_mem _ he)
    have he := h e List.mem_cons_self
    rw [← List.singleton_append, netOf_append, hev]
    cases e <;> first | rfl | cases he

/-! ### What a statement does to a balance -/

theorem balanceOf_updateWhere {senders : List Sender} (address : JsString) (p : Sender → Bool)
    (amount : ℤ) {r : Sender} (hr : senders.find? (·.address = address) = some r) :
    balanceOf address (updateWhere p (addBalance amount) senders) =
      balanceOf address senders + if p r = true then amount else 0 := by
  unfold balanceOf
  rw [find?_updateWhere (by exact fun _ => rfl), hr]
  by_cases hp : p r = true <;> simp [hp, addBalance]

theorem balanceOf_untouched {senders : List Sender} {address : JsString} {p : Sender → Bool} (amount : ℤ)
    (hp : ∀ r ∈ senders, p r = true → r.address ≠ address) :
    balanceOf address (updateWhere p (addBalance amount) senders) = balanceOf address senders := by
  unfold balanceOf
  rw [find?_updateWhere (by exact fun _ => rfl)]
  rcases hr : senders.find? (·.address = address) with _ | r
  · rw [hr]
    rfl
  · have hmem := List.mem_of_find?_eq_some hr
    have haddress : r.address = address := by simpa using List.find?_some hr
    have hno : ¬ p r = true := fun h => hp r hmem h haddress
    simp [hr, hno]

theorem find_sender {senders : List Sender} (hnodup : (senders.map (·.address)).Nodup) {r : Sender}
    (hr : r ∈ senders) : senders.find? (·.address = r.address) = some r := by
  rcases hfind : senders.find? (·.address = r.address) with _ | x
  · exact absurd (List.find?_eq_none.mp hfind r hr) (by simp)
  · have hx : x.address = r.address := by simpa using List.find?_some hfind
    rw [hfind, eq_of_key hnodup (List.mem_of_find?_eq_some hfind) hr hx]

theorem netOf_one (address : JsString) (e : Event) : netOf address [e] =
    e.grant address - (e.debitAt address).toList.length + (e.repaymentAt address).toList.length := by
  rcases hd : e.debitAt address with _ | n <;> rcases hr : e.repaymentAt address with _ | m <;>
    simp [netOf, grants, debitsAt, repaymentsAt, hd, hr]

/-- A refund reaches the sender row, when there is one. -/
theorem balance_refund {senders : List Sender} (hnodup : (senders.map (·.address)).Nodup)
    (address a : JsString) {e : Event} (hgrant : e.grant address = 0) (hdebit : e.debitAt address = none)
    (hrepay : (e.repaymentAt address).toList.length = if a = address then 1 else 0) :
    balanceOf address (refundSendBalance a senders) =
      balanceOf address senders + netOf address (senderEvents e a senders) := by
  unfold refundSendBalance senderEvents
  split
  · rename_i hany
    rw [netOf_one, hgrant, hdebit, hrepay]
    obtain ⟨r, hr, hra⟩ := List.any_eq_true.mp hany
    simp only [decide_eq_true_eq] at hra
    subst hra
    by_cases heq : r.address = address
    · subst heq
      rw [balanceOf_updateWhere _ _ _ (find_sender hnodup hr)]
      simp
    · rw [balanceOf_untouched]
      · simp [heq]
      · intro x _ hx
        simp only [decide_eq_true_eq] at hx
        rwa [hx]
  · rename_i hany
    rw [balanceOf_untouched]
    · simp [netOf, grants, debitsAt, repaymentsAt]
    · intro x hx hxa
      exact absurd (List.any_eq_true.mpr ⟨x, hx, hxa⟩) hany

/-- A decrement takes one from the one sender row. -/
theorem balance_debit {senders : List Sender} (hnodup : (senders.map (·.address)).Nodup)
    (address a : JsString) (id : ℕ) (hrow : senders.any (canDebit a) = true) :
    balanceOf address (updateWhere (canDebit a) (addBalance (-1)) senders) =
      balanceOf address senders + netOf address [.debited id a] := by
  obtain ⟨r, hr, hcan⟩ := List.any_eq_true.mp hrow
  have hra : r.address = a := by
    simp only [canDebit, Bool.and_eq_true, decide_eq_true_eq] at hcan
    exact hcan.1.1
  subst hra
  rw [netOf_one]
  by_cases heq : r.address = address
  · subst heq
    rw [balanceOf_updateWhere _ _ _ (find_sender hnodup hr)]
    simp [hcan, Event.grant, Event.debitAt, Event.repaymentAt]
  · rw [balanceOf_untouched]
    · simp [heq, Event.grant, Event.debitAt, Event.repaymentAt]
    · intro x _ hx
      simp only [canDebit, Bool.and_eq_true, decide_eq_true_eq] at hx
      rwa [hx.1.1]

theorem find_deleteWhere {senders : List Sender} {address a : JsString} (h : a ≠ address) :
    (deleteWhere (fun r => r.address = a) senders).find? (·.address = address) =
      senders.find? (·.address = address) := by
  rw [deleteWhere, List.find?_filter]
  congr 1
  funext r
  by_cases hr : r.address = address
  · have hne : ¬ r.address = a := fun heq => h (heq.symm.trans hr)
    simp [hr, h.symm]
  · simp [hr]

theorem find_deleted {senders : List Sender} (address : JsString) :
    (deleteWhere (fun r => r.address = address) senders).find? (·.address = address) = none := by
  rw [List.find?_eq_none]
  intro r hr
  simpa using (mem_deleteWhere.mp hr).2

theorem balance_put (senders : List Sender) (row : Sender) (address : JsString) :
    balanceOf address (putSender row senders) = balanceOf address senders +
      netOf address [.granted row.address (row.balance - balanceOf row.address senders)] := by
  rw [netOf_one]
  by_cases heq : row.address = address
  · subst heq
    have hold : ∀ b : ℤ, b + (row.balance - b) = row.balance := fun b => by omega
    simp [balanceOf, putSender, List.find?_append, find_deleted, Event.grant, Event.debitAt,
      Event.repaymentAt, hold]
  · simp [balanceOf, putSender, List.find?_append, find_deleteWhere heq, Event.grant, Event.debitAt,
      Event.repaymentAt, heq]

theorem balance_drop (senders : List Sender) (a address : JsString) :
    balanceOf address (deleteWhere (fun r => r.address = a) senders) = balanceOf address senders +
      netOf address [.granted a (-balanceOf a senders)] := by
  rw [netOf_one]
  by_cases heq : a = address
  · subst heq
    have hold : ∀ b : ℤ, b + -b = 0 := fun b => by omega
    simp [balanceOf, find_deleted, Event.grant, Event.debitAt, Event.repaymentAt, hold]
  · simp [balanceOf, find_deleteWhere heq, Event.grant, Event.debitAt, Event.repaymentAt, heq]

theorem senders_nodup (h : MailStep s c s' c' ev) (hnodup : (s.senders.map (·.address)).Nodup) :
    (s'.senders.map (·.address)).Nodup := by
  have hupdate : ∀ (p : Sender → Bool) (amount : ℤ),
      ((updateWhere p (addBalance amount) s.senders).map (·.address)).Nodup := by
    intro p amount
    rw [map_updateWhere Sender.address (by exact fun _ => rfl)]
    exact hnodup
  have hdelete : ∀ p : Sender → Bool, ((deleteWhere p s.senders).map (·.address)).Nodup := fun p =>
    hnodup.sublist (List.filter_sublist.map _)
  cases h with
  | grant row =>
    refine nodup_append_key (hdelete _) fun x hx => ?_
    simpa using (mem_deleteWhere.mp hx).2
  | drop => exact hdelete _
  | debit | refund => exact hupdate _ _
  | @repay id address addressId now =>
    show ((if refundDue id addressId s then refundSendBalance address s.senders
      else s.senders).map (·.address)).Nodup
    split
    · exact hupdate _ _
    · exact hnodup
  | _ => exact hnodup

/-- A balance moves by what the events of the step say. -/
theorem balance_step (h : MailStep s c s' c' ev) (hnodup : (s.senders.map (·.address)).Nodup)
    (address : JsString) : balanceOf address s'.senders =
      balanceOf address s.senders + netOf address ev := by
  have hquiet : ∀ {s' : Store} {ev : List Event}, s'.senders = s.senders →
      (∀ e ∈ ev, e.pays = false) → balanceOf address s'.senders =
        balanceOf address s.senders + netOf address ev := by
    intro s' ev hs hev
    rw [netOf_quiet hev, hs, Int.add_zero]
  have hreleased : ∀ rows, ∀ e ∈ releasedEvents rows, e.pays = false := by
    intro rows e he
    obtain ⟨r, -, rfl⟩ := List.mem_map.mp (List.mem_reverse.mp he)
    rfl
  cases h with
  | grant row => exact balance_put s.senders row address
  | drop a => exact balance_drop s.senders a address
  | debit _ hrow => exact balance_debit hnodup address _ _ hrow
  | refund =>
    refine balance_refund hnodup address _ rfl rfl ?_
    simp only [Event.repaymentAt]
    split <;> rfl
  | @repay id a addressId now =>
    show balanceOf address (if refundDue id addressId s then refundSendBalance a s.senders
      else s.senders) = _
    split
    · refine balance_refund hnodup address a rfl rfl ?_
      simp only [Event.repaymentAt]
      split <;> rfl
    · rw [netOf_quiet (by simp), Int.add_zero]
  | sweep | rollBack | expire => exact hquiet rfl (hreleased _)
  | commit | accept | promote | purge =>
    refine hquiet rfl fun e he => ?_
    obtain ⟨r, -, rfl⟩ := List.mem_map.mp he
    rfl
  | reject =>
    refine hquiet rfl fun e he => ?_
    rcases List.mem_append.mp he with he | he
    · split at he
      · cases he
      · obtain rfl := List.mem_singleton.mp he
        rfl
    · exact hreleased _ e he
  | _ => exact hquiet rfl (by simp [Event.pays])

theorem balance_reach (h : Reachable mail w) :
    (w.store.senders.map (·.address)).Nodup ∧
      ∀ address, balanceOf address w.store.senders = netOf address w.trace := by
  refine Reach.invariant (I := fun w => (w.store.senders.map (·.address)).Nodup ∧
    ∀ address, balanceOf address w.store.senders = netOf address w.trace) ?_ ?_ h
  · rintro s ⟨-, hs, -⟩
    rw [hs]
    exact ⟨.nil, fun _ => rfl⟩
  · intro w i s' l' ev _ ⟨hnodup, hbal⟩ _ hst
    refine ⟨senders_nodup hst hnodup, fun address => ?_⟩
    rw [advance_store, advance_trace, balance_step hst hnodup, hbal, netOf_append, Int.add_comm]

/-! ### Every refund belongs to a decrement -/

theorem refund_step (h : MailStep s c s' c' ev) {e : Event} (he : e ∈ ev) {id : ℕ} {address : JsString}
    (hr : e = .refunded id address ∨ e = .repaid id address) :
    (∃ m, c = .refunding m id ∧ address = m.address ∧ ev = [.refunded id m.address]) ∨
      ∃ addressId, c = .repaying id address addressId ∧ ev = [.repaid id address] := by
  have hmem : id ∈ repayments ev := List.mem_filterMap.mpr ⟨e, he, by rcases hr with rfl | rfl <;> rfl⟩
  rcases repayment_step h with hnone | ⟨m, id', rfl, -, rfl⟩ | ⟨id', a, addressId, rfl, -, rfl⟩
  · rw [hnone] at hmem
    cases hmem
  · obtain rfl := List.mem_singleton.mp he
    rcases hr with hr | hr <;> cases hr
    exact .inl ⟨m, rfl, rfl, rfl⟩
  · obtain rfl := List.mem_singleton.mp he
    rcases hr with hr | hr <;> cases hr
    exact .inr ⟨addressId, rfl, rfl⟩

theorem refund_matched (h : Reachable mail w) : ∀ e ∈ w.trace, ∀ id address,
    (e = .refunded id address ∨ e = .repaid id address) → .debited id address ∈ w.trace := by
  refine Reach.invariant (I := fun w => ∀ e ∈ w.trace, ∀ id address,
    (e = .refunded id address ∨ e = .repaid id address) → .debited id address ∈ w.trace)
    (fun _ _ _ he => by cases he) ?_ h
  intro w i s' l' ev hw hI _ hst e he id address hr
  rcases List.mem_append.mp he with he | he
  · have hcharged := (charged_reach hw).2 i id address
    refine List.mem_append_right _ (hcharged ?_)
    rcases refund_step hst he hr with ⟨m, hpc, rfl, -⟩ | ⟨addressId, hpc, -⟩ <;> rw [hpc] <;> rfl
  · exact List.mem_append_right _ (hI e he id address hr)

/-- An operator's refund follows an operator's word that the mail was rejected. -/
theorem repaid_rejected (h : Reachable mail w) :
    (∀ id address, .repaid id address ∈ w.trace →
      .rejected id ∈ w.trace ∨ .rejectedReleased id ∈ w.trace) ∧
    ∀ i n, (w.pc i).toRepay = some n → .rejected n ∈ w.trace ∨ .rejectedReleased n ∈ w.trace := by
  have later : ∀ {n : ℕ} {τ : List Event} (ev : List Event), (.rejected n ∈ τ ∨ .rejectedReleased n ∈ τ) →
      .rejected n ∈ ev ++ τ ∨ .rejectedReleased n ∈ ev ++ τ :=
    fun ev h => h.imp (List.mem_append_right ev) (List.mem_append_right ev)
  refine Reach.shared (I := fun _ τ => ∀ id address, .repaid id address ∈ τ →
      .rejected id ∈ τ ∨ .rejectedReleased id ∈ τ)
    (L := fun _ τ c => ∀ n, c.toRepay = some n → .rejected n ∈ τ ∨ .rejectedReleased n ∈ τ) ?_ ?_ ?_ h
  · exact fun _ _ => ⟨fun _ _ h => (by cases h), fun _ h => by cases h⟩
  · intro w i s' l' ev _ _ hI hL hst
    refine ⟨fun id address hmem => ?_, fun n hn => ?_⟩
    · rcases List.mem_append.mp hmem with hmem | hmem
      · rcases refund_step hst hmem (.inr rfl) with ⟨m, -, -, rfl⟩ | ⟨addressId, hpc, -⟩
        · cases List.mem_singleton.mp hmem
        · exact later ev (hL id (by rw [hpc]; rfl))
      · exact later ev (hI id address hmem)
    · rcases toRepay_step hst hn with ⟨-, -, rfl, -⟩ | ⟨hmem, -⟩
      · exact .inr List.mem_cons_self
      · exact .inl (List.mem_append_left _ hmem)
  · exact fun w i j s' l' ev _ _ _ _ _ hL _ n hn => later ev (hL n hn)

theorem refund_bars_dispatch : refundedOnce.Bars dispatchedOnce := by
  intro s l s' l' ev n hst hids
  rcases called_step hst with hquiet | ⟨m, quota, id, now, -, -, -, -, rfl⟩ | ⟨m, id, -, -, rfl⟩ |
    ⟨m, id, -, -, rfl⟩ | ⟨m, id, -, rfl, rfl⟩
  · have hnone : refundedOnce.ids ev = [] :=
      filterMap_quiet (fun e he => by cases e <;> first | rfl | cases he) hquiet
    rw [hnone] at hids
    cases hids
  iterate 3 cases hids
  exact ⟨rfl, rfl⟩

theorem dispatch_bars_refund : dispatchedOnce.Bars refundedOnce := by
  intro s l s' l' ev n hst hids
  rcases called_step hst with hquiet | ⟨m, quota, id, now, -, -, -, -, rfl⟩ | ⟨m, id, -, -, rfl⟩ |
    ⟨m, id, -, hl', rfl⟩ | ⟨m, id, -, rfl, rfl⟩
  · have hnone : dispatchedOnce.ids ev = [] :=
      filterMap_quiet (fun e he => by cases e <;> first | rfl | cases he) hquiet
    rw [hnone] at hids
    cases hids
  iterate 2 cases hids
  · exact ⟨rfl, by rcases hl' with rfl | rfl <;> rfl⟩
  · cases hids

/-- A refund of a dispatched mail is an operator's, after a rejection. -/
theorem refund_rejected (h : Reachable mail w) {e : Event} (he : e ∈ w.trace) {id : ℕ}
    {address : JsString} (hr : e = .refunded id address ∨ e = .repaid id address) {m : Mail}
    (hd : .dispatched id m ∈ w.trace) : .rejected id ∈ w.trace ∨ .rejectedReleased id ∈ w.trace := by
  rcases hr with rfl | rfl
  · have hd : id ∈ dispatchedOnce.ids w.trace := List.mem_filterMap.mpr ⟨_, hd, rfl⟩
    have he : id ∈ refundedOnce.ids w.trace := List.mem_filterMap.mpr ⟨_, he, rfl⟩
    exact absurd hd (Once.exclusive refund_bars_dispatch dispatch_bars_refund h id he)
  · exact (repaid_rejected h).1 id address he

theorem repaymentAt_cases (address : JsString) (e : Event) :
    e.repaymentAt address = none ∨ e.repaymentAt address = e.repayment := by
  cases e <;> first | exact .inl rfl | skip
  all_goals
    simp only [Event.repaymentAt, Event.repayment]
    split
    · exact .inr rfl
    · exact .inl rfl

theorem repaymentsAt_sublist (address : JsString) : ∀ τ : List Event,
    (repaymentsAt address τ).Sublist (repayments τ)
  | [] => .slnil
  | e :: τ => by
    have ih := repaymentsAt_sublist address τ
    rw [← List.singleton_append, repayments_append, repaymentsAt, List.filterMap_append]
    refine List.Sublist.append ?_ ih
    rcases repaymentAt_cases address e with hnone | hsame
    · rw [List.filterMap_cons_none hnone]
      exact List.nil_sublist _
    · simp only [repayments, List.filterMap_cons, hsame]
      exact .refl _

theorem repaymentsAt_subset (h : Reachable mail w) (address : JsString) :
    repaymentsAt address w.trace ⊆ debitsAt address w.trace := by
  intro id hid
  obtain ⟨e, he, hat⟩ := List.mem_filterMap.mp hid
  have hd : .debited id address ∈ w.trace := by
    refine refund_matched h e he id address ?_
    cases e <;> simp [Event.repaymentAt] at hat ⊢ <;> exact ⟨hat.2, hat.1⟩
  exact List.mem_filterMap.mpr ⟨_, hd, by simp [Event.debitAt]⟩

/-- A balance stays within what was granted. -/
theorem balance_le (h : Reach mail RefundsOnce w) (address : JsString) :
    balanceOf address w.store.senders ≤ grants address w.trace := by
  have hnodup := (repayments_reach h).1.1.sublist (repaymentsAt_sublist address w.trace)
  have hle := (List.subperm_of_subset hnodup (repaymentsAt_subset h.reachable address)).length_le
  rw [(balance_reach h.reachable).2 address, netOf]
  omega

/-- A billable mail of the address `a`. -/
def billableMail : Mail := ⟨none, none, js "a", js "1", true, true⟩

def billableStore : Store := ⟨⟨[], []⟩, .missing, [], [⟨js "1", js "a"⟩], 0, 0⟩

/-- The row of the mail once its delivery is unknown. -/
def unknownRow : Reservation :=
  { newReservation 0 0 ⟨none, none, none, none⟩ none none with
    dispatchState := .unknown, senderAddress := some (js "a"), senderAddressId := some (js "1"),
    balanceReserved := true }

theorem not_resolving {i : ℕ} (h : ∀ id, w.pc i ≠ .resolving id .rejected) : RefundsOnce w i :=
  fun id _ hpc => absurd hpc (h id)

end OneMail.Send
