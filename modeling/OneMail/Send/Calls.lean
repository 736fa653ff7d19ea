import OneMail.Lib.Supply
import OneMail.Send.Ledger

/-! What a sending call owns, and what it does once.

    A call draws the id of its reservation before it inserts it. For that id it inserts, debits,
    dispatches and refunds at most once each, since it passes the state before each of these only
    once. -/

namespace OneMail.Send
open Table Interleave

variable {s s' : Store} {c c' : Call} {τ ev : List Event}

/-- The reservation id a sending call has drawn. -/
def Call.own : Call → Option ℕ
  | .clearing _ _ id _ _ | .inserting _ _ id _ | .reserved _ id | .debited _ id | .ready _ id _
  | .dispatching _ id | .accepted _ id | .committing _ id | .rollingBack _ id _ | .refunding _ id => some id
  | _ => none

/-- The own id, while the reservation is not inserted. -/
def Call.toInsert : Call → Option ℕ
  | .clearing _ _ id _ _ | .inserting _ _ id _ => some id
  | _ => none

/-- The own id, while the balance is not debited. -/
def Call.toDebit : Call → Option ℕ
  | .clearing _ _ id _ _ | .inserting _ _ id _ | .reserved _ id => some id
  | _ => none

/-- The own id, while the provider is not called. -/
def Call.toDispatch : Call → Option ℕ
  | .clearing _ _ id _ _ | .inserting _ _ id _ | .reserved _ id | .debited _ id | .ready _ id _
  | .dispatching _ id => some id
  | _ => none

/-- The own id, while the call may still roll back. -/
def Call.toRefund : Call → Option ℕ
  | .clearing _ _ id _ _ | .inserting _ _ id _ | .reserved _ id | .debited _ id | .ready _ id _
  | .rollingBack _ id _ | .refunding _ id => some id
  | _ => none

@[simp] theorem afterRefund_own (id : ℕ) : ∀ refund, (afterRefund id refund).own = none
  | none => rfl
  | some (_, _) => rfl

theorem toInsert_own {c : Call} {n : ℕ} (h : c.toInsert = some n) : c.own = some n := by
  cases c <;> first | exact h | cases h

theorem toDebit_own {c : Call} {n : ℕ} (h : c.toDebit = some n) : c.own = some n := by
  cases c <;> first | exact h | cases h

theorem toDispatch_own {c : Call} {n : ℕ} (h : c.toDispatch = some n) : c.own = some n := by
  cases c <;> first | exact h | cases h

theorem toRefund_own {c : Call} {n : ℕ} (h : c.toRefund = some n) : c.own = some n := by
  cases c <;> first | exact h | cases h

/-- A step draws the next id, or leaves the own id as it was, or gives it up. -/
theorem own_step (h : MailStep s c s' c' ev) :
    (s'.uuids = s.uuids + 1 ∧ c'.own = some s.uuids) ∨
      (s'.uuids = s.uuids ∧ ∀ n, c'.own = some n → c.own = some n) := by
  cases h with
  | keyless | vacant | stale => exact .inl ⟨rfl, rfl⟩
  | @rollBack m id b | @rollBackFails m id b =>
    refine .inr ⟨rfl, fun n hn => ?_⟩
    cases b
    · cases hn
    · exact hn
  | reject =>
    refine .inr ⟨rfl, fun n hn => ?_⟩
    split at hn
    · cases hn
    · rw [afterRefund_own] at hn
      cases hn
  | refundAgain => exact .inr ⟨rfl, fun n hn => by rw [afterRefund_own] at hn; cases hn⟩
  | _ => exact .inr ⟨rfl, fun n hn => by first | exact hn | cases hn⟩

/-- The supply of reservation ids. -/
def uuids : Supply mail where
  next := Store.uuids
  own := Call.own
  idle := rfl
  step := own_step

/-! ### The events a call emits for its own reservation -/

def Event.called : Event → Bool
  | .inserted _ | .debited _ _ | .dispatched _ _ | .refunded _ _ => true
  | _ => false

theorem senderEvents_cases (e : Event) (address : JsString) (senders : List Sender) :
    senderEvents e address senders = [] ∨ senderEvents e address senders = [e] := by
  unfold senderEvents
  split
  · exact .inr rfl
  · exact .inl rfl

/-- The steps that insert, debit, dispatch and refund; every other step does none of these. -/
theorem called_step (h : MailStep s c s' c' ev) :
    (∀ e ∈ ev, e.called = false) ∨
    (∃ m quota id now, c = .inserting m quota id now ∧ c' = .reserved m id ∧
      quota.admits s.quotas.counters = true ∧
      (∀ key, m.idempotencyKey = some key → findKey key s = none) ∧
      ev = [.inserted (newReservation id now quota m.idempotencyKey m.requestHash)]) ∨
    (∃ m id, c = .reserved m id ∧ c' = .debited m id ∧ ev = [.debited id m.address]) ∨
    (∃ m id, c = .dispatching m id ∧ (c' = .accepted m id ∨ c' = .idle) ∧ ev = [.dispatched id m]) ∨
    ∃ m id, c = .refunding m id ∧ c' = .idle ∧ ev = [.refunded id m.address] := by
  have hrel : ∀ rows, ∀ e ∈ releasedEvents rows, e.called = false := by
    intro rows e he
    obtain ⟨r, -, rfl⟩ := List.mem_map.mp (List.mem_reverse.mp he)
    rfl
  cases h with
  | insert hadmits hunique => exact .inr (.inl ⟨_, _, _, _, rfl, rfl, hadmits, hunique, rfl⟩)
  | debit => exact .inr (.inr (.inl ⟨_, _, rfl, rfl, rfl⟩))
  | dispatch => exact .inr (.inr (.inr (.inl ⟨_, _, rfl, .inl rfl, rfl⟩)))
  | dispatchFails => exact .inr (.inr (.inr (.inl ⟨_, _, rfl, .inr rfl, rfl⟩)))
  | @refund m id =>
    rcases senderEvents_cases (.refunded id m.address) m.address s.senders with hev | hev
    · exact .inl (by simp [hev])
    · exact .inr (.inr (.inr (.inr ⟨m, id, rfl, rfl, hev⟩)))
  | sweep | rollBack | expire => exact .inl (hrel _)
  | commit | accept | promote | purge =>
    refine .inl fun e he => ?_
    obtain ⟨r, -, rfl⟩ := List.mem_map.mp he
    rfl
  | reject =>
    refine .inl fun e he => ?_
    rcases List.mem_append.mp he with he | he
    · split at he
      · cases he
      · obtain rfl := List.mem_singleton.mp he
        rfl
    · exact hrel _ e he
  | @repay id address =>
    refine .inl fun e he => ?_
    split at he
    · rcases senderEvents_cases (.repaid id address) address s.senders with hev | hev <;> rw [hev] at he
      · cases he
      · obtain rfl := List.mem_singleton.mp he
        rfl
    · cases he
  | grant | drop | refundAgain => exact .inl (by rintro e he; obtain rfl := List.mem_singleton.mp he; rfl)
  | _ => exact .inl (by simp)

/-! A state before an event is entered from such a state, or by drawing the id. -/

theorem toInsert_step (h : MailStep s c s' c' ev) {n : ℕ} (hn : c'.toInsert = some n) :
    c.toInsert = some n ∨ n = s.uuids := by
  cases h with
  | rollBack | rollBackFails => split at hn <;> cases hn
  | reject => split at hn <;> [cases hn; exact absurd (toInsert_own hn) (by simp)]
  | refundAgain => have := toInsert_own hn; simp at this
  | _ => first | exact .inl hn | exact .inr (Option.some.inj hn).symm | cases hn

theorem toDebit_step (h : MailStep s c s' c' ev) {n : ℕ} (hn : c'.toDebit = some n) :
    c.toDebit = some n ∨ n = s.uuids := by
  cases h with
  | rollBack | rollBackFails => split at hn <;> cases hn
  | reject => split at hn <;> [cases hn; exact absurd (toDebit_own hn) (by simp)]
  | refundAgain => have := toDebit_own hn; simp at this
  | _ => first | exact .inl hn | exact .inr (Option.some.inj hn).symm | cases hn

theorem toDispatch_step (h : MailStep s c s' c' ev) {n : ℕ} (hn : c'.toDispatch = some n) :
    c.toDispatch = some n ∨ n = s.uuids := by
  cases h with
  | rollBack | rollBackFails => split at hn <;> cases hn
  | reject => split at hn <;> [cases hn; exact absurd (toDispatch_own hn) (by simp)]
  | refundAgain => have := toDispatch_own hn; simp at this
  | _ => first | exact .inl hn | exact .inr (Option.some.inj hn).symm | cases hn

theorem toRefund_step (h : MailStep s c s' c' ev) {n : ℕ} (hn : c'.toRefund = some n) :
    c.toRefund = some n ∨ n = s.uuids := by
  cases h with
  | rollBack | rollBackFails => split at hn <;> [exact .inl hn; cases hn]
  | reject => split at hn <;> [cases hn; exact absurd (toRefund_own hn) (by simp)]
  | refundAgain => have := toRefund_own hn; simp at this
  | _ => first | exact .inl hn | exact .inr (Option.some.inj hn).symm | cases hn

theorem filterMap_quiet {f : Event → Option ℕ} (hf : ∀ e, e.called = false → f e = none)
    (hev : ∀ e ∈ ev, e.called = false) : ev.filterMap f = [] :=
  List.filterMap_eq_nil_iff.mpr fun e he => hf e (hev e he)

/-- A reservation is inserted once. -/
def insertedOnce : Once uuids where
  id e := e.insertion.map (·.id)
  before := Call.toInsert
  owned := toInsert_own
  step h := by
    refine (called_step h).elim (fun hquiet => .inl ⟨filterMap_quiet (fun e he => ?_) hquiet,
      fun n => toInsert_step h⟩) ?_
    · cases e <;> first | rfl | cases he
    rintro (⟨m, quota, id, now, rfl, rfl, -, -, rfl⟩ | ⟨m, id, -, -, rfl⟩ | ⟨m, id, -, -, rfl⟩ |
      ⟨m, id, -, -, rfl⟩)
    · exact .inr ⟨id, rfl, rfl, rfl⟩
    all_goals exact .inl ⟨rfl, fun n => toInsert_step h⟩

def Event.debit : Event → Option ℕ
  | .debited id _ => some id
  | _ => none

def Event.dispatch : Event → Option ℕ
  | .dispatched id _ => some id
  | _ => none

def Event.refund : Event → Option ℕ
  | .refunded id _ => some id
  | _ => none

/-- The balance is taken once for a reservation. -/
def debitedOnce : Once uuids where
  id := Event.debit
  before := Call.toDebit
  owned := toDebit_own
  step h := by
    refine (called_step h).elim (fun hquiet => .inl ⟨filterMap_quiet (fun e he => ?_) hquiet,
      fun n => toDebit_step h⟩) ?_
    · cases e <;> first | rfl | cases he
    rintro (⟨m, quota, id, now, -, -, -, -, rfl⟩ | ⟨m, id, rfl, rfl, rfl⟩ | ⟨m, id, -, -, rfl⟩ |
      ⟨m, id, -, -, rfl⟩)
    · exact .inl ⟨rfl, fun n => toDebit_step h⟩
    · exact .inr ⟨id, rfl, rfl, rfl⟩
    all_goals exact .inl ⟨rfl, fun n => toDebit_step h⟩

/-- The provider is called once for a reservation. -/
def dispatchedOnce : Once uuids where
  id := Event.dispatch
  before := Call.toDispatch
  owned := toDispatch_own
  step h := by
    refine (called_step h).elim (fun hquiet => .inl ⟨filterMap_quiet (fun e he => ?_) hquiet,
      fun n => toDispatch_step h⟩) ?_
    · cases e <;> first | rfl | cases he
    rintro (⟨m, quota, id, now, -, -, -, -, rfl⟩ | ⟨m, id, -, -, rfl⟩ | ⟨m, id, rfl, hc', rfl⟩ |
      ⟨m, id, -, -, rfl⟩)
    · exact .inl ⟨rfl, fun n => toDispatch_step h⟩
    · exact .inl ⟨rfl, fun n => toDispatch_step h⟩
    · exact .inr ⟨id, rfl, rfl, by rcases hc' with rfl | rfl <;> rfl⟩
    · exact .inl ⟨rfl, fun n => toDispatch_step h⟩

/-- A call rolls its balance back once. -/
def refundedOnce : Once uuids where
  id := Event.refund
  before := Call.toRefund
  owned := toRefund_own
  step h := by
    refine (called_step h).elim (fun hquiet => .inl ⟨filterMap_quiet (fun e he => ?_) hquiet,
      fun n => toRefund_step h⟩) ?_
    · cases e <;> first | rfl | cases he
    rintro (⟨m, quota, id, now, -, -, -, -, rfl⟩ | ⟨m, id, -, -, rfl⟩ | ⟨m, id, -, -, rfl⟩ |
      ⟨m, id, rfl, rfl, rfl⟩)
    iterate 3 exact .inl ⟨rfl, fun n => toRefund_step h⟩
    exact .inr ⟨id, rfl, rfl, rfl⟩

end OneMail.Send
