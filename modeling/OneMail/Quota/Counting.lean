import OneMail.Quota.Flush

/-! Every quota delta is counted exactly once.

    A uuid is drawn once, so a delta id names one date and one delta (`Drawn`, `drawn_apart`). The
    coordinator's book (`Book`) says that an id once counted stays marked or lies below the persisted
    floor, that an acknowledgement follows a count, and that the rows of a date are the sum of what was
    counted for it. What was sent and not acknowledged is still held (`held_until_acknowledged`). The
    conservation law over all isolates then balances the books (`counted_once`). -/

namespace OneMail.Quota

open KeyValue (lookup_put lookup_del)
open Interleave Table

variable {kv : Bool} {shardId : JsString} {s s' : Shared} {iso iso' : Isolate} {τ ev : List Event}
  {w : World Shared Isolate Event} {date D : Date} {batch : Batch}

/-! ### Reading the trace -/

def Event.recordedOn (D : Date) : Event → QuotaDelta
  | .recorded date delta => if date = D then delta else 0
  | _ => 0

/-- What an event takes out of the buckets of the date. -/
def Event.releasedOn (D : Date) : Event → QuotaDelta
  | .acknowledged id delta => if id.utcDate = D then delta else 0
  | .dropped date delta => if date = D then delta else 0
  | _ => 0

def Event.addition : Event → Option (Date × DeltaId × QuotaDelta)
  | .added date id delta => some (date, id, delta)
  | _ => none

def Event.acknowledgement : Event → Option (DeltaId × QuotaDelta)
  | .acknowledged id delta => some (id, delta)
  | _ => none

/-- The ids that were counted, one entry for each time. -/
def addedIds (τ : List Event) : List DeltaId := (τ.filterMap Event.addition).map (·.2.1)

/-- What was counted for the date. -/
def addedOn (D : Date) (τ : List Event) : List (DeltaId × QuotaDelta) :=
  ((τ.filterMap Event.addition).filter (·.1 = D)).map (·.2)

def acknowledgedIds (τ : List Event) : List DeltaId := (τ.filterMap Event.acknowledgement).map (·.1)

def acknowledgedOn (D : Date) (τ : List Event) : List (DeltaId × QuotaDelta) :=
  (τ.filterMap Event.acknowledgement).filter (·.1.utcDate = D)

/-- What was counted for the date and is not acknowledged yet. -/
def unacknowledgedOn (D : Date) (τ : List Event) : List (DeltaId × QuotaDelta) :=
  (addedOn D τ).filter (·.1 ∉ acknowledgedIds τ)

/-- The coordinator has refused the date as expired, or has persisted a floor above it. -/
def Expired (τ : List Event) (D : Date) : Prop :=
  .expired D ∈ τ ∨ ∃ floor, .cleaned floor ∈ τ ∧ D < floor

/-- Events that say nothing about what the coordinator counted or cleaned. -/
def Silent (ev : List Event) : Prop :=
  ∀ e ∈ ev, e.addition = none ∧ ∀ floor, e ≠ .cleaned floor

theorem mem_addedIds {id : DeltaId} : id ∈ addedIds τ ↔ ∃ date delta, .added date id delta ∈ τ := by
  simp only [addedIds, List.mem_map, List.mem_filterMap]
  constructor
  · rintro ⟨⟨date, id, delta⟩, ⟨e, he, hadd⟩, rfl⟩
    cases e with
    | added date' id' delta' => cases hadd; exact ⟨date, delta, he⟩
    | _ => cases hadd
  · rintro ⟨date, delta, he⟩
    exact ⟨(date, id, delta), ⟨_, he, rfl⟩, rfl⟩

theorem mem_addedOn {e : DeltaId × QuotaDelta} : e ∈ addedOn D τ ↔ .added D e.1 e.2 ∈ τ := by
  simp only [addedOn, List.mem_map, List.mem_filter, List.mem_filterMap, decide_eq_true_eq]
  constructor
  · rintro ⟨⟨date, id, delta⟩, ⟨⟨e', he, hadd⟩, rfl⟩, rfl⟩
    cases e' with
    | added date' id' delta' => cases hadd; exact he
    | _ => cases hadd
  · intro he
    exact ⟨(D, e), ⟨⟨_, he, rfl⟩, rfl⟩, rfl⟩

theorem mem_acknowledgedOn {e : DeltaId × QuotaDelta} :
    e ∈ acknowledgedOn D τ ↔ .acknowledged e.1 e.2 ∈ τ ∧ e.1.utcDate = D := by
  simp only [acknowledgedOn, List.mem_filter, List.mem_filterMap, decide_eq_true_eq]
  refine and_congr_left fun _ => ⟨?_, fun he => ⟨_, he, rfl⟩⟩
  rintro ⟨e', he, hack⟩
  cases e' with
  | acknowledged id delta => cases hack; exact he
  | _ => cases hack

theorem mem_acknowledgedIds {id : DeltaId} :
    id ∈ acknowledgedIds τ ↔ ∃ delta, .acknowledged id delta ∈ τ := by
  simp only [acknowledgedIds, List.mem_map, List.mem_filterMap]
  constructor
  · rintro ⟨⟨id, delta⟩, ⟨e, he, hack⟩, rfl⟩
    cases e with
    | acknowledged id' delta' => cases hack; exact ⟨delta, he⟩
    | _ => cases hack
  · rintro ⟨delta, he⟩
    exact ⟨(id, delta), ⟨_, he, rfl⟩, rfl⟩

theorem addition_silent (h : Silent ev) : (ev ++ τ).filterMap Event.addition =
    τ.filterMap Event.addition := by
  rw [List.filterMap_append, List.filterMap_eq_nil_iff.mpr fun e he => (h e he).1, List.nil_append]

/-! ### Ids -/

/-- Every id in use was drawn, and carries the date it is used for. -/
structure Drawn (s : Shared) (iso : Isolate) : Prop where
  frozen : ∀ date batch, iso.coordinatorDeltaByDate.lookup date = some batch →
    batch.id.utcDate = date ∧ batch.id.uuid < s.uuids
  sent : ∀ r ∈ s.sent, r.deltaId.utcDate = r.utcDate ∧ r.deltaId.uuid < s.uuids

/-- The batch of a date after the step, if it is not new, was there before. -/
theorem QuotaStep.kept (h : QuotaStep kv shardId s iso s' iso' ev)
    (hb : iso'.coordinatorDeltaByDate.lookup date = some batch) :
    iso.coordinatorDeltaByDate.lookup date = some batch ∨
      batch.id = ⟨date, s.uuids⟩ ∧ s'.uuids = s.uuids + 1 := by
  have herase : ∀ {m : KeyValue.Map Date Batch} {day : Date}, (m.erase day).lookup date = some batch →
      m.lookup date = some batch := by
    intro m day hm
    rw [lookup_del] at hm
    split at hm
    · cases hm
    · exact hm
  cases h with
  | record now delta =>
    rw [recordD1Quota] at hb
    split at hb <;> exact .inl hb
  | flush now hidle hhead hnone =>
    rw [lookup_put] at hb
    split at hb
    · rename_i hdate
      cases hb
      exact .inr ⟨by rw [hdate]; rfl, rfl⟩
    · exact .inl hb
  | retry | handle | cleanup | giveUp => exact .inl hb
  | acknowledge | expire => exact .inl (herase hb)

/-- A request after the step, if it is not new, was sent before. -/
theorem QuotaStep.sentBy (h : QuotaStep kv shardId s iso s' iso' ev) {r : DeltaRequest}
    (hr : r ∈ s'.sent) : r ∈ s.sent ∨
      ∃ date batch now, iso'.coordinatorDeltaByDate.lookup date = some batch ∧
        r = request shardId batch now := by
  cases h with
  | flush now hidle hhead hnone =>
    rcases List.mem_cons.mp hr with rfl | hr
    · exact .inr ⟨_, _, now, AList.lookup_insert _, rfl⟩
    · exact .inl hr
  | retry now hidle hhead hb =>
    rcases List.mem_cons.mp hr with rfl | hr
    · exact .inr ⟨_, _, now, hb, rfl⟩
    · exact .inl hr
  | record | handle | cleanup | acknowledge | expire | giveUp => exact .inl hr

theorem QuotaStep.uuids_le (h : QuotaStep kv shardId s iso s' iso' ev) : s.uuids ≤ s'.uuids := by
  cases h with
  | flush => exact Nat.le_succ _
  | _ => exact le_rfl

theorem drawn_step (h : QuotaStep kv shardId s iso s' iso' ev) (hd : Drawn s iso) : Drawn s' iso' := by
  have hfrozen : ∀ date batch, iso'.coordinatorDeltaByDate.lookup date = some batch →
      batch.id.utcDate = date ∧ batch.id.uuid < s'.uuids := by
    intro date batch hb
    rcases h.kept hb with hb | ⟨hid, hnext⟩
    · exact ⟨(hd.frozen _ _ hb).1, (hd.frozen _ _ hb).2.trans_le h.uuids_le⟩
    · rw [hid, hnext]
      exact ⟨rfl, Nat.lt_succ_self _⟩
  refine ⟨hfrozen, fun r hr => ?_⟩
  rcases h.sentBy hr with hr | ⟨date, batch, now, hb, rfl⟩
  · exact ⟨(hd.sent r hr).1, (hd.sent r hr).2.trans_le h.uuids_le⟩
  · exact ⟨rfl, (hfrozen _ _ hb).2⟩

theorem drawn_reach (h : Reachable (quota kv shardId) w) (i : ℕ) : Drawn w.store (w.pc i) := by
  refine ((Reach.shared (I := fun _ _ => True) (L := fun s _ iso => Drawn s iso) ?_ ?_ ?_ h).2 i)
  · rintro s rfl
    refine ⟨trivial, ⟨fun _ _ hb => ?_, fun _ hr => ?_⟩⟩
    · cases hb
    · cases hr
  · exact fun w i s' iso' ev _ _ _ hd hst => ⟨trivial, drawn_step hst hd⟩
  · intro w i j s' iso' ev _ _ _ _ hi hj hst
    refine ⟨fun date batch hb => ?_, (drawn_step hst hi).sent⟩
    exact ⟨(hj.frozen _ _ hb).1, (hj.frozen _ _ hb).2.trans_le (hst.uuids_le)⟩

/-- Two isolates never hold the same id. -/
def Apart (iso iso' : Isolate) : Prop := ∀ date batch date' batch',
  iso.coordinatorDeltaByDate.lookup date = some batch →
  iso'.coordinatorDeltaByDate.lookup date' = some batch' → batch.id ≠ batch'.id

theorem drawn_apart (h : Reachable (quota kv shardId) w) {i j : ℕ} (hij : i ≠ j) :
    Apart (w.pc i) (w.pc j) := by
  refine Reach.pairwise (Q := Apart) ?_ ?_ ?_ h i j hij
  · exact fun l m hlm date batch date' batch' hb hb' heq => hlm _ _ _ _ hb' hb heq.symm
  · intro date batch _ _ hb
    cases hb
  · intro w i j s' iso' ev hw _ hne hapart hst date batch date' batch' hb hb' heq
    rcases hst.kept hb with hb | ⟨hid, -⟩
    · exact hapart _ _ _ _ hb hb' heq
    · have hold := ((drawn_reach hw j).frozen _ _ hb').2
      rw [← heq, hid] at hold
      exact lt_irrefl _ hold

/-- Wherever an id is frozen or sent, it stands for one delta. -/
theorem sent_delta (h : Reachable (quota kv shardId) w) : ∀ i date batch,
    (w.pc i).coordinatorDeltaByDate.lookup date = some batch →
    ∀ r ∈ w.store.sent, r.deltaId = batch.id → r.rows = batch.delta := by
  refine Reach.invariant (I := fun w => ∀ i date batch,
    (w.pc i).coordinatorDeltaByDate.lookup date = some batch →
    ∀ r ∈ w.store.sent, r.deltaId = batch.id → r.rows = batch.delta) ?_ ?_ h
  · rintro s rfl i date batch hb
    cases hb
  · intro w i s' iso' ev hw ih _ hst j date batch hb r hr hid
    have hw' := Reach.next i hw trivial hst
    rcases hst.sentBy hr with hr' | ⟨date', batch', now, hb', rfl⟩
    · by_cases hj : j = i
      · subst hj
        rw [advance_pc_self] at hb
        rcases hst.kept hb with hb | ⟨hnew, -⟩
        · exact ih _ _ _ hb r hr' hid
        · have hold := ((drawn_reach hw j).sent r hr').2
          rw [hid, hnew] at hold
          exact absurd hold (lt_irrefl _)
      · rw [advance_pc_ne _ _ _ _ hj] at hb
        exact ih _ _ _ hb r hr' hid
    · by_cases hj : j = i
      · subst hj
        rw [advance_pc_self] at hb
        have hdate : date' = date := by
          have hown := (drawn_reach hw' j).frozen
          rw [advance_pc_self] at hown
          rw [← (hown _ _ hb').1, ← (hown _ _ hb).1]
          exact congrArg _ hid
        rw [hdate, hb] at hb'
        cases hb'
        rfl
      · refine absurd hid ?_
        refine drawn_apart hw' (Ne.symm hj) date' batch' date batch ?_ hb
        rw [advance_pc_self]
        exact hb'

/-! ### The coordinator's book -/

/-- An answer that the history accounts for. -/
structure Backed (τ : List Event) (a : DeltaId × Answer) : Prop where
  counted : ∀ duplicate snapshot today, a.2 = .ok duplicate snapshot today →
    ∃ delta, .added a.1.utcDate a.1 delta ∈ τ
  expired : a.2 = .expired → .expired a.1.utcDate ∈ τ

theorem Backed.later {a : DeltaId × Answer} (h : Backed τ a) (ev : List Event) : Backed (ev ++ τ) a := by
  refine ⟨fun d s t ha => ?_, fun ha => List.mem_append_right _ (h.expired ha)⟩
  obtain ⟨delta, hadd⟩ := h.counted d s t ha
  exact ⟨delta, List.mem_append_right _ hadd⟩

/-- What the coordinator's storage and answers say about the history. -/
structure Book (s : Shared) (τ : List Event) : Prop where
  sent : ∀ date id delta, .added date id delta ∈ τ →
    ∃ r ∈ s.sent, r.utcDate = date ∧ r.deltaId = id ∧ r.rows = delta
  cleaned : ∀ floor, s.coordinator.retentionFloor = some floor → .cleaned floor ∈ τ
  marked : ∀ date id delta, .added date id delta ∈ τ → s.coordinator.Marked date id ∨
    ∃ floor, s.coordinator.retentionFloor = some floor ∧ date < floor
  added : ∀ date id, s.coordinator.Marked date id → ∃ delta, .added date id delta ∈ τ
  once : (addedIds τ).Nodup
  answers : ∀ a ∈ s.answers, Backed τ a
  rows : ∀ D, (∀ floor, .cleaned floor ∈ τ → floor ≤ D) →
    s.coordinator.rowsOf D = ((addedOn D τ).map (·.2)).sum

theorem Silent.mem_added (hev : Silent ev) {date : Date} {id : DeltaId} {delta : QuotaDelta} :
    .added date id delta ∈ ev ++ τ ↔ .added date id delta ∈ τ := by
  rw [List.mem_append, or_iff_right]
  intro h
  cases (hev _ h).1

theorem Silent.mem_cleaned (hev : Silent ev) {floor : Date} :
    .cleaned floor ∈ ev ++ τ ↔ .cleaned floor ∈ τ := by
  rw [List.mem_append, or_iff_right]
  intro h
  exact (hev _ h).2 floor rfl

/-- Nothing is counted or cleaned; requests and backed answers may be added. -/
theorem Book.quiet (h : Book s τ) (hev : Silent ev) (hq : Quiet s.coordinator s'.coordinator)
    (hsent : ∀ r ∈ s.sent, r ∈ s'.sent)
    (hans : ∀ a ∈ s'.answers, a ∈ s.answers ∨ Backed (ev ++ τ) a) : Book s' (ev ++ τ) where
  sent date id delta hadd := by
    obtain ⟨r, hr, hkey⟩ := h.sent _ _ _ (hev.mem_added.mp hadd)
    exact ⟨r, hsent r hr, hkey⟩
  cleaned floor hf := List.mem_append_right _ (h.cleaned floor (hq.floor ▸ hf))
  marked date id delta hadd := by
    rw [Coordinator.Marked, hq.deltas, hq.floor]
    exact h.marked _ _ _ (hev.mem_added.mp hadd)
  added date id hm := by
    rw [Coordinator.Marked, hq.deltas] at hm
    obtain ⟨delta, hadd⟩ := h.added _ _ hm
    exact ⟨delta, List.mem_append_right _ hadd⟩
  once := by
    rw [addedIds, addition_silent hev]
    exact h.once
  answers a ha := by
    rcases hans a ha with ha | ha
    · exact (h.answers a ha).later ev
    · exact ha
  rows D hD := by
    rw [hq.rows, addedOn, addition_silent hev]
    exact h.rows D fun floor hf => hD floor (List.mem_append_right _ hf)

theorem additions_quiet {c c' : Coordinator} {body : DeltaRequest} (h : Quiet c c') :
    additions c c' body = [] := by
  rw [additions, h.deltas, if_neg]
  rintro ⟨hno, hyes⟩
  exact hno hyes

theorem additions_counts {c c' : Coordinator} {body : DeltaRequest} (h : Counts c c' body)
    (hnew : ¬ c.Marked body.utcDate body.deltaId) :
    additions c c' body = [.added body.utcDate body.deltaId body.rows] := by
  rw [additions, h.deltas, AList.lookup_insert, if_pos ⟨hnew, rfl⟩]

theorem silent_expiries (body : DeltaRequest) (a : Option Answer) : Silent (expiries body a) := by
  intro e he
  unfold expiries at he
  split at he
  · obtain rfl := List.mem_singleton.mp he
    exact ⟨rfl, fun _ h => by cases h⟩
  · cases he

/-- All that a request can put on the trace. -/
theorem handle_events {c c' : Coordinator} {body : DeltaRequest} {a : Option Answer} {e : Event}
    (h : e ∈ additions c c' body ++ expiries body a) :
    e = .added body.utcDate body.deltaId body.rows ∨ e = .expired body.utcDate := by
  rcases List.mem_append.mp h with he | he
  · rw [additions] at he
    split at he
    · exact .inl (List.mem_singleton.mp he)
    · cases he
  · unfold expiries at he
    split at he
    · exact .inr (List.mem_singleton.mp he)
    · cases he

/-- All that a cleanup can put on the trace. -/
theorem cleanup_events {floor : Option Date} {e : Event} (h : e ∈ (floor.map Event.cleaned).toList) :
    ∃ f, e = .cleaned f := by
  obtain ⟨f, -, rfl⟩ := Option.map_eq_some_iff.mp (Option.mem_toList.mp h)
  exact ⟨f, rfl⟩

theorem expiries_of_ne {body : DeltaRequest} {a : Option Answer} (h : a ≠ some .expired) :
    expiries body a = [] := by
  unfold expiries
  split
  · exact absurd rfl h
  · rfl

theorem Book.handle (h : Book s τ) (hsent : ∀ r ∈ s.sent, r.deltaId.utcDate = r.utcDate)
    {body : DeltaRequest} (hbody : body ∈ s.sent) (now : ℤ) (fault : Fault)
    (hs' : s' = { s with
      coordinator := (s.coordinator.handle kv body now fault).1
      answers := ((s.coordinator.handle kv body now fault).2.map fun a => (body.deltaId, a)).toList ++
        s.answers }) :
    Book s' (additions s.coordinator (s.coordinator.handle kv body now fault).1 body ++
      expiries body (s.coordinator.handle kv body now fault).2 ++ τ) := by
  have hdate := hsent body hbody
  generalize hout : s.coordinator.handle kv body now fault = out at hs' ⊢
  have hhandled := handle_cases kv s.coordinator body now fault
  rw [hout] at hhandled
  obtain ⟨c', answer⟩ := out
  subst hs'
  simp only [Handled] at hhandled
  rcases hhandled with ⟨hquiet, hok, hexpired⟩ | ⟨hcounts, hnew, ⟨floor, hfloor, hle⟩, hlive⟩
  · rw [additions_quiet hquiet, List.nil_append]
    refine h.quiet (silent_expiries body answer) hquiet (fun _ hr => hr) fun a ha => ?_
    rcases List.mem_append.mp ha with ha | ha
    · obtain ⟨a, rfl, rfl⟩ := Option.map_eq_some_iff.mp (Option.mem_toList.mp ha)
      refine .inr ⟨fun duplicate snapshot today hak => ?_, fun hexp => ?_⟩
      · obtain ⟨delta, hadd⟩ := h.added _ _ (hok duplicate snapshot today (by rw [← hak]))
        rw [hdate]
        exact ⟨delta, List.mem_append_right _ hadd⟩
      · rw [show a = .expired from hexp, hdate]
        exact List.mem_append_left _ List.mem_cons_self
    · exact .inl ha
  · rw [additions_counts hcounts hnew, expiries_of_ne hlive, List.append_nil, List.singleton_append]
    -- an id that was counted before is marked or below the floor, and this one is neither
    have hfresh : body.deltaId ∉ addedIds τ := by
      intro hmem
      obtain ⟨date, delta, hadd⟩ := mem_addedIds.mp hmem
      obtain ⟨r, hr, rfl, hid, -⟩ := h.sent _ _ _ hadd
      have hsame : r.utcDate = body.utcDate := by rw [← hsent r hr, hid, hdate]
      rcases h.marked _ _ _ hadd with hm | ⟨persisted, hp, hlt⟩
      · rw [hsame] at hm
        exact hnew hm
      · have hmono := floorAt_mono hfloor hp
        rw [hsame] at hlt
        exact absurd (hlt.trans_le hmono) (not_lt.mpr hle)
    refine ⟨fun date id delta hadd => ?_, fun floor hf => ?_, fun date id delta hadd => ?_,
      fun date id hm => ?_, ?_, fun a ha => ?_, fun D hD => ?_⟩
    · rcases List.mem_cons.mp hadd with heq | hadd
      · cases heq
        exact ⟨body, hbody, rfl, rfl, rfl⟩
      · exact h.sent _ _ _ hadd
    · exact List.mem_cons_of_mem _ (h.cleaned floor (hcounts.floor ▸ hf))
    · simp only [Coordinator.Marked, hcounts.deltas, hcounts.floor, lookup_put]
      rcases List.mem_cons.mp hadd with heq | hadd
      · cases heq
        exact .inl (if_pos rfl)
      · refine (h.marked _ _ _ hadd).imp_left fun hm => ?_
        split
        · rfl
        · exact hm
    · simp only [Coordinator.Marked, hcounts.deltas, lookup_put] at hm
      split at hm
      · rename_i heq
        cases heq
        exact ⟨body.rows, List.mem_cons_self⟩
      · obtain ⟨delta, hadd⟩ := h.added _ _ hm
        exact ⟨delta, List.mem_cons_of_mem _ hadd⟩
    · exact List.nodup_cons.mpr ⟨hfresh, h.once⟩
    · rcases List.mem_append.mp ha with ha | ha
      · obtain ⟨a, rfl, rfl⟩ := Option.map_eq_some_iff.mp (Option.mem_toList.mp ha)
        refine ⟨fun _ _ _ _ => ⟨body.rows, ?_⟩, fun hexp => absurd (congrArg some hexp) hlive⟩
        rw [hdate]
        exact List.mem_cons_self
      · exact (h.answers a ha).later [_]
    · have hold := h.rows D fun floor hf => hD floor (List.mem_cons_of_mem _ hf)
      simp only [hcounts.rows, hold, addedOn, List.filterMap_cons, Event.addition]
      by_cases hday : body.utcDate = D
      · rw [if_pos hday.symm, List.filter_cons_of_pos (by simpa using hday), List.map_cons,
          List.map_cons, List.sum_cons, add_comm]
      · rw [if_neg (Ne.symm hday), List.filter_cons_of_neg (by simpa using hday), add_zero]

theorem Book.cleanup (h : Book s τ) (now : ℤ) (stop : CleanupStop) :
    Book { s with coordinator := s.coordinator.cleanup now stop }
      (((s.coordinator.floorAt now).map Event.cleaned).toList ++ τ) := by
  rcases cleanup_cases s.coordinator now stop with ⟨hkeep, hnone⟩ | ⟨floor, hfloor, hp, hless, hmore, hrows⟩
  · rw [hnone, hkeep]
    exact h
  rw [hfloor, Option.map_some, Option.toList_some, List.singleton_append]
  refine ⟨fun date id delta hadd => ?_, fun f hf => ?_, fun date id delta hadd => ?_,
    fun date id hm => ?_, h.once, fun a ha => (h.answers a ha).later [_], fun D hD => ?_⟩
  · rcases List.mem_cons.mp hadd with heq | hadd
    · cases heq
    · exact h.sent _ _ _ hadd
  · obtain rfl := Option.some.inj (hp.symm.trans hf)
    exact List.mem_cons_self
  · rcases List.mem_cons.mp hadd with heq | hadd
    · cases heq
    · rcases h.marked _ _ _ hadd with hm | ⟨persisted, hpersisted, hlt⟩
      · exact (hmore _ _ hm).imp_right fun hlt => ⟨floor, hp, hlt⟩
      · exact .inr ⟨floor, hp, hlt.trans_le (floorAt_mono hfloor hpersisted)⟩
  · obtain ⟨delta, hadd⟩ := h.added _ _ (hless _ _ hm)
    exact ⟨delta, List.mem_cons_of_mem _ hadd⟩
  · rw [hrows D (hD floor List.mem_cons_self)]
    exact h.rows D fun f hf => hD f (List.mem_cons_of_mem _ hf)

theorem book_step (h : QuotaStep kv shardId s iso s' iso' ev) (hd : Drawn s iso) (hb : Book s τ) :
    Book s' (ev ++ τ) := by
  have hnote : ∀ {e : Event}, e.addition = none → (∀ floor, e ≠ .cleaned floor) → Silent [e] := by
    intro e hadd hcl e' he'
    obtain rfl := List.mem_singleton.mp he'
    exact ⟨hadd, hcl⟩
  cases h with
  | record now delta =>
    exact hb.quiet (hnote rfl fun _ h => by cases h) (.refl _) (fun _ hr => hr) fun _ ha => .inl ha
  | flush | retry =>
    exact hb.quiet (fun _ he => by cases he) (.refl _) (fun _ hr => List.mem_cons_of_mem _ hr)
      fun _ ha => .inl ha
  | handle now fault hbody => exact hb.handle (fun r hr => (hd.sent r hr).1) hbody now fault rfl
  | cleanup now stop => exact hb.cleanup now stop
  | acknowledge | expire =>
    exact hb.quiet (hnote rfl fun _ h => by cases h) (.refl _) (fun _ hr => hr) fun _ ha => .inl ha
  | giveUp =>
    exact hb.quiet (fun _ he => by cases he) (.refl _) (fun _ hr => hr) fun _ ha => .inl ha

theorem book_reach (h : Reachable (quota kv shardId) w) : Book w.store w.trace := by
  refine Reach.invariant (I := fun w => Book w.store w.trace) ?_ ?_ h
  · rintro s rfl
    refine ⟨fun _ _ _ h => ?_, fun _ h => ?_, fun _ _ _ h => ?_, fun _ _ h => ?_, List.nodup_nil,
      fun _ h => ?_, fun D _ => rfl⟩
    all_goals cases h
  · exact fun w i s' iso' ev hw hb _ hst => book_step hst (drawn_reach hw i) hb

/-! ### Acknowledgements -/

/-- A frozen batch is part of what its bucket holds. -/
def Covered (iso : Isolate) : Prop := ∀ date batch,
  iso.coordinatorDeltaByDate.lookup date = some batch → batch.delta ≤ heldOn date iso.pendingByDate

theorem covered_step (h : QuotaStep kv shardId s iso s' iso' ev) (hc : Covered iso) : Covered iso' := by
  intro day batch hb
  cases h with
  | record now delta =>
    have hold : iso.coordinatorDeltaByDate.lookup day = some batch := by
      rw [recordD1Quota] at hb
      split at hb <;> exact hb
    rw [heldOn_record]
    exact (hc day batch hold).trans ⟨Nat.le_add_right _ _, Nat.le_add_right _ _⟩
  | flush now hidle hhead hnone =>
    rw [lookup_put] at hb
    split at hb
    · rename_i hday
      cases hb
      rw [hday]
      exact le_rfl
    · exact hc day batch hb
  | retry | handle | cleanup | giveUp => exact hc day batch hb
  | @acknowledge date batch' _ _ _ hflight hb' hans =>
    rw [Isolate.acknowledge, lookup_del] at hb
    split at hb
    · cases hb
    · rename_i hday
      have hkeep : heldOn day (iso.acknowledge date batch').pendingByDate + _ = _ :=
        heldOn_acknowledge (hc date batch' hb')
      rw [if_neg (Ne.symm hday), add_zero] at hkeep
      rw [hkeep]
      exact hc day batch hb
  | expire hflight hb' hans =>
    rw [Isolate.expire, lookup_del] at hb
    split at hb
    · cases hb
    · rename_i hday
      rw [Isolate.expire, heldOn_dropDate, if_neg hday]
      exact hc day batch hb

theorem covered_reach (h : Reachable (quota kv shardId) w) (i : ℕ) : Covered (w.pc i) := by
  refine ((Reach.shared (I := fun _ _ => True) (L := fun _ _ iso => Covered iso) ?_ ?_ ?_ h).2 i)
  · refine fun s _ => ⟨trivial, fun _ _ hb => ?_⟩
    cases hb
  · exact fun w i s' iso' ev _ _ _ hc hst => ⟨trivial, covered_step hst hc⟩
  · exact fun w i j s' iso' ev _ _ _ _ _ hj _ => hj

/-- The delta under an id that was counted is the frozen one. -/
theorem added_delta (h : Reachable (quota kv shardId) w) {i : ℕ} {delta : QuotaDelta}
    (hb : (w.pc i).coordinatorDeltaByDate.lookup date = some batch)
    (hadd : .added D batch.id delta ∈ w.trace) : delta = batch.delta := by
  obtain ⟨r, hr, -, hid, rfl⟩ := (book_reach h).sent _ _ _ hadd
  exact sent_delta h i date batch hb r hr hid

/-- The acknowledgements so far, against the batches still held. -/
structure Settled (w : World Shared Isolate Event) : Prop where
  once : (acknowledgedIds w.trace).Nodup
  added : ∀ id delta, .acknowledged id delta ∈ w.trace → .added id.utcDate id delta ∈ w.trace
  unsettled : ∀ i date batch, (w.pc i).coordinatorDeltaByDate.lookup date = some batch →
    batch.id ∉ acknowledgedIds w.trace

/-- The acknowledgement a step makes, if any. -/
theorem QuotaStep.acknowledged (h : QuotaStep kv shardId s iso s' iso' ev) :
    ev.filterMap Event.acknowledgement = [] ∨
      ∃ date batch, iso.coordinatorDeltaByDate.lookup date = some batch ∧
        iso' = iso.acknowledge date batch ∧ ev = [.acknowledged batch.id batch.delta] ∧
        ∃ duplicate snapshot today, (batch.id, .ok duplicate snapshot today) ∈ s.answers := by
  cases h with
  | acknowledge hflight hb hans => exact .inr ⟨_, _, hb, rfl, rfl, _, _, _, hans⟩
  | handle now fault hbody =>
    refine .inl (List.filterMap_eq_nil_iff.mpr fun e he => ?_)
    rcases handle_events he with rfl | rfl
    · rfl
    · rfl
  | cleanup now stop =>
    refine .inl (List.filterMap_eq_nil_iff.mpr fun e he => ?_)
    obtain ⟨f, rfl⟩ := cleanup_events he
    rfl
  | record | flush | retry | expire | giveUp => exact .inl rfl

theorem acknowledgedIds_append : acknowledgedIds (ev ++ τ) = acknowledgedIds ev ++ acknowledgedIds τ := by
  rw [acknowledgedIds, List.filterMap_append, List.map_append, acknowledgedIds, acknowledgedIds]

theorem settled_reach (h : Reachable (quota kv shardId) w) : Settled w := by
  refine Reach.invariant (I := Settled) ?_ ?_ h
  · rintro s rfl
    refine ⟨List.nodup_nil, fun _ _ hack => ?_, fun _ _ _ hb => ?_⟩
    · cases hack
    · cases hb
  · intro w i s' iso' ev hw hold _ hst
    have hbook := book_reach hw
    -- a batch held after the step was held before, or its id is new
    have hunsettled : ∀ j date batch,
        ((w.advance i s' iso' ev).pc j).coordinatorDeltaByDate.lookup date = some batch →
        batch.id ∉ acknowledgedIds w.trace := by
      intro j date batch hb
      have hnew : batch.id = ⟨date, w.store.uuids⟩ → batch.id ∉ acknowledgedIds w.trace := by
        intro hid hmem
        obtain ⟨delta, hack⟩ := mem_acknowledgedIds.mp hmem
        obtain ⟨r, hr, -, hrid, -⟩ := hbook.sent _ _ _ (hold.added _ _ hack)
        have hlt := ((drawn_reach hw i).sent r hr).2
        rw [hrid, hid] at hlt
        exact lt_irrefl _ hlt
      by_cases hj : j = i
      · subst hj
        rw [advance_pc_self] at hb
        rcases hst.kept hb with hb | ⟨hid, -⟩
        · exact hold.unsettled _ _ _ hb
        · exact hnew hid
      · rw [advance_pc_ne _ _ _ _ hj] at hb
        exact hold.unsettled _ _ _ hb
    rcases hst.acknowledged with hnone | ⟨date, batch, hb, rfl, rfl, duplicate, snapshot, today, hans⟩
    · have hids : acknowledgedIds (ev ++ w.trace) = acknowledgedIds w.trace := by
        rw [acknowledgedIds_append, acknowledgedIds, hnone, List.map_nil, List.nil_append]
      refine ⟨?_, fun id delta hack => ?_, fun j date batch hb => ?_⟩
      · rw [advance_trace, hids]
        exact hold.once
      · rcases List.mem_append.mp hack with hack | hack
        · cases List.filterMap_eq_nil_iff.mp hnone _ hack
        · exact List.mem_append_right _ (hold.added _ _ hack)
      · rw [advance_trace, hids]
        exact hunsettled j date batch hb
    · refine ⟨?_, fun id delta hack => ?_, fun j date' batch' hb' => ?_⟩
      · exact List.nodup_cons.mpr ⟨hold.unsettled _ _ _ hb, hold.once⟩
      · rcases List.mem_cons.mp hack with heq | hack
        · cases heq
          obtain ⟨delta, hadd⟩ := (hbook.answers _ hans).counted _ _ _ rfl
          rw [← added_delta hw hb hadd]
          exact List.mem_cons_of_mem _ hadd
        · exact List.mem_cons_of_mem _ (hold.added _ _ hack)
      · refine fun hmem => ?_
        rcases List.mem_cons.mp hmem with hid | hmem
        · by_cases hj : j = i
          · subst hj
            rw [advance_pc_self, Isolate.acknowledge, lookup_del] at hb'
            split at hb'
            · cases hb'
            · rename_i hday
              have hown := (drawn_reach hw j).frozen
              exact hday (by rw [← (hown _ _ hb').1, hid, (hown _ _ hb).1])
          · rw [advance_pc_ne _ _ _ _ hj] at hb'
            exact drawn_apart hw hj _ _ _ _ hb' hb hid
        · exact hunsettled j date' batch' hb' hmem

/-! ### What was sent is held until it is acknowledged -/

/-- A step lets go of a batch only when it is acknowledged or its date is expired. -/
theorem QuotaStep.keeps (h : QuotaStep kv shardId s iso s' iso' ev)
    (hb : iso.coordinatorDeltaByDate.lookup date = some batch) :
    iso'.coordinatorDeltaByDate.lookup date = some batch ∨ .acknowledged batch.id batch.delta ∈ ev ∨
      (batch.id, .expired) ∈ s.answers := by
  cases h with
  | record now delta =>
    rw [recordD1Quota]
    split <;> exact .inl hb
  | @flush bucket now hidle hhead hnone =>
    refine .inl ?_
    rw [lookup_put, if_neg]
    · exact hb
    · rintro rfl
      rw [hnone] at hb
      cases hb
  | retry | handle | cleanup | giveUp => exact .inl hb
  | @acknowledge day batch' _ _ _ hflight hb' hans =>
    by_cases hday : date = day
    · subst hday
      obtain rfl := Option.some.inj (hb.symm.trans hb')
      exact .inr (.inl List.mem_cons_self)
    · refine .inl ?_
      rw [Isolate.acknowledge, lookup_del, if_neg hday]
      exact hb
  | @expire day batch' hflight hb' hans =>
    by_cases hday : date = day
    · subst hday
      obtain rfl := Option.some.inj (hb.symm.trans hb')
      exact .inr (.inr hans)
    · refine .inl ?_
      rw [Isolate.expire, lookup_del, if_neg hday]
      exact hb

theorem held_until_acknowledged (h : Reachable (quota kv shardId) w) : ∀ r ∈ w.store.sent,
    r.deltaId ∉ acknowledgedIds w.trace → .expired r.utcDate ∉ w.trace →
    ∃ i, (w.pc i).coordinatorDeltaByDate.lookup r.utcDate = some ⟨r.deltaId, r.rows⟩ := by
  refine Reach.invariant (I := fun w => ∀ r ∈ w.store.sent,
    r.deltaId ∉ acknowledgedIds w.trace → .expired r.utcDate ∉ w.trace →
    ∃ i, (w.pc i).coordinatorDeltaByDate.lookup r.utcDate = some ⟨r.deltaId, r.rows⟩) ?_ ?_ h
  · rintro s rfl r hr
    cases hr
  · intro w i s' iso' ev hw ih _ hst r hr hack hexp
    have hown := (drawn_reach (Reach.next i hw trivial hst) i).frozen
    rw [advance_pc_self] at hown
    rcases hst.sentBy hr with hold | ⟨date, batch, now, hb, rfl⟩
    · rw [advance_trace, acknowledgedIds_append] at hack
      obtain ⟨j, hj⟩ := ih r hold (fun h => hack (List.mem_append_right _ h))
        fun h => hexp (List.mem_append_right _ h)
      refine ⟨j, ?_⟩
      by_cases hji : j = i
      · subst hji
        rw [advance_pc_self]
        rcases hst.keeps hj with hkept | hacked | hexpired
        · exact hkept
        · exact absurd (List.mem_append_left _ (mem_acknowledgedIds.mpr ⟨_, hacked⟩)) hack
        · refine absurd (List.mem_append_right _ ?_) hexp
          have hdate := ((drawn_reach hw j).sent r hold).1
          have hbacked := ((book_reach hw).answers _ hexpired).expired rfl
          rw [hdate] at hbacked
          exact hbacked
      · rw [advance_pc_ne _ _ _ _ hji]
        exact hj
    · refine ⟨i, ?_⟩
      rw [advance_pc_self]
      rw [← (hown _ _ hb).1] at hb
      exact hb

/-! ### The balance -/

/-- What a step changes of a bucket is what it recorded, acknowledged or dropped. -/
theorem held_step (D : Date) (h : QuotaStep kv shardId s iso s' iso' ev) (hc : Covered iso)
    (hd : Drawn s iso) :
    heldOn D iso'.pendingByDate + (ev.map (Event.releasedOn D)).sum =
      heldOn D iso.pendingByDate + (ev.map (Event.recordedOn D)).sum := by
  cases h with
  | record now delta =>
    simp only [List.map_cons, List.map_nil, List.sum_cons, List.sum_nil, Event.releasedOn,
      Event.recordedOn, add_zero]
    exact heldOn_record
  | flush | retry | giveUp => rfl
  | handle now fault hbody =>
    refine congrArg _ (congrArg _ (List.map_congr_left fun e he => ?_))
    rcases handle_events he with rfl | rfl
    · rfl
    · rfl
  | cleanup now stop =>
    refine congrArg _ (congrArg _ (List.map_congr_left fun e he => ?_))
    obtain ⟨f, rfl⟩ := cleanup_events he
    rfl
  | @acknowledge date batch _ _ _ hflight hb hans =>
    simp only [List.map_cons, List.map_nil, List.sum_cons, List.sum_nil, Event.releasedOn,
      Event.recordedOn, add_zero, (hd.frozen _ _ hb).1]
    exact heldOn_acknowledge (hc _ _ hb)
  | @expire date batch hflight hb hans =>
    simp only [List.map_cons, List.map_nil, List.sum_cons, List.sum_nil, Event.releasedOn,
      Event.recordedOn, add_zero, Isolate.expire, heldOn_dropDate]
    by_cases hday : D = date
    · subst hday
      rw [if_pos rfl, if_pos rfl, zero_add]
    · rw [if_neg hday, if_neg (Ne.symm hday), add_zero]

theorem dropped_expired (h : Reachable (quota kv shardId) w) : ∀ date delta,
    .dropped date delta ∈ w.trace → .expired date ∈ w.trace := by
  refine Reach.invariant (I := fun w => ∀ date delta, .dropped date delta ∈ w.trace →
    .expired date ∈ w.trace) ?_ ?_ h
  · rintro s - date delta hdrop
    cases hdrop
  · intro w i s' iso' ev hw ih _ hst date delta hdrop
    refine List.mem_append_right _ ?_
    rw [advance_trace, List.mem_append] at hdrop
    rcases hdrop with hdrop | hdrop
    · generalize hiso : w.pc i = iso at hst
      cases hst with
      | @expire day batch hflight hb hans =>
        cases List.mem_singleton.mp hdrop
        have hbacked := ((book_reach hw).answers _ hans).expired rfl
        rw [← hiso] at hb
        rw [((drawn_reach hw i).frozen _ _ hb).1] at hbacked
        exact hbacked
      | record | acknowledge => cases List.mem_singleton.mp hdrop
      | flush | retry | giveUp => cases hdrop
      | handle now fault hbody => rcases handle_events hdrop with he | he <;> cases he
      | cleanup now stop =>
        obtain ⟨f, he⟩ := cleanup_events hdrop
        cases he
    · exact ih _ _ hdrop

theorem added_unique (h : (addedIds τ).Nodup) {id : DeltaId} {delta delta' : QuotaDelta}
    (hd : .added date id delta ∈ τ) (hd' : .added D id delta' ∈ τ) : date = D ∧ delta = delta' := by
  have hmem : (date, id, delta) ∈ τ.filterMap Event.addition := List.mem_filterMap.mpr ⟨_, hd, rfl⟩
  have hmem' : (D, id, delta') ∈ τ.filterMap Event.addition := List.mem_filterMap.mpr ⟨_, hd', rfl⟩
  have heq := eq_of_key h hmem hmem' rfl
  exact ⟨congrArg (·.1) heq, congrArg (·.2.2) heq⟩

/-- The counted deltas of a date are the acknowledged ones and the others. -/
theorem addedOn_split (h : Reachable (quota kv shardId) w) (D : Date) :
    ((addedOn D w.trace).map (·.2)).sum =
      ((acknowledgedOn D w.trace).map (·.2)).sum + ((unacknowledgedOn D w.trace).map (·.2)).sum := by
  have hbook := book_reach h
  have hsettled := settled_reach h
  have hsub : ((addedOn D w.trace).map (·.1)).Sublist (addedIds w.trace) := by
    rw [addedOn, List.map_map, addedIds]
    exact List.filter_sublist.map _
  have hadded : (addedOn D w.trace).Nodup := (hbook.once.sublist hsub).of_map _
  have hacked : (acknowledgedOn D w.trace).Nodup := (hsettled.once.of_map _).filter _
  have hperm : ((addedOn D w.trace).filter (·.1 ∈ acknowledgedIds w.trace)).Perm
      (acknowledgedOn D w.trace) := by
    refine (List.perm_ext_iff_of_nodup (hadded.filter _) hacked).mpr fun e => ?_
    rw [List.mem_filter, mem_addedOn, decide_eq_true_eq, mem_acknowledgedIds, mem_acknowledgedOn]
    constructor
    · rintro ⟨hadd, delta, hack⟩
      obtain ⟨hD, hdelta⟩ := added_unique hbook.once hadd (hsettled.added _ _ hack)
      rw [hdelta]
      exact ⟨hack, hD.symm⟩
    · rintro ⟨hack, rfl⟩
      exact ⟨hsettled.added _ _ hack, _, hack⟩
  rw [← (hperm.map _).sum_eq, unacknowledgedOn, ← List.sum_append, ← List.map_append]
  have hsplit := (List.filter_append_perm (fun e : DeltaId × QuotaDelta =>
    decide (e.1 ∈ acknowledgedIds w.trace)) (addedOn D w.trace)).map (·.2)
  rw [← hsplit.sum_eq]
  simp

/-- Without an expiry, only acknowledgements take something out of the buckets of the date. -/
theorem releasedOn_sum (h : ∀ delta, .dropped D delta ∉ τ) :
    (τ.map (Event.releasedOn D)).sum = ((acknowledgedOn D τ).map (·.2)).sum := by
  induction τ with
  | nil => rfl
  | cons e τ ih =>
    have hrest := ih fun delta hmem => h delta (List.mem_cons_of_mem _ hmem)
    rw [List.map_cons, List.sum_cons, hrest, acknowledgedOn, acknowledgedOn]
    cases e with
    | acknowledged id delta =>
      by_cases hdate : id.utcDate = D
      · simp [Event.acknowledgement, Event.releasedOn, hdate]
      · simp [Event.acknowledgement, Event.releasedOn, hdate]
    | dropped date delta =>
      have hdate : date ≠ D := fun heq => h delta (heq ▸ List.mem_cons_self)
      simp [List.filterMap_cons, Event.acknowledgement, Event.releasedOn, hdate]
    | recorded | expired | cleaned | added => simp [List.filterMap_cons, Event.acknowledgement, Event.releasedOn]

/-- In every run of any number of isolates no id is counted twice. For a date that never expired, what the
    coordinator counted and what the isolates still hold are together what the isolates recorded, plus
    the counted batches whose acknowledgement is outstanding; each of those is still frozen at an
    isolate, and is part of what that isolate holds. -/
theorem counted_once (kv : Bool) (shardId : JsString) {w : World Shared Isolate Event}
    (h : Reachable (quota kv shardId) w) :
    (addedIds w.trace).Nodup ∧ ∀ D, ¬ Expired w.trace D →
      (∃ n, w.IdleFrom (quota kv shardId) n ∧ ∀ m, n ≤ m →
        w.store.coordinator.rowsOf D + w.sum (fun iso => heldOn D iso.pendingByDate) m =
          (w.trace.map (Event.recordedOn D)).sum + ((unacknowledgedOn D w.trace).map (·.2)).sum) ∧
      ((unacknowledgedOn D w.trace).map (·.1)).Nodup ∧
      ∀ e ∈ unacknowledgedOn D w.trace, ∃ i,
        (w.pc i).coordinatorDeltaByDate.lookup D = some ⟨e.1, e.2⟩ ∧
        e.2 ≤ heldOn D (w.pc i).pendingByDate := by
  have hbook := book_reach h
  refine ⟨hbook.once, fun D hlive => ⟨?_, ?_, fun e he => ?_⟩⟩
  · have hlaw := Reach.conserved (fun iso => heldOn D iso.pendingByDate) (Event.recordedOn D)
      (Event.releasedOn D) rfl
      (fun w i s' iso' ev hw _ hst => held_step D hst (covered_reach hw i) (drawn_reach hw i)) h
    obtain ⟨n, hidle, hsum⟩ := hlaw
    refine ⟨n, hidle, fun m hm => ?_⟩
    have hrows := hbook.rows D fun floor hfloor => not_lt.mp fun hlt => hlive (.inr ⟨floor, hfloor, hlt⟩)
    have hreleased := releasedOn_sum fun delta hdrop => hlive (.inl (dropped_expired h D delta hdrop))
    have hheld := hsum m hm
    rw [hreleased] at hheld
    rw [hrows, addedOn_split h, ← hheld]
    abel
  · have hsub : ((unacknowledgedOn D w.trace).map (·.1)).Sublist (addedIds w.trace) := by
      refine (List.filter_sublist.map _).trans ?_
      rw [addedOn, List.map_map, addedIds]
      exact List.filter_sublist.map _
    exact hbook.once.sublist hsub
  · obtain ⟨hadd, hopen⟩ := List.mem_filter.mp he
    rw [mem_addedOn] at hadd
    obtain ⟨r, hr, hdate, hid, hrows⟩ := hbook.sent _ _ _ hadd
    have hheld := held_until_acknowledged h r hr (hid ▸ of_decide_eq_true hopen)
      fun hexp => hlive (.inl (hdate ▸ hexp))
    rw [hdate, hid, hrows] at hheld
    obtain ⟨i, hi⟩ := hheld
    exact ⟨i, hi, covered_reach h i _ _ hi⟩

/-- Whether the event can make a date expire. -/
def Event.expires : Event → Bool
  | .expired _ => true
  | .cleaned _ => true
  | _ => false

theorem not_expired (h : ∀ e ∈ τ, e.expires = false) : ¬ Expired τ D := by
  rintro (hexp | ⟨floor, hcleaned, -⟩)
  · cases h _ hexp
  · cases h _ hcleaned

/-- The object goes down after it has counted, and the retry is acknowledged. -/
theorem counted_once_demo : ∃ w, Reachable (quota true (js "a")) w ∧ (addedIds w.trace).Nodup ∧
    ¬ Expired w.trace (js "2026-10-09") ∧
    ∃ n, ∀ m, n ≤ m → w.store.coordinator.rowsOf (js "2026-10-09") +
      w.sum (fun iso => heldOn (js "2026-10-09") iso.pendingByDate) m =
        (w.trace.map (Event.recordedOn (js "2026-10-09"))).sum +
          ((unacknowledgedOn (js "2026-10-09") w.trace).map (·.2)).sum := by
  have h : Reachable (quota true (js "a")) ⟨⟨.empty, 0, [], []⟩, fun _ => .fresh, []⟩ := .start rfl
  have h := h.next 0 trivial (.record 1791504000000 (3, 1))
  have h := h.next 0 trivial (.flush 1791504000000 rfl
    (show List.head? _ = some (⟨js "2026-10-09", (3, 1)⟩ : Bucket) by decide +kernel) rfl)
  have h := h.next 1 trivial (.handle 1791504000000 .crash List.mem_cons_self)
  have h := h.next 0 trivial (.giveUp rfl)
  have h := h.next 0 trivial (.record 1791504000001 (2, 0))
  refine ⟨_, h, (counted_once true (js "a") h).1, not_expired (by decide +kernel), ?_⟩
  obtain ⟨n, -, hsum⟩ := ((counted_once true (js "a") h).2 _ (not_expired (by decide +kernel))).1
  exact ⟨n, hsum⟩

end OneMail.Quota
