import OneMail.Mutation.Queue

/-! One job of an email at a time, and oldest first.

    The candidate list of a claim is read one round trip before its lease batch. What keeps it good
    is that the jobs before a candidate were terminal when it was read, and terminal rows absorb:
    `Settled` survives every move of every other request (`Settled.moved`). A job that was ever
    leased is therefore settled (`Ordered.attempted`), which gives both halves of
    `claims_serialized`: two processing jobs of one email would each need the other terminal. -/

namespace OneMail.Mutation
open Interleave Table

/-- Every job of the same email with a smaller rowid is terminal. -/
def Settled (t : List JobRow) (j : JobRow) : Prop :=
  ∀ k ∈ t, k.emailId = j.emailId → k.rowid < j.rowid → k.status.terminal = true

structure Ordered (t : List JobRow) : Prop where
  rowids : t.Pairwise (·.rowid < ·.rowid)
  ids : (t.map (·.id)).Nodup
  attempted : ∀ j ∈ t, 1 ≤ j.attempts → Settled t j
  processing : ∀ j ∈ t, j.status = .processing → 1 ≤ j.attempts

/-- What a request may still rely on after the other requests have moved. -/
def Call.Sound (t : List JobRow) : Call → Prop
  | .inserted row intent id _ | .superseded row intent id _ => Owned t row intent id
  | .selected _ _ candidates => ∀ c ∈ candidates, ∃ j ∈ t, j.id = c.id ∧ Settled t j
  | .fetched _ job | .compared _ job _ | .writing _ job _ _ =>
    ∃ k ∈ t, SameKey job k ∧ 1 ≤ k.attempts
  | _ => True

variable {t u : List JobRow} {c : Call}

/-! ### One step -/

theorem Settled.moved (h : List.Forall₂ (JobMoves t c) t u) {j j' : JobRow} (hk : SameKey j j')
    (hj : Settled t j) : Settled u j' := by
  intro k' hk' he hr
  obtain ⟨k, hmem, hm⟩ := Forall₂.prev h hk'
  have key := JobMoves.key hm
  have hterm : k.status.terminal = true :=
    hj k hmem (by rw [← key.emailId, he, hk.emailId]) (by rw [← key.rowid, ← hk.rowid]; exact hr)
  rw [JobMoves.settled hm hterm]
  exact hterm

theorem Settled.append {j n : JobRow} (hn : j.rowid < n.rowid) (hj : Settled t j) :
    Settled (t ++ [n]) j := by
  intro k hk he hr
  rcases List.mem_append.mp hk with hk | hk
  · exact hj k hk he hr
  · obtain rfl := List.mem_singleton.mp hk
    omega

/-- The request is leasing, and `j` is on its candidate list. -/
def Leasing (c : Call) (j : JobRow) : Prop :=
  ∃ claim now candidates, c = .selected claim now candidates ∧ ∃ x ∈ candidates, j.id = x.id

/-- Attempts only change at a lease. -/
theorem JobMove.attempts {j j' : JobRow} (h : JobMove t c j j') :
    j'.attempts = j.attempts ∨ j'.attempts = j.attempts + 1 ∧ Leasing c j := by
  cases h with
  | lease hc hid => exact .inr ⟨rfl, _, _, _, rfl, _, hc, hid⟩
  | @close r job newer now =>
    rcases reportOutcome_spec r job newer now j with ⟨_, _, h, -⟩ | ⟨-, _, _, h⟩ <;> rw [h] <;>
      exact .inl rfl
  | _ => exact .inl rfl

theorem JobMoves.attempts {j j' : JobRow} (h : JobMoves t c j j') :
    j.attempts ≤ j'.attempts ∧ (j'.attempts = j.attempts ∨ Leasing c j) := by
  induction h with
  | refl => exact ⟨le_rfl, .inl rfl⟩
  | tail hjk hm ih =>
    rcases hm.attempts with h | ⟨h, _, _, _, hc, x, hx, hid⟩
    · exact ⟨by omega, ih.2.imp_left fun h' => h.trans h'⟩
    · exact ⟨by omega, .inr ⟨_, _, _, hc, x, hx, by rw [← hid, (JobMoves.key hjk).id]⟩⟩

/-- Only a lease makes a row processing, and it counts the attempt. -/
theorem JobMove.processing {j j' : JobRow} (h : JobMove t c j j')
    (hj' : j'.status = .processing) : 1 ≤ j'.attempts ∧ Leasing c j := by
  cases h with
  | lease hc hid => exact ⟨Nat.succ_le_succ (Nat.zero_le _), _, _, _, rfl, _, hc, hid⟩
  | relocate _ _ _ _ hb =>
    simp only [pendingBehind, Bool.and_eq_true, decide_eq_true_eq] at hb
    rw [show (relocateRow _ _ j).status = j.status from rfl, hb.1.2] at hj'
    cases hj'
  | @close r job newer now =>
    rcases reportOutcome_spec r job newer now j with ⟨_, _, h, hs⟩ | ⟨-, _, _, h⟩
    · rw [h, show (closeRow _ _ _ j).status = _ from rfl] at hj'
      rcases hs with ⟨hr, hs⟩ | ⟨-, -, hs | hs⟩
      · cases hrs : r.status <;> rw [hs, hrs] at hj' <;> cases hj'
      · rw [hs] at hj'; cases hj'
      · rw [hs] at hj'; cases hj'
    · rw [h] at hj'; cases hj'
  | _ => cases hj'

theorem JobMoves.processing {j j' : JobRow} (h : JobMoves t c j j')
    (hj' : j'.status = .processing) : j' = j ∨ 1 ≤ j'.attempts ∧ Leasing c j := by
  rcases Relation.ReflTransGen.cases_tail h with rfl | ⟨k, hjk, hm⟩
  · exact .inl rfl
  · obtain ⟨ha, _, _, _, hc, x, hx, hid⟩ := hm.processing hj'
    exact .inr ⟨ha, _, _, _, hc, x, hx, by rw [← hid, (JobMoves.key hjk).id]⟩

theorem Leasing.settled {j : JobRow} (hids : (t.map (·.id)).Nodup) (hs : c.Sound t) (hj : j ∈ t)
    (h : Leasing c j) : Settled t j := by
  obtain ⟨_, _, _, rfl, x, hx, hid⟩ := h
  obtain ⟨k, hk, hkid, hset⟩ := hs x hx
  obtain rfl : j = k := eq_of_key hids hj hk (by rw [hid, hkid])
  exact hset

/-- Every move of a sound request keeps the order. -/
theorem Ordered.moved (ho : Ordered t) (hs : c.Sound t) (h : List.Forall₂ (JobMoves t c) t u) :
    Ordered u where
  rowids := by
    have hmap : u.map (·.rowid) = t.map (·.rowid) :=
      Forall₂.map_eq (·.rowid) (fun _ _ hm => (JobMoves.key hm).rowid) h
    have := List.pairwise_map.mpr ho.rowids
    rw [← hmap] at this
    exact List.pairwise_map.mp this
  ids := by
    rw [Forall₂.map_eq (·.id) (fun _ _ hm => (JobMoves.key hm).id) h]
    exact ho.ids
  attempted j' hj' ha := by
    obtain ⟨j, hj, hm⟩ := Forall₂.prev h hj'
    refine Settled.moved h (JobMoves.key hm) ?_
    rcases (JobMoves.attempts hm).2 with hat | hl
    · exact ho.attempted j hj (by omega)
    · exact hl.settled ho.ids hs hj
  processing j' hj' hp := by
    obtain ⟨j, hj, hm⟩ := Forall₂.prev h hj'
    rcases JobMoves.processing hm hp with rfl | ⟨ha, -⟩
    · exact ho.processing _ hj hp
    · exact ha

/-- A freshly queued job: the last rowid, pending, never attempted. -/
theorem Ordered.append (ho : Ordered t) {n : JobRow} (hid : ∀ j ∈ t, j.id ≠ n.id)
    (hrow : ∀ j ∈ t, j.rowid < n.rowid) (hp : n.status = .pending) (ha : n.attempts = 0) :
    Ordered (t ++ [n]) where
  rowids := List.pairwise_append.mpr ⟨ho.rowids, List.pairwise_singleton _ _, by simpa using hrow⟩
  ids := nodup_append_key ho.ids hid
  attempted j hj hja := by
    rcases List.mem_append.mp hj with hj | hj
    · exact (ho.attempted j hj hja).append (hrow j hj)
    · obtain rfl := List.mem_singleton.mp hj
      omega
  processing j hj hjp := by
    rcases List.mem_append.mp hj with hj | hj
    · exact ho.processing j hj hjp
    · obtain rfl := List.mem_singleton.mp hj
      rw [hp] at hjp
      cases hjp

/-- A snapshot of a row outlives the moves of the others. -/
theorem snapshot_moved {p : JobRow → JobRow → Prop} {j : JobRow}
    (hp : ∀ k k', JobMoves t c k k' → p j k → p j k') (h : List.Forall₂ (JobMoves t c) t u)
    (hj : ∃ k ∈ t, p j k) : ∃ k ∈ u, p j k := by
  obtain ⟨k, hk, hjk⟩ := hj
  obtain ⟨k', hk', hm⟩ := Forall₂.next h hk
  exact ⟨k', hk', hp k k' hm hjk⟩

theorem Owned.moved {row : EmailRow} {intent : Intent} {id : JsString}
    (h : List.Forall₂ (JobMoves t c) t u) (ho : Owned t row intent id) : Owned u row intent id := by
  obtain ⟨k, hk, hid, he, hop, hd⟩ := ho
  obtain ⟨k', hk', hm⟩ := Forall₂.next h hk
  have key := JobMoves.key hm
  exact ⟨k', hk', key.id.trans hid, key.emailId.trans he, key.operation.trans hop,
    key.desired.trans hd⟩

theorem Call.Sound.moved (h : List.Forall₂ (JobMoves t c) t u) {m : Call} (hm : m.Sound t) :
    m.Sound u := by
  have snapshot : ∀ {job : JobRow}, (∃ k ∈ t, SameKey job k ∧ 1 ≤ k.attempts) →
      ∃ k ∈ u, SameKey job k ∧ 1 ≤ k.attempts :=
    snapshot_moved (p := fun job k => SameKey job k ∧ 1 ≤ k.attempts)
      (fun _ _ hk hp => ⟨hp.1.trans (JobMoves.key hk), hp.2.trans (JobMoves.attempts hk).1⟩) h
  cases m with
  | inserted => exact Owned.moved h hm
  | superseded => exact Owned.moved h hm
  | selected claim now candidates =>
    intro x hx
    obtain ⟨j, hj, hid, hset⟩ := hm x hx
    obtain ⟨j', hj', hjm⟩ := Forall₂.next h hj
    have key := JobMoves.key hjm
    exact ⟨j', hj', key.id.trans hid, hset.moved h key⟩
  | fetched => exact snapshot hm
  | compared => exact snapshot hm
  | writing => exact snapshot hm
  | _ => trivial

theorem Call.Sound.append {n : JobRow} (hrow : ∀ j ∈ t, j.rowid < n.rowid) {m : Call}
    (hm : m.Sound t) : m.Sound (t ++ [n]) := by
  have later : ∀ {p : JobRow → Prop}, (∃ k ∈ t, p k) → ∃ k ∈ t ++ [n], p k :=
    fun ⟨k, hk, hp⟩ => ⟨k, List.mem_append_left _ hk, hp⟩
  cases m with
  | inserted => exact later hm
  | superseded => exact later hm
  | selected claim now candidates =>
    intro x hx
    obtain ⟨j, hj, hid, hset⟩ := hm x hx
    exact ⟨j, List.mem_append_left _ hj, hid, hset.append (hrow j hj)⟩
  | fetched => exact later hm
  | compared => exact later hm
  | writing => exact later hm
  | _ => trivial

/-- A candidate's earlier jobs were neither pending nor processing when it was selected. -/
theorem settled_of_claimable {claim : Claim} {now : ℕ} {j : JobRow}
    (h : claimable claim now t j = true) : Settled t j := by
  intro k hk he hr
  simp only [claimable, busy, Bool.and_eq_true, Bool.not_eq_true', List.any_eq_false,
    decide_eq_true_eq] at h
  obtain ⟨⟨-, hbusy⟩, hearlier⟩ := h
  cases hs : k.status with
  | pending => exact absurd ⟨⟨he, hs⟩, hr⟩ (hearlier k hk)
  | processing => exact absurd ⟨he, hs⟩ (hbusy k hk)
  | _ => rfl

theorem sound_selected (claim : Claim) (now : ℕ) :
    (Call.selected claim now (selectCandidates claim now t)).Sound t := by
  intro x hx
  obtain ⟨j, hj, rfl⟩ := List.mem_map.mp hx
  obtain ⟨hmem, hcl⟩ := mem_of_mem_selectTop hj
  exact ⟨j, hmem, rfl, settled_of_claimable hcl⟩

theorem sound_afterSupersede {row : EmailRow} {intent : Intent} {id : JsString} {now : ℕ}
    (h : Owned t row intent id) : (afterSupersede row intent id now).Sound t := by
  unfold afterSupersede
  split
  · exact h
  · trivial

/-- `step_jobs` for a sound request over an ordered table. -/
theorem Call.Sound.step_jobs {s s' : Store} {c' : Call} {ev : List Event} (hs : c.Sound s.jobs)
    (ho : Ordered s.jobs) (h : QueueStep s c s' c' ev) :
    List.Forall₂ (JobMoves s.jobs c) s.jobs s'.jobs ∨
      ∃ row intent id now rowid, c = .stamped row intent id now ∧
        s'.jobs = s.jobs ++ [newJob rowid row intent id now] ∧
        (∀ j ∈ s.jobs, j.id ≠ id) ∧ ∀ j ∈ s.jobs, j.rowid < rowid := by
  refine Mutation.step_jobs h ho.ids ?_
  rintro row intent id now rfl
  exact hs

/-- One step of a sound request keeps the table ordered, itself sound, and every other request
    sound. -/
theorem ordered_step {s s' : Store} {c c' : Call} {ev : List Event} (h : QueueStep s c s' c' ev)
    (ho : Ordered s.jobs) (hs : c.Sound s.jobs) :
    Ordered s'.jobs ∧ c'.Sound s'.jobs ∧ ∀ m : Call, m.Sound s.jobs → m.Sound s'.jobs := by
  rcases hs.step_jobs ho h with hm | ⟨row, intent, id, now, rowid, rfl, hjobs, hid, hrow⟩
  · refine ⟨ho.moved hs hm, ?_, fun m hmS => hmS.moved hm⟩
    cases h with
    | insert rowid hid hrow => exact ⟨_, List.mem_append_right _ List.mem_cons_self, rfl, rfl, rfl, rfl⟩
    | supersede => exact sound_afterSupersede (Owned.moved hm hs)
    | select => exact sound_selected _ _
    | @fetch r claimNow job hf =>
      have hj := List.find?_some hf
      have hmem := List.mem_of_find?_eq_some hf
      exact ⟨_, hmem, .refl _, ho.processing _ hmem (holdsLease_iff.mp hj).2.1⟩
    | compare => exact hs
    | readClock => exact hs
    | _ => trivial
  · rw [hjobs]
    refine ⟨ho.append hid hrow rfl rfl, ?_, fun m hmS => hmS.append hrow⟩
    cases h
    exact ⟨_, List.mem_append_right _ List.mem_cons_self, rfl, rfl, rfl, rfl⟩

theorem ordered {C : World Store Call Event → ℕ → Prop} {w : World Store Call Event}
    (h : Reach queue C w) : Ordered w.store.jobs ∧ ∀ i, (w.pc i).Sound w.store.jobs := by
  refine Reach.shared (I := fun s _ => Ordered s.jobs) (L := fun s _ c => c.Sound s.jobs)
    ?_ ?_ ?_ h
  · intro s hs
    rw [show s.jobs = [] from hs]
    exact ⟨⟨.nil, .nil, by simp, by simp⟩, trivial⟩
  · intro w i s' l' ev _ _ ho hs hst
    exact ⟨(ordered_step hst ho hs).1, (ordered_step hst ho hs).2.1⟩
  · intro w i j s' l' ev _ _ _ ho hs hm hst
    exact (ordered_step hst ho hs).2.2 _ hm

/-! ### The claim endpoints serialize -/

/-- Two processing jobs of one email are one job: each has been attempted, so the older one would
    be terminal. -/
theorem Ordered.single (ho : Ordered t) {j k : JobRow} (hj : j ∈ t) (hk : k ∈ t)
    (he : j.emailId = k.emailId) (hjp : j.status = .processing) (hkp : k.status = .processing) :
    j.rowid = k.rowid := by
  have apart : ∀ {a b : JobRow}, a ∈ t → b ∈ t → a.emailId = b.emailId → a.status = .processing →
      b.status = .processing → ¬ a.rowid < b.rowid := by
    intro a b ha hb hab hap hbp hlt
    have := ho.attempted b hb (ho.processing b hb hbp) a ha hab hlt
    rw [hap] at this
    cases this
  exact le_antisymm (not_lt.mp (apart hk hj he.symm hkp hjp)) (not_lt.mp (apart hj hk he hjp hkp))

def processingOf (emailId : JsString) (t : List JobRow) : List JobRow :=
  t.filter fun j => j.emailId = emailId && j.status = .processing

theorem Ordered.processingOf_le (ho : Ordered t) (emailId : JsString) :
    (processingOf emailId t).length ≤ 1 := by
  have hmem : ∀ j ∈ processingOf emailId t, j ∈ t ∧ j.emailId = emailId ∧ j.status = .processing := by
    intro j hj
    simpa [processingOf] using hj
  have hpw : (processingOf emailId t).Pairwise (·.rowid < ·.rowid) := ho.rowids.filter _
  rcases hl : processingOf emailId t with _ | ⟨j, _ | ⟨k, rest⟩⟩
  · exact Nat.zero_le _
  · exact le_rfl
  · rw [hl] at hpw hmem
    obtain ⟨hj, hje, hjp⟩ := hmem j List.mem_cons_self
    obtain ⟨hk, hke, hkp⟩ := hmem k (List.mem_cons_of_mem _ List.mem_cons_self)
    have hlt := List.rel_of_pairwise_cons hpw List.mem_cons_self
    have heq := ho.single hj hk (hje.trans hke.symm) hjp hkp
    omega

/-- A step makes a job processing only when its older jobs are settled. -/
theorem settled_of_leased {w w' : World Store Call Event} {i : ℕ} (h : Reachable queue w)
    (hst : Step queue i w w') {j' : JobRow} (hj' : j' ∈ w'.store.jobs)
    (hp : j'.status = .processing)
    (hnew : ∀ j ∈ w.store.jobs, j.id = j'.id → j.status ≠ .processing) :
    Settled w.store.jobs j' := by
  obtain ⟨ho, hsound⟩ := ordered h
  obtain ⟨s', l', ev, hst, rfl⟩ := hst
  rcases (hsound i).step_jobs ho hst with hm | ⟨row, intent, id, now, rowid, -, hjobs, -, -⟩
  · obtain ⟨j, hj, hjm⟩ := Forall₂.prev hm hj'
    have key := JobMoves.key hjm
    rcases JobMoves.processing hjm hp with rfl | ⟨-, hl⟩
    · exact absurd hp (hnew _ hj rfl)
    · intro k hk he hr
      exact hl.settled ho.ids (hsound i) hj k hk (he.trans key.emailId)
        (by rw [← key.rowid]; exact hr)
  · rw [advance_store, hjobs] at hj'
    rcases List.mem_append.mp hj' with hj' | hj'
    · exact absurd hp (hnew _ hj' rfl)
    · obtain rfl := List.mem_singleton.mp hj'
      cases hp

/-- In every reachable state an email has at most one processing job, and a step that turns a job
    into processing finds every older job of its email terminal already. -/
theorem claims_serialized {w : World Store Call Event} (h : Reachable queue w) :
    (∀ emailId, (processingOf emailId w.store.jobs).length ≤ 1) ∧
    ∀ i w', Step queue i w w' → ∀ j' ∈ w'.store.jobs, j'.status = .processing →
      (∀ j ∈ w.store.jobs, j.id = j'.id → j.status ≠ .processing) →
      ∀ k ∈ w.store.jobs, k.emailId = j'.emailId → k.rowid < j'.rowid →
        k.status.terminal = true :=
  ⟨(ordered h).1.processingOf_le, fun _ _ hst _ hj' hp hnew => settled_of_leased h hst hj' hp hnew⟩

/-! ### A run -/

/-- An unread IMAP message in its inbox. -/
def demoEmail : EmailRow where
  id := js "m1"
  source := some (js "imap_gmail")
  accountId := some (js "acc")
  toAddr := some (js "u@x")
  isRead := some 0
  isStarred := some 0
  provider := some (js "imap")
  sourceFolder := some (js "INBOX")
  sourceFolderId := none
  providerMessageId := none
  sourceKey := some (js "k1")
  imapUid := some (js "k1")
  messageIdHeader := some (js "<m1>")
  updatedAt := none

def demoStore : Store := ⟨[], [demoEmail], 0⟩

def demoClaim : Claim := ⟨.v2, js "t", 1⟩

def readIntent (value : ℕ) : Intent := ⟨.imap, .setRead, some value, none⟩

/-- Two read intents are queued, the claim collapses the first and leases the second. -/
theorem claims_serialized_run : ∃ w w' : World Store Call Event,
    Reachable queue w ∧ Step queue 2 w w' ∧ w.store.jobs.length = 2 ∧
    (∃ j ∈ w'.store.jobs, j.rowid = 2 ∧ j.status = .processing) ∧
    (processingOf (js "m1") w.store.jobs).length ≤ 1 ∧
    ∀ j ∈ w'.store.jobs, j.status = .processing →
      ∀ k ∈ w.store.jobs, k.emailId = j.emailId → k.rowid < j.rowid → k.status.terminal = true := by
  have h : Reachable queue ⟨demoStore, fun _ => .idle, []⟩ := .start rfl
  have h := h.next 0 trivial (.load demoEmail (js "m1") (by decide))
  have h := h.next 0 trivial
    (.plan (readIntent 1) (.state .isRead (some 1)) (js "j1") (by decide))
  have h := h.next 0 trivial (.insert 1 (by decide) (by decide))
  have h := h.next 1 trivial (.load demoEmail (js "m1") (by decide))
  have h := h.next 1 trivial
    (.plan (readIntent 0) (.state .isRead (some 0)) (js "j2") (by decide))
  have h := h.next 1 trivial (.insert 2 (by decide) (by decide))
  have h := h.next 2 trivial (.beginClaim demoClaim (by decide))
  have h := h.next 2 trivial .repair
  have h := h.next 2 trivial .select
  refine ⟨_, _, h, ⟨_, _, _, .lease, rfl⟩, by decide, by decide, (claims_serialized h).1 _, ?_⟩
  intro j hj hp
  refine (claims_serialized h).2 2 _ ⟨_, _, _, .lease, rfl⟩ j hj hp fun k hk hid => ?_
  clear hid
  revert k
  decide

end OneMail.Mutation
