import OneMail.External.Enqueue

/-! One key, one queued job.

    A call that has reserved a key, as its owner or as a follower of the same request, keeps going on
    the strength of the key row. The row only ever changes by being filled in, except in one place:
    the owner whose INSERT failed deletes it. `Held`, `Filled` and `Named` survive every other step,
    and that one too when no follower is under way and nothing has been queued under the key
    (`ReleasesAlone`). Along such runs a key queues one job and every answer names it (`key_queues_one`);
    `released_under_follower` is a run where a follower is under way and two requests are queued. -/

namespace OneMail.External
open Interleave Table

variable {digest : CanonicalSend → JsString} {s s' : Store} {c c' : Call} {ev : List Event}

/-! ### What a call relies on -/

/-- The key row is there, for this request. -/
def Held (digest : CanonicalSend → JsString) (s : Store) (send : Send) : Prop :=
  ∃ r ∈ s.keys, r.key = send.key ∧ r.requestHash = send.requestHash digest

/-- The key row is there, for this request, and names a job. -/
def Filled (digest : CanonicalSend → JsString) (s : Store) (send : Send) : Prop :=
  ∃ r ∈ s.keys, r.key = send.key ∧ r.requestHash = send.requestHash digest ∧ r.jobId ≠ []

/-- The job `id` has the hash of the request. -/
def Matches (digest : CanonicalSend → JsString) (s : Store) (send : Send) (id : JsString) : Prop :=
  ∃ j ∈ s.jobs, j.id = id ∧ j.requestHash = send.requestHash digest

/-- The job `id` is the request's own row under the unique index. -/
def Named (digest : CanonicalSend → JsString) (s : Store) (send : Send) (id : JsString) : Prop :=
  ∃ j ∈ s.jobs, j.id = id ∧ j.accountId = send.accountId ∧ j.requestHash = send.requestHash digest

/-- Jobs are never deleted, and a job keeps its id, account and hash. -/
theorem job_kept (h : SendStep digest s c s' c' ev) {j : OutboundJob} (hj : j ∈ s.jobs) :
    ∃ j' ∈ s'.jobs, j'.id = j.id ∧ j'.accountId = j.accountId ∧ j'.requestHash = j.requestHash := by
  cases h with
  | insert => exact ⟨j, List.mem_append_left _ hj, rfl, rfl, rfl⟩
  | progress id status =>
    refine ⟨_, mem_updateWhere_of_mem hj, ?_⟩
    split <;> exact ⟨rfl, rfl, rfl⟩
  | _ => exact ⟨j, hj, rfl, rfl, rfl⟩

/-- A key row keeps its key, its hash and its job, unless its owner gives it back unfilled. -/
theorem key_kept (h : SendStep digest s c s' c' ev) {r : KeyRow} (hr : r ∈ s.keys) :
    (∃ r' ∈ s'.keys, r'.key = r.key ∧ r'.requestHash = r.requestHash ∧
      (r.jobId ≠ [] → r'.jobId = r.jobId)) ∨
    ∃ send, c = .releasing send ∧ r.key = send.key ∧ r.jobId = [] := by
  cases h with
  | take => exact .inl ⟨r, List.mem_append_left _ hr, rfl, rfl, fun _ => rfl⟩
  | @release send =>
    by_cases hrel : r.key = send.key ∧ r.jobId = []
    · exact .inr ⟨send, rfl, hrel.1, hrel.2⟩
    · refine .inl ⟨r, mem_deleteWhere.mpr ⟨hr, ?_⟩, rfl, rfl, fun _ => rfl⟩
      simpa using hrel
  | @complete send status jobId =>
    refine .inl ?_
    dsimp only
    split
    · exact ⟨r, hr, rfl, rfl, fun _ => rfl⟩
    · refine ⟨_, mem_updateWhere_of_mem hr, ?_⟩
      split
      · rename_i hp
        simp only [Bool.and_eq_true, decide_eq_true_eq] at hp
        exact ⟨rfl, rfl, fun hne => absurd hp.2 hne⟩
      · exact ⟨rfl, rfl, fun _ => rfl⟩
  | _ => exact .inl ⟨r, hr, rfl, rfl, fun _ => rfl⟩

theorem Held.step (h : SendStep digest s c s' c' ev) {send : Send}
    (hrel : ∀ other, c = .releasing other → other.key ≠ send.key) (hs : Held digest s send) :
    Held digest s' send := by
  obtain ⟨r, hr, hk, hh⟩ := hs
  rcases key_kept h hr with ⟨r', hr', hk', hh', -⟩ | ⟨other, hc, hk', -⟩
  · exact ⟨r', hr', hk'.trans hk, hh'.trans hh⟩
  · exact absurd (hk'.symm.trans hk) (hrel other hc)

theorem Filled.step (h : SendStep digest s c s' c' ev) {send : Send} (hs : Filled digest s send) :
    Filled digest s' send := by
  obtain ⟨r, hr, hk, hh, hj⟩ := hs
  rcases key_kept h hr with ⟨r', hr', hk', hh', hj'⟩ | ⟨_, -, -, hnil⟩
  · exact ⟨r', hr', hk'.trans hk, hh'.trans hh, by rw [hj' hj]; exact hj⟩
  · exact absurd hnil hj

theorem Matches.step (h : SendStep digest s c s' c' ev) {send : Send} {id : JsString}
    (hs : Matches digest s send id) : Matches digest s' send id := by
  obtain ⟨j, hj, hid, hh⟩ := hs
  obtain ⟨j', hj', hid', -, hh'⟩ := job_kept h hj
  exact ⟨j', hj', hid'.trans hid, hh'.trans hh⟩

theorem Named.step (h : SendStep digest s c s' c' ev) {send : Send} {id : JsString}
    (hs : Named digest s send id) : Named digest s' send id := by
  obtain ⟨j, hj, hid, ha, hh⟩ := hs
  obtain ⟨j', hj', hid', ha', hh'⟩ := job_kept h hj
  exact ⟨j', hj', hid'.trans hid, ha'.trans ha, hh'.trans hh⟩

/-! ### The two tables -/

structure Tables (digest : CanonicalSend → JsString) (s : Store) : Prop where
  keyIds : (s.keys.map (·.key)).Nodup
  jobIds : (s.jobs.map (·.id)).Nodup
  unique : (s.jobs.map fun j => (j.accountId, j.requestHash)).Nodup
  named : ∀ j ∈ s.jobs, j.id ≠ []
  hashed : ∀ j ∈ s.jobs, j.requestHash = digest (canonicalSend j.accountId j.payload)
  filled : ∀ r ∈ s.keys, r.jobId ≠ [] → ∃ j ∈ s.jobs, j.id = r.jobId ∧ j.requestHash = r.requestHash

/-- What a call that stands at `c` relies on. -/
def Call.Sound (digest : CanonicalSend → JsString) (s : Store) : Call → Prop
  | .lookingUp send => send.key ≠ []
  | .reserved send _ | .inserting send _ | .losing send _ | .releasing send =>
    send.key ≠ [] → Held digest s send
  | .replaying send id => Filled digest s send ∧ Matches digest s send id
  | .completing send _ id => (send.key ≠ [] → Held digest s send) ∧ Named digest s send id
  | _ => True

theorem Tables.row_eq (ht : Tables digest s) {send : Send} (hs : Held digest s send) {r : KeyRow}
    (hr : r ∈ s.keys) (hk : r.key = send.key) : r.requestHash = send.requestHash digest := by
  obtain ⟨r', hr', hk', hh'⟩ := hs
  rw [eq_of_key ht.keyIds hr hr' (hk.trans hk'.symm), hh']

theorem mem_of_lookup {keys : List KeyRow} {key : JsString} {r : KeyRow}
    (h : lookupSendMailIdempotency key keys = some r) : r ∈ keys ∧ r.key = key :=
  ⟨List.mem_of_find?_eq_some h, by simpa using List.find?_some h⟩

theorem Tables.step (ht : Tables digest s) (hc : c.Sound digest s) (h : SendStep digest s c s' c' ev) :
    Tables digest s' := by
  cases h with
  | @take send hkey hfree =>
    refine { ht with keyIds := nodup_append_key ht.keyIds hfree, filled := fun r hr hne => ?_ }
    rcases List.mem_append.mp hr with hr | hr
    · exact ht.filled r hr hne
    · obtain rfl := List.mem_singleton.mp hr
      exact absurd rfl hne
  | @insert send owned id hid hfresh hunique =>
    refine ⟨ht.keyIds, nodup_append_key ht.jobIds hfresh, nodup_append_key ht.unique ?_, ?_, ?_, ?_⟩
    · intro j hj heq
      have hne := hunique j hj
      simp only [Prod.mk.injEq] at heq
      simp [sameRequest, newOutboundJob, heq.1, heq.2] at hne
    · intro j hj
      rcases List.mem_append.mp hj with hj | hj
      · exact ht.named j hj
      · obtain rfl := List.mem_singleton.mp hj
        exact hid
    · intro j hj
      rcases List.mem_append.mp hj with hj | hj
      · exact ht.hashed j hj
      · obtain rfl := List.mem_singleton.mp hj
        rfl
    · intro r hr hne
      obtain ⟨j, hj, hrest⟩ := ht.filled r hr hne
      exact ⟨j, List.mem_append_left _ hj, hrest⟩
  | release =>
    refine { ht with keyIds := ?_, filled := fun r hr hne => ht.filled r (mem_deleteWhere.mp hr).1 hne }
    exact ht.keyIds.sublist (List.filter_sublist.map _)
  | @complete send status jobId =>
    by_cases hkey : send.key = []
    · simp only [if_pos hkey]
      exact ht
    · simp only [if_neg hkey]
      have hkeys : (completeSendMailIdempotency send.key jobId s.keys).map (·.key) = s.keys.map (·.key) :=
        map_updateWhere _ fun _ => rfl
      refine { ht with keyIds := hkeys ▸ ht.keyIds, filled := fun r' hr' hne => ?_ }
      obtain ⟨r, hr, rfl⟩ := mem_updateWhere.mp hr'
      split at hne
      · rename_i hp
        simp only [Bool.and_eq_true, decide_eq_true_eq] at hp
        rw [if_pos (by simpa using hp)]
        -- the row this call fills in is still the one it reserved
        obtain ⟨hheld, j, hj, hid, -, hh⟩ := hc
        exact ⟨j, hj, hid, hh.trans (ht.row_eq (hheld hkey) hr hp.1).symm⟩
      · rename_i hp
        rw [if_neg hp]
        exact ht.filled r hr hne
  | progress id status =>
    have kept : ∀ {κ : Type} (key : OutboundJob → κ), (∀ j, key { j with status := status } = key j) →
        (updateWhere (·.id = id) (fun j => { j with status := status }) s.jobs).map key =
          s.jobs.map key := fun _ hkey => map_updateWhere _ hkey
    refine ⟨ht.keyIds, ?_, ?_, ?_, ?_, ?_⟩
    · exact (kept (·.id) fun _ => rfl) ▸ ht.jobIds
    · exact (kept (fun j => (j.accountId, j.requestHash)) fun _ => rfl) ▸ ht.unique
    · intro j' hj'
      obtain ⟨j, hj, rfl⟩ := mem_updateWhere.mp hj'
      split <;> exact ht.named j hj
    · intro j' hj'
      obtain ⟨j, hj, rfl⟩ := mem_updateWhere.mp hj'
      split <;> exact ht.hashed j hj
    · intro r hr hne
      obtain ⟨j, hj, hid, hh⟩ := ht.filled r hr hne
      refine ⟨_, mem_updateWhere_of_mem hj, ?_⟩
      split <;> exact ⟨hid, hh⟩
  | _ => exact ht

theorem named_of_sameRequest {send : Send} {j : OutboundJob} (hj : j ∈ s.jobs)
    (h : sameRequest digest send j = true) : Named digest s send j.id := by
  simp only [sameRequest, Bool.and_eq_true, decide_eq_true_eq] at h
  exact ⟨j, hj, rfl, h.1, h.2⟩

theorem Call.Sound.own (ht : Tables digest s) (hc : c.Sound digest s)
    (h : SendStep digest s c s' c' ev) : c'.Sound digest s' := by
  cases h with
  | noKey hkey => exact fun hne => absurd hkey hne
  | take => exact fun _ => ⟨_, List.mem_append_right _ List.mem_cons_self, rfl, rfl⟩
  | takeFails hkey => exact hkey
  | replay hl hhash hjob =>
    obtain ⟨hr, hk⟩ := mem_of_lookup hl
    obtain ⟨j, hj, hid, hh⟩ := ht.filled _ hr hjob
    exact ⟨⟨_, hr, hk, hhash, hjob⟩, j, hj, hid, hh.trans hhash⟩
  | follow hl hhash =>
    obtain ⟨hr, hk⟩ := mem_of_lookup hl
    exact fun _ => ⟨_, hr, hk, hhash⟩
  | found job hfound =>
    obtain ⟨hj, hsame⟩ := List.mem_filter.mp (List.mem_of_getLast? hfound)
    exact ⟨hc, named_of_sameRequest hj hsame⟩
  | insert id => exact ⟨hc, _, List.mem_append_right _ List.mem_cons_self, rfl, rfl, rfl⟩
  | winner job hfound =>
    exact ⟨hc, named_of_sameRequest (List.mem_of_find?_eq_some hfound) (List.find?_some hfound)⟩
  | absent => exact hc
  | insertFails => exact hc
  | giveBack => exact hc
  | _ => trivial

/-- The request has reserved `key` and has not answered yet. -/
def Call.Holds (key : JsString) : Call → Prop
  | .reserved send _ | .inserting send _ | .losing send _ | .releasing send | .completing send _ _ =>
    send.key = key
  | _ => False

/-- A step of another call leaves `m` sound, unless it gives back the key that `m` holds. -/
theorem Call.Sound.other (h : SendStep digest s c s' c' ev) {m : Call}
    (hrel : ∀ send, c = .releasing send → ¬ m.Holds send.key) (hm : m.Sound digest s) :
    m.Sound digest s' := by
  have held : ∀ {send : Send}, m.Holds send.key → (send.key ≠ [] → Held digest s send) →
      send.key ≠ [] → Held digest s' send := fun hh hs hne =>
    (hs hne).step h fun other hc he => hrel other hc (he ▸ hh)
  cases m with
  | lookingUp => exact hm
  | reserved => exact held rfl hm
  | inserting => exact held rfl hm
  | losing => exact held rfl hm
  | releasing => exact held rfl hm
  | completing => exact ⟨held rfl hm.1, hm.2.step h⟩
  | replaying => exact ⟨hm.1.step h, hm.2.step h⟩
  | _ => trivial

/-! ### The record -/

/-- What the tables still show for an event of the past. -/
def Honoured (digest : CanonicalSend → JsString) (s : Store) : Event → Prop
  | .queued send job => job.requestHash = send.requestHash digest ∧ Named digest s send job.id ∧
      (send.key ≠ [] → Held digest s send)
  | .answered send (.job _ id) => Named digest s send id ∧ (send.key ≠ [] → Filled digest s send)
  | .answered _ _ => True

theorem Honoured.step (h : SendStep digest s c s' c' ev) {e : Event}
    (hrel : ∀ send, c = .releasing send → ∀ other job, e = .queued other job → other.key ≠ send.key)
    (he : Honoured digest s e) : Honoured digest s' e := by
  match e, he with
  | .queued send job, ⟨hh, hn, hs⟩ =>
    exact ⟨hh, hn.step h, fun hne => (hs hne).step h fun other hc he => hrel other hc send job rfl he.symm⟩
  | .answered send (.job _ id), ⟨hn, hf⟩ => exact ⟨hn.step h, fun hne => (hf hne).step h⟩
  | .answered _ .conflict, _ => trivial
  | .answered _ .gone, _ => trivial
  | .answered _ .failed, _ => trivial

/-- The digest tells accounts apart: a job found by hash alone is the account's own. -/
theorem Matches.named (hd : ∀ a b, digest a = digest b → a.accountId = b.accountId)
    (ht : Tables digest s) {send : Send} {id : JsString} (h : Matches digest s send id) :
    Named digest s send id := by
  obtain ⟨j, hj, hid, hh⟩ := h
  exact ⟨j, hj, hid, hd _ _ ((ht.hashed j hj).symm.trans hh), hh⟩

theorem filled_of_completed (ht : Tables digest s) {send : Send} {id : JsString}
    (hs : Held digest s send) (hn : Named digest s send id) :
    ∃ r ∈ completeSendMailIdempotency send.key id s.keys, r.key = send.key ∧
      r.requestHash = send.requestHash digest ∧ r.jobId ≠ [] := by
  obtain ⟨r, hr, hk, hh⟩ := hs
  obtain ⟨j, hj, rfl, -⟩ := hn
  refine ⟨_, mem_updateWhere_of_mem hr, ?_⟩
  split
  · exact ⟨hk, hh, ht.named j hj⟩
  · rename_i hp
    exact ⟨hk, hh, fun hnil => hp (by simp [hk, hnil])⟩

/-- Each step's own events are honoured by the tables it leaves. -/
theorem honoured_own (hd : ∀ a b, digest a = digest b → a.accountId = b.accountId)
    (ht : Tables digest s) (hc : c.Sound digest s) (h : SendStep digest s c s' c' ev) :
    ∀ e ∈ ev, Honoured digest s' e := by
  cases h with
  | insert id =>
    intro e he
    obtain rfl := List.mem_singleton.mp he
    exact ⟨rfl, ⟨_, List.mem_append_right _ List.mem_cons_self, rfl, rfl, rfl⟩, hc⟩
  | @answerReplay send jobId =>
    intro e he
    obtain rfl := List.mem_singleton.mp he
    unfold existingJobResponse
    split
    · exact ⟨hc.2.named hd ht, fun _ => hc.1⟩
    · trivial
  | @complete send status jobId =>
    intro e he
    obtain rfl := List.mem_singleton.mp he
    refine ⟨hc.2, fun hkey => ?_⟩
    obtain ⟨r, hr, hrest⟩ := filled_of_completed ht (hc.1 hkey) hc.2
    exact ⟨r, by simpa only [if_neg hkey] using hr, hrest⟩
  | conflict =>
    intro e he
    obtain rfl := List.mem_singleton.mp he
    trivial
  | noWinner =>
    intro e he
    obtain rfl := List.mem_singleton.mp he
    trivial
  | release =>
    intro e he
    obtain rfl := List.mem_singleton.mp he
    trivial
  | fail =>
    intro e he
    obtain rfl := List.mem_singleton.mp he
    trivial
  | _ => simp

/-! ### Runs whose owners release alone -/

/-- When the owner is about to give its key back: no other call that reserved the key is under way,
    and no job has been queued under it. -/
def Call.Alone (w : World Store Call Event) (i : ℕ) : Call → Prop
  | .releasing send => (∀ j, j ≠ i → ¬ (w.pc j).Holds send.key) ∧
      ∀ other job, .queued other job ∈ w.trace → other.key ≠ send.key
  | _ => True

def ReleasesAlone (w : World Store Call Event) (i : ℕ) : Prop := (w.pc i).Alone w i

theorem intact (hd : ∀ a b, digest a = digest b → a.accountId = b.accountId)
    {w : World Store Call Event} (h : Reach (externalSend digest) ReleasesAlone w) :
    (Tables digest w.store ∧ ∀ e ∈ w.trace, Honoured digest w.store e) ∧
      ∀ i, (w.pc i).Sound digest w.store := by
  refine Reach.shared (I := fun s τ => Tables digest s ∧ ∀ e ∈ τ, Honoured digest s e)
    (L := fun s _ c => c.Sound digest s) ?_ ?_ ?_ h
  · rintro s rfl
    exact ⟨⟨⟨.nil, .nil, .nil, by simp, by simp, by simp⟩, by simp⟩, trivial⟩
  · intro w i s' l' ev _ halone ⟨ht, hrec⟩ hc hst
    refine ⟨⟨ht.step hc hst, fun e he => ?_⟩, hc.own ht hst⟩
    rcases List.mem_append.mp he with he | he
    · exact honoured_own hd ht hc hst e he
    · refine (hrec e he).step hst ?_
      rintro send hpc other job rfl
      unfold ReleasesAlone at halone
      rw [hpc] at halone
      exact halone.2 other job he
  · intro w i j s' l' ev _ halone hji _ _ hm hst
    refine hm.other hst fun send hpc => ?_
    unfold ReleasesAlone at halone
    rw [hpc] at halone
    exact halone.1 j hji

theorem named_eq (ht : Tables digest s) {send send' : Send} {id id' : JsString}
    (hd : ∀ a b, digest a = digest b → a.accountId = b.accountId)
    (hs : send.requestHash digest = send'.requestHash digest) (h : Named digest s send id)
    (h' : Named digest s send' id') : id = id' := by
  obtain ⟨j, hj, rfl, ha, hh⟩ := h
  obtain ⟨j', hj', rfl, ha', hh'⟩ := h'
  have hacc : send.accountId = send'.accountId := hd _ _ hs
  rw [eq_of_key ht.unique hj hj' (by simp only [Prod.mk.injEq]; exact ⟨by rw [ha, ha', hacc],
    by rw [hh, hh', hs]⟩)]

theorem held_eq (ht : Tables digest s) {send send' : Send} (hk : send'.key = send.key)
    (h : Held digest s send) (h' : Held digest s send') :
    send.requestHash digest = send'.requestHash digest := by
  obtain ⟨r, hr, hrk, hrh⟩ := h
  rw [← hrh]
  exact ht.row_eq h' hr (hrk.trans hk.symm)

/-- Only the lookup of a row with another hash answers 409. -/
theorem conflict_step (h : SendStep digest s c s' c' ev) {send : Send}
    (he : .answered send .conflict ∈ ev) : ev = [.answered send .conflict] ∧ c = .lookingUp send ∧
      ∃ r ∈ s.keys, r.key = send.key ∧ r.requestHash ≠ send.requestHash digest := by
  cases h with
  | conflict hl hhash =>
    obtain ⟨hr, hk⟩ := mem_of_lookup hl
    cases List.mem_singleton.mp he
    exact ⟨rfl, rfl, _, hr, hk, hhash⟩
  | answerReplay =>
    unfold existingJobResponse at he
    split at he <;> simp at he
  | _ => simp at he

/-- Every 409 of the trace went to a request whose hash had not been queued under the key. -/
def ConflictsDiffer (digest : CanonicalSend → JsString) : List Event → Prop :=
  Historic fun τ e => ∀ send, e = .answered send .conflict → ∀ other job, .queued other job ∈ τ →
    other.key = send.key → job.requestHash ≠ send.requestHash digest

theorem conflicts_differ (hd : ∀ a b, digest a = digest b → a.accountId = b.accountId)
    {w : World Store Call Event} (h : Reach (externalSend digest) ReleasesAlone w) :
    ConflictsDiffer digest w.trace := by
  refine Reach.invariant (I := fun w => ConflictsDiffer digest w.trace) (fun _ _ => trivial) ?_ h
  intro w i s' l' ev hw hhist _ hst
  obtain ⟨⟨ht, hrec⟩, hsound⟩ := intact hd hw
  by_cases hconf : ∃ send, .answered send .conflict ∈ ev
  · obtain ⟨send, hmem⟩ := hconf
    obtain ⟨rfl, hpc, r, hr, hrk, hhash⟩ := conflict_step hst hmem
    refine ⟨?_, hhist⟩
    rintro _ ⟨⟩ other job hq hk
    have hkey : send.key ≠ [] := by
      have := hsound i
      rw [hpc] at this
      exact this
    -- what is queued under the key has the hash of the key row
    obtain ⟨hjob, -, hheld⟩ := hrec _ hq
    rw [hjob, ← ht.row_eq (hheld (by rw [hk]; exact hkey)) hr (hrk.trans hk.symm)]
    exact hhash
  · refine Historic.append (fun later e earlier hev => ?_) hhist
    rintro send rfl
    exact absurd ⟨send, by rw [hev]; simp⟩ hconf

/-- Along every run whose owners release alone, and with a digest that tells accounts apart: what is
    queued under one key is one job; an account and hash have one row; every answer that names a job
    names the row of the request, which is the job queued under its key; and a 409 goes to a request
    whose hash was not queued under the key. -/
theorem key_queues_one (hd : ∀ a b, digest a = digest b → a.accountId = b.accountId)
    {w : World Store Call Event} (h : Reach (externalSend digest) ReleasesAlone w) :
    (∀ send job send' job', .queued send job ∈ w.trace → .queued send' job' ∈ w.trace →
      send.key ≠ [] → send'.key = send.key → job.requestHash = job'.requestHash ∧ job.id = job'.id) ∧
    (w.store.jobs.map fun j => (j.accountId, j.requestHash)).Nodup ∧
    (∀ send status id, .answered send (.job status id) ∈ w.trace →
      (∃ j ∈ w.store.jobs, j.id = id ∧ j.accountId = send.accountId ∧
        j.requestHash = send.requestHash digest) ∧
      ∀ send' job, .queued send' job ∈ w.trace → send.key ≠ [] → send'.key = send.key → job.id = id) ∧
    ∀ later send earlier, w.trace = later ++ .answered send .conflict :: earlier →
      ∀ send' job, .queued send' job ∈ earlier → send'.key = send.key →
        job.requestHash ≠ send.requestHash digest := by
  obtain ⟨⟨ht, hrec⟩, -⟩ := intact hd h
  refine ⟨?_, ht.unique, ?_, ?_⟩
  · intro send job send' job' hq hq' hkey hk
    obtain ⟨hh, hn, hheld⟩ := hrec _ hq
    obtain ⟨hh', hn', hheld'⟩ := hrec _ hq'
    have hsame := held_eq ht hk (hheld hkey) (hheld' (by rw [hk]; exact hkey))
    exact ⟨by rw [hh, hh', hsame], named_eq ht hd hsame hn hn'⟩
  · intro send status id ha
    obtain ⟨hn, hfilled⟩ := hrec _ ha
    refine ⟨hn, fun send' job hq hkey hk => ?_⟩
    obtain ⟨-, hn', hheld'⟩ := hrec _ hq
    obtain ⟨r, hr, hrk, hrh, -⟩ := hfilled hkey
    have hsame := held_eq ht hk ⟨r, hr, hrk, hrh⟩ (hheld' (by rw [hk]; exact hkey))
    exact (named_eq ht hd hsame hn hn').symm
  · intro later send earlier hτ send' job hq hk
    exact historic_iff.mp (conflicts_differ hd h) later _ earlier hτ send rfl send' job hq hk

/-! ### Runs -/

/-- A digest for the runs below: the account with its length in front, then the content. -/
def demoDigest (c : CanonicalSend) : JsString :=
  List.replicate c.accountId.length 1 ++ 0 :: (c.accountId ++ c.content)

theorem replicate_append_inj : ∀ {m n : ℕ} {x y : JsString},
    List.replicate m 1 ++ 0 :: x = List.replicate n 1 ++ 0 :: y → m = n ∧ x = y
  | 0, 0, _, _, h => ⟨rfl, (List.cons.inj h).2⟩
  | 0, n + 1, _, _, h => by simp [List.replicate_succ] at h
  | m + 1, 0, _, _, h => by simp [List.replicate_succ] at h
  | m + 1, n + 1, _, _, h => by
    obtain ⟨hmn, hxy⟩ := replicate_append_inj (List.cons.inj h).2
    exact ⟨by rw [hmn], hxy⟩

theorem demoDigest_account (a b : CanonicalSend) (h : demoDigest a = demoDigest b) :
    a.accountId = b.accountId := by
  obtain ⟨hlen, hrest⟩ := replicate_append_inj h
  exact (List.append_inj hrest hlen).1

/-- A mail with this content, under the key `k`. -/
def demoSend (content : JsString) : Send where
  key := js "k"
  accountId := js "acc"
  payload := ⟨js "u@x", none, js "v@y", none, js "s", content, false, none, none, none, none⟩
  provider := js "imap_qq"

/-- The owner queues its job; a retry of the same request is answered from the key row. -/
theorem key_queues_one_run : ∃ w : World Store Call Event,
    Reach (externalSend demoDigest) ReleasesAlone w ∧
    (∃ status, .answered (demoSend (js "a")) (.job status (js "j1")) ∈ w.trace) ∧
    ∀ send' job, .queued send' job ∈ w.trace → send'.key = js "k" → job.id = js "j1" := by
  have h : Reach (externalSend demoDigest) ReleasesAlone ⟨⟨[], []⟩, fun _ => .idle, []⟩ := .start rfl
  have h := h.next 0 trivial (.arrive (demoSend (js "a")))
  have h := h.next 0 trivial (.take (by decide) (by decide))
  have h := h.next 0 trivial (.absent (by decide))
  have h := h.next 0 trivial (.insert (js "j1") (by decide) (by decide) (by decide))
  have h := h.next 0 trivial .complete
  have h := h.next 1 trivial (.arrive (demoSend (js "a")))
  have h := h.next 1 trivial (.takeFails (by decide))
  have h := h.next 1 trivial (.replay (r := ⟨js "k", demoDigest (canonicalSend (js "acc")
    (demoSend (js "a")).payload), js "j1"⟩) (by decide) (by decide) (by decide))
  have h := h.next 1 trivial .answerReplay
  refine ⟨_, h, ⟨.queued, .head _⟩, fun send' job hq hk => ?_⟩
  exact ((key_queues_one demoDigest_account h).2.2.1 (demoSend (js "a")) .queued (js "j1") (.head _)).2
    send' job hq (by decide) hk

/-- The owner's INSERT fails and it gives the key back while a follower is under way; another request
    takes the key, and both are queued. -/
theorem released_under_follower : ¬ ∀ w : World Store Call Event,
    Reachable (externalSend demoDigest) w →
      ∀ send job send' job', .queued send job ∈ w.trace → .queued send' job' ∈ w.trace →
        send.key ≠ [] → send'.key = send.key → job.requestHash = job'.requestHash := by
  intro hall
  have h : Reachable (externalSend demoDigest) ⟨⟨[], []⟩, fun _ => .idle, []⟩ := .start rfl
  have h := h.next 0 trivial (.arrive (demoSend (js "a")))
  have h := h.next 0 trivial (.take (by decide) (by decide))
  have h := h.next 1 trivial (.arrive (demoSend (js "a")))
  have h := h.next 1 trivial (.takeFails (by decide))
  have h := h.next 1 trivial (.follow (r := ⟨js "k", demoDigest (canonicalSend (js "acc")
    (demoSend (js "a")).payload), []⟩) (by decide) (by decide) rfl)
  have h := h.next 0 trivial (.absent (by decide))
  have h := h.next 0 trivial .insertFails
  have h := h.next 0 trivial (.giveBack (by decide) (by decide))
  have h := h.next 0 trivial .release
  have h := h.next 2 trivial (.arrive (demoSend (js "b")))
  have h := h.next 2 trivial (.take (by decide) (by decide))
  have h := h.next 1 trivial (.absent (by decide))
  have h := h.next 1 trivial (.insert (js "j1") (by decide) (by decide) (by decide))
  have h := h.next 2 trivial (.absent (by decide))
  have h := h.next 2 trivial (.insert (js "j2") (by decide) (by decide) (by decide))
  have hhash := hall _ h (demoSend (js "a")) (newOutboundJob demoDigest (js "j1") (demoSend (js "a")))
    (demoSend (js "b")) (newOutboundJob demoDigest (js "j2") (demoSend (js "b")))
    (by decide) (by decide) (by decide) rfl
  revert hhash
  decide

end OneMail.External
