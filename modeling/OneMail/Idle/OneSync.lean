import OneMail.Idle.Workers

/-! At most one sync of an account at a time, as long as no worker is started and no account polled over a
    worker that was asked to stop and may still sync.

    A worker may sync while it is underway, or alive and not asked to stop. One that may not will never sync
    again (`WorkerStep.cools`), and the registry knows every worker that runs unasked (`Sound.registered`). So
    under the condition at most one worker of an account may sync, and none while the poll loop does. -/

namespace OneMail.Idle
open KeyValue Transition

variable {py : Platform} {p p' : Process} {w w' : Worker} {m : Move} {id : String} {i j : ℕ} {skip : Bool}

/-- The worker is in a sync, or may still come to one. -/
def Worker.maySync (w : Worker) : Bool := w.underway || w.isAlive && !w.stopped

theorem underway_maySync (h : w.underway = true) : w.maySync = true := by simp [Worker.maySync, h]

theorem syncing_maySync (h : w.isSyncing = true) : w.maySync = true := underway_maySync (by simp [Worker.underway, h])

/-! ### One worker -/

/-- A step of a thread: it neither starts to sync after it was asked to stop, nor comes back to life. -/
structure Cools (w w' : Worker) : Prop where
  account : w'.account = w.account
  stopped : w'.stopped = w.stopped
  alive : w'.isAlive = true → w.isAlive = true
  maySync : w'.maySync = true → w.maySync = true

theorem WorkerStep.cools (h : WorkerStep skip w w') : Cools w w' := by
  cases h with
  | raise quota h =>
    refine ⟨rfl, rfl, ?_, ?_⟩ <;>
      rcases h with h | h | h | h | ⟨h, -⟩ <;>
      simp [Worker.isAlive, Worker.maySync, Worker.underway, Worker.isSyncing, h]
  | crash => exact ⟨rfl, rfl, nofun, nofun⟩
  | _ =>
    refine ⟨rfl, rfl, ?_, ?_⟩ <;>
      simp_all [Worker.isAlive, Worker.maySync, Worker.underway, Worker.isSyncing]

theorem stop_maySync (h : w.stop.maySync = true) : w.maySync = true := by
  have hunder : w.stop.underway = w.underway := rfl
  have hstopped : w.stop.stopped = true := rfl
  rw [Worker.maySync, hunder, hstopped, Bool.not_true, Bool.and_false, Bool.or_false] at h
  exact underway_maySync h

/-! ### The registry -/

theorem stopActive_worker (j : ℕ) : (p.stopActive id).workers[j]? =
    p.workers[j]?.map fun w => if p.active.lookup id = some j then w.stop else w := by
  unfold Process.stopActive
  split
  · rename_i i hi
    simp only [List.getElem?_modify, hi, Option.some.injEq]
    rfl
  · rename_i hnone
    simp [hnone]

@[simp] theorem stopActive_active : (p.stopActive id).active = p.active := by
  unfold Process.stopActive
  split <;> rfl

@[simp] theorem stopActive_main : (p.stopActive id).main = p.main := by
  unfold Process.stopActive
  split <;> rfl

/-- Workers that run unasked are registered, and only workers of the account are. -/
structure Sound (p : Process) : Prop where
  registered : ∀ i w, p.workers[i]? = some w → w.isAlive = true → w.stopped = false →
    p.active.lookup w.account.id = some i
  owner : ∀ id i, p.active.lookup id = some i → ∃ w, p.workers[i]? = some w ∧ w.account.id = id

/-- At most one worker of an account may sync, and none while the account is polled. -/
structure Quiet (p : Process) : Prop where
  one : ∀ (i j : ℕ) (w w' : Worker), p.workers[i]? = some w → p.workers[j]? = some w' → w.account.id = w'.account.id →
    w.maySync = true → w'.maySync = true → i = j
  polled : ∀ acc rest now, p.main = .syncing acc rest now → ∀ (i : ℕ) (w : Worker), p.workers[i]? = some w →
    w.account.id = acc.id → w.maySync = false

theorem Sound.frame (h : Sound p) (hworkers : p'.workers = p.workers) (hactive : p'.active = p.active) : Sound p' := by
  refine ⟨?_, ?_⟩
  · rw [hworkers, hactive]
    exact h.registered
  · rw [hworkers, hactive]
    exact h.owner

/-- A worker takes a step. -/
theorem Sound.work (h : Sound p) (hw : p.workers[i]? = some w) (hc : Cools w w')
    (hworkers : p'.workers = p.workers.set i w') (hactive : p'.active = p.active) : Sound p' := by
  have hlt : i < p.workers.length := (List.getElem?_eq_some_iff.mp hw).1
  refine ⟨fun j v hv halive hstopped => ?_, fun id j hj => ?_⟩
  · rw [hworkers] at hv
    rw [hactive]
    by_cases hij : i = j
    · subst hij
      rw [List.getElem?_set_self hlt] at hv
      obtain rfl := Option.some.inj hv
      rw [hc.account]
      exact h.registered i w hw (hc.alive halive) (hc.stopped ▸ hstopped)
    · rw [List.getElem?_set_ne hij] at hv
      exact h.registered j v hv halive hstopped
  · rw [hactive] at hj
    obtain ⟨v, hv, hid⟩ := h.owner id j hj
    rw [hworkers]
    by_cases hij : i = j
    · subst hij
      obtain rfl := Option.some.inj (hw.symm.trans hv)
      exact ⟨w', List.getElem?_set_self hlt, by rw [hc.account, hid]⟩
    · exact ⟨v, by rw [List.getElem?_set_ne hij, hv], hid⟩

/-- The registered worker is asked to stop, and stays registered or not. -/
theorem Sound.stop (h : Sound p) (hworkers : p'.workers = (p.stopActive id).workers)
    (hactive : p'.active = p.active ∨ p'.active = p.active.erase id) : Sound p' := by
  have hlookup : ∀ id' i, p'.active.lookup id' = some i → p.active.lookup id' = some i := by
    intro id' i hi
    rcases hactive with hactive | hactive <;> rw [hactive] at hi
    · exact hi
    · rw [lookup_del] at hi
      split at hi
      · cases hi
      · exact hi
  refine ⟨fun j v hv halive hstopped => ?_, fun id' j hj => ?_⟩
  · rw [hworkers, stopActive_worker, Option.map_eq_some_iff] at hv
    obtain ⟨u, hu, rfl⟩ := hv
    -- the worker that was asked is not this one
    by_cases hasked : p.active.lookup id = some j
    · rw [if_pos hasked] at hstopped
      cases hstopped
    · rw [if_neg hasked] at halive hstopped ⊢
      have hreg := h.registered j u hu halive hstopped
      rcases hactive with hactive | hactive <;> rw [hactive]
      · exact hreg
      · rw [lookup_del, if_neg]
        · exact hreg
        · intro heq
          rw [heq] at hreg
          exact hasked hreg
  · obtain ⟨v, hv, hid⟩ := h.owner id' j (hlookup id' j hj)
    refine ⟨if p.active.lookup id = some j then v.stop else v, ?_, ?_⟩
    · rw [hworkers, stopActive_worker, hv]
      rfl
    · split <;> exact hid

theorem worker_eq (h : p.active.lookup id = some i) : p.worker id = p.workers[i]? := by
  rw [Process.worker, h]
  rfl

/-- A worker that no longer lives is taken off the registry. -/
theorem Sound.joined (h : Sound p) (ha : (p.worker id).any Worker.isAlive = false)
    (hworkers : p'.workers = p.workers) (hactive : p'.active = p.active.erase id) : Sound p' := by
  refine ⟨fun j v hv halive hstopped => ?_, fun id' j hj => ?_⟩
  · rw [hworkers] at hv
    have hreg := h.registered j v hv halive hstopped
    rw [hactive, lookup_del, if_neg]
    · exact hreg
    · intro heq
      rw [worker_eq (heq ▸ hreg), hv] at ha
      simp [halive] at ha
  · rw [hactive, lookup_del] at hj
    split at hj
    · cases hj
    · rw [hworkers]
      exact h.owner id' j hj

theorem Sound.start (h : Sound p) {acc : Account} (ha : (p.worker acc.id).any Worker.isAlive = false)
    (hworkers : p'.workers = p.workers ++ [newWorker acc])
    (hactive : p'.active = p.active.insert acc.id p.workers.length) : Sound p' := by
  refine ⟨fun j v hv halive hstopped => ?_, fun id' j hj => ?_⟩
  · rw [hworkers, List.getElem?_append] at hv
    rw [hactive, lookup_put]
    split at hv
    · have hreg := h.registered j v hv halive hstopped
      rw [if_neg, hreg]
      intro heq
      rw [worker_eq (heq ▸ hreg), hv] at ha
      simp [halive] at ha
    · obtain ⟨hlen, rfl⟩ : j = p.workers.length ∧ newWorker acc = v := by
        rw [List.getElem?_singleton] at hv
        split at hv
        · exact ⟨by omega, Option.some.inj hv⟩
        · cases hv
      rw [if_pos (show (newWorker acc).account.id = acc.id from rfl), hlen]
  · rw [hactive, lookup_put] at hj
    rw [hworkers]
    split at hj
    · obtain rfl := Option.some.inj hj
      rename_i heq
      exact ⟨newWorker acc, by simp, heq.symm⟩
    · obtain ⟨v, hv, hid⟩ := h.owner id' j hj
      exact ⟨v, by rw [List.getElem?_append_left (List.getElem?_eq_some_iff.mp hv).1, hv], hid⟩

/-! ### Turns of `ensure_idle_workers` -/

/-- Nothing but the registered worker's stop flag changes. -/
structure Turned (p p' : Process) (id : String) : Prop where
  workers : p'.workers = p.workers ∨ p'.workers = (p.stopActive id).workers
  active : p'.active = p.active

theorem checkFolders_turned (acc : Account) : Turned p (p.checkFolders py acc).1 acc.id := by
  unfold Process.checkFolders
  split
  · exact ⟨.inl rfl, rfl⟩
  · split
    · exact ⟨.inl rfl, rfl⟩
    · split
      · exact ⟨.inr rfl, stopActive_active⟩
      · exact ⟨.inl rfl, rfl⟩

/-- A turn that begins with changes to the other registries. -/
theorem Turned.of_eq {q : Process} (h : Turned q p' id) (hworkers : q.workers = p.workers)
    (hactive : q.active = p.active) : Turned p p' id := by
  refine ⟨?_, h.active.trans hactive⟩
  rcases h.workers with hsame | hstop
  · exact .inl (hsame.trans hworkers)
  · refine .inr (hstop.trans (List.ext_getElem? fun j => ?_))
    rw [stopActive_worker, stopActive_worker, hworkers, hactive]

theorem checkCooldown_turned (acc : Account) : Turned p (p.checkCooldown py acc).1 acc.id := by
  unfold Process.checkCooldown
  split
  · exact checkFolders_turned acc
  · split
    · exact ⟨.inl rfl, rfl⟩
    · exact (checkFolders_turned acc).of_eq rfl rfl

theorem ensure_turned (acc : Account) : Turned p (p.ensure py acc).1 acc.id := by
  have hunpin : (p.unpin py acc).workers = p.workers ∧ (p.unpin py acc).active = p.active := by
    unfold Process.unpin
    split <;> exact ⟨rfl, rfl⟩
  unfold Process.ensure
  split
  · exact ⟨.inr rfl, stopActive_active⟩
  · split
    · exact ⟨.inl rfl, rfl⟩
    · dsimp only
      split
      · exact ⟨.inl hunpin.1, hunpin.2⟩
      · split
        · exact ⟨.inl hunpin.1, hunpin.2⟩
        · exact (checkCooldown_turned acc).of_eq hunpin.1 hunpin.2

theorem Sound.turned (h : Sound p) (ht : Turned p p' id) : Sound p' := by
  rcases ht.workers with hsame | hstop
  · exact h.frame hsame ht.active
  · exact h.stop hstop (.inl ht.active)

theorem Sound.step (h : Sound p) (hst : ProcessStep py p m p') : Sound p' := by
  cases hst with
  | work i hw hstep => exact h.work hw hstep.cools rfl rfl
  | unsupported i hw | cooldown i hw =>
    exact h.work hw (WorkerStep.cools (.crash : WorkerStep true _ _)) rfl rfl
  | @prune id ids accounts now =>
    unfold Process.prune
    split
    · exact h.stop (show _ = (p.stopActive id).workers from rfl) (.inr rfl)
    · exact h.frame rfl rfl
  | ensure => exact h.turned ⟨(ensure_turned _).workers, (ensure_turned _).active⟩
  | joined _ ha => exact h.joined ha rfl rfl
  | start _ ha => exact h.start ha rfl rfl
  | _ => exact h.frame rfl rfl

/-! ### Who may sync -/

/-- No worker may sync afterwards that could not before. -/
def Calmer (p p' : Process) : Prop := ∀ (i : ℕ) (w' : Worker), p'.workers[i]? = some w' →
  ∃ w, p.workers[i]? = some w ∧ w'.account.id = w.account.id ∧ (w'.maySync = true → w.maySync = true)

theorem calmer_of_eq (h : p'.workers = p.workers) : Calmer p p' := by
  intro i w' hw'
  rw [h] at hw'
  exact ⟨w', hw', rfl, id⟩

theorem calmer_work (hw : p.workers[i]? = some w) (hc : Cools w w') (h : p'.workers = p.workers.set i w') :
    Calmer p p' := by
  intro j v hv
  rw [h] at hv
  by_cases hij : i = j
  · subst hij
    rw [List.getElem?_set_self (List.getElem?_eq_some_iff.mp hw).1] at hv
    obtain rfl := Option.some.inj hv
    exact ⟨w, hw, by rw [hc.account], hc.maySync⟩
  · rw [List.getElem?_set_ne hij] at hv
    exact ⟨v, hv, rfl, id⟩

theorem calmer_stop (h : p'.workers = (p.stopActive id).workers) : Calmer p p' := by
  intro j v hv
  rw [h, stopActive_worker, Option.map_eq_some_iff] at hv
  obtain ⟨u, hu, rfl⟩ := hv
  refine ⟨u, hu, ?_, ?_⟩
  · split <;> rfl
  · split
    · exact stop_maySync
    · exact fun hmay => hmay

theorem calmer_turned (h : Turned p p' id) : Calmer p p' := by
  rcases h.workers with hsame | hstop
  · exact calmer_of_eq hsame
  · exact calmer_stop hstop

theorem goesTo_ne (turn : Turn) (acc : Account) (rest accounts : List Account) (now : ℤ) (acc' : Account)
    (rest' : List Account) (now' : ℤ) : turn.goesTo acc rest accounts now ≠ .syncing acc' rest' now' := by
  cases turn <;> exact nofun

/-- A step that neither starts a worker nor polls an account. -/
theorem ProcessStep.calmer (hst : ProcessStep py p .other p') : Calmer p p' ∧
    ∀ acc rest now, p'.main = .syncing acc rest now → p.main = .syncing acc rest now := by
  cases hst with
  | tick | state => exact ⟨calmer_of_eq rfl, fun _ _ _ h => h⟩
  | work i hw hstep => exact ⟨calmer_work hw hstep.cools rfl, fun _ _ _ h => h⟩
  | unsupported i hw | cooldown i hw =>
    exact ⟨calmer_work hw (WorkerStep.cools (.crash : WorkerStep true _ _)) rfl, fun _ _ _ h => h⟩
  | @prune id ids accounts now =>
    refine ⟨?_, nofun⟩
    unfold Process.prune
    split
    · exact calmer_stop (show _ = (p.stopActive id).workers from rfl)
    · exact calmer_of_eq rfl
  | @ensure acc rest accounts now =>
    refine ⟨calmer_turned (show Turned p _ acc.id from ⟨(ensure_turned acc).workers, (ensure_turned acc).active⟩), ?_⟩
    exact fun acc' rest' now' hmain => absurd hmain (goesTo_ne _ acc rest accounts now acc' rest' now')
  | _ => exact ⟨calmer_of_eq rfl, nofun⟩

theorem Quiet.calmer (h : Quiet p) (hc : Calmer p p')
    (hmain : ∀ acc rest now, p'.main = .syncing acc rest now → p.main = .syncing acc rest now) : Quiet p' := by
  refine ⟨fun i j w w' hw hw' hid hmay hmay' => ?_, fun acc rest now hsync i w hw hid => ?_⟩
  · obtain ⟨v, hv, hvid, hvmay⟩ := hc i w hw
    obtain ⟨v', hv', hvid', hvmay'⟩ := hc j w' hw'
    exact h.one i j v v' hv hv' (hvid.symm.trans (hid.trans hvid')) (hvmay hmay) (hvmay' hmay')
  · obtain ⟨v, hv, hvid, hvmay⟩ := hc i w hw
    have hcold := h.polled acc rest now (hmain _ _ _ hsync) i v hv (hvid.symm.trans hid)
    by_contra hmay
    rw [hvmay (by simpa using hmay)] at hcold
    cases hcold

/-- Where no worker lingers, a worker that may sync runs unasked, so it is the registered one. -/
theorem Sound.runs (h : Sound p) (hpatient : ¬ Lingering p id) (hw : p.workers[i]? = some w)
    (hid : w.account.id = id) (hmay : w.maySync = true) :
    w.isAlive = true ∧ w.stopped = false ∧ p.worker id = some w := by
  have hstopped : w.stopped = false := by
    by_contra hstopped
    rw [Bool.not_eq_false] at hstopped
    refine hpatient ⟨w, List.mem_of_getElem? hw, hid, hstopped, ?_⟩
    simpa [Worker.maySync, hstopped] using hmay
  have halive : w.isAlive = true := by
    by_contra hdead
    simp only [Worker.isAlive, decide_not, Bool.not_eq_true', decide_eq_false_iff_not, not_not] at hdead
    simp [Worker.maySync, Worker.underway, Worker.isSyncing, Worker.isAlive, hdead] at hmay
  have hreg := h.registered i w hw halive hstopped
  rw [hid] at hreg
  exact ⟨halive, hstopped, (worker_eq hreg).trans hw⟩

theorem Quiet.step (h : Quiet p) (hsound : Sound p) (hpatient : Patient p m) (hst : ProcessStep py p m p') :
    Quiet p' := by
  cases m with
  | other => exact h.calmer hst.calmer.1 hst.calmer.2
  | start acc =>
    cases hst with
    | start hmain ha =>
      have hcold : ∀ (i : ℕ) (w : Worker), p.workers[i]? = some w → w.account.id = acc.id → w.maySync = true → False := by
        intro i w hw hid hmay
        obtain ⟨halive, -, hreg⟩ := hsound.runs hpatient hw hid hmay
        rw [hreg] at ha
        simp [halive] at ha
      have hcase : ∀ (i : ℕ) (w : Worker), (p.workers ++ [newWorker acc])[i]? = some w →
          p.workers[i]? = some w ∨ i = p.workers.length ∧ w = newWorker acc := by
        intro i w hw
        rw [List.getElem?_append] at hw
        split at hw
        · exact .inl hw
        · rw [List.getElem?_singleton] at hw
          split at hw
          · exact .inr ⟨by omega, (Option.some.inj hw).symm⟩
          · cases hw
      refine ⟨fun i j w w' hw hw' hid hmay hmay' => ?_, nofun⟩
      rcases hcase i w hw with hold | ⟨hi, rfl⟩ <;> rcases hcase j w' hw' with hold' | ⟨hj, rfl⟩
      · exact h.one i j w w' hold hold' hid hmay hmay'
      · exact (hcold i w hold hid hmay).elim
      · exact (hcold j w' hold' hid.symm hmay').elim
      · rw [hi, hj]
  | poll acc =>
    cases hst with
    | poll hmain ha hd =>
      refine ⟨h.one, ?_⟩
      rintro acc' rest' now' ⟨⟩ i w hw hid
      by_contra hmay
      obtain ⟨halive, hstopped, hreg⟩ := hsound.runs hpatient hw hid (by simpa using hmay)
      rw [Process.isIdleWorkerActive, hreg] at ha
      simp [halive, hstopped] at ha

theorem Quiet.oneSync (h : Quiet p) : OneSync p := by
  intro id t t' ht ht'
  cases t with
  | main =>
    cases t' with
    | main => rfl
    | worker j =>
      obtain ⟨acc, rest, now, hmain, rfl⟩ := ht
      obtain ⟨w, hw, hid, hsync⟩ := ht'
      have hcold := h.polled acc rest now hmain j w hw hid
      rw [syncing_maySync hsync] at hcold
      cases hcold
  | worker i =>
    obtain ⟨w, hw, hid, hsync⟩ := ht
    cases t' with
    | main =>
      obtain ⟨acc, rest, now, hmain, rfl⟩ := ht'
      have hcold := h.polled acc rest now hmain i w hw hid
      rw [syncing_maySync hsync] at hcold
      cases hcold
    | worker j =>
      obtain ⟨w', hw', hid', hsync'⟩ := ht'
      rw [h.one i j w w' hw hw' (hid.trans hid'.symm) (syncing_maySync hsync) (syncing_maySync hsync')]

theorem sound_fresh (h : Fresh p) : Sound p := by
  refine ⟨fun i w hw => ?_, fun id i hi => ?_⟩
  · rw [h.workers] at hw
    cases hw
  · rw [h.active] at hi
    cases hi

theorem quiet_fresh (h : Fresh p) : Quiet p := by
  refine ⟨fun i j w w' hw => ?_, fun acc rest now hmain => ?_⟩
  · rw [h.workers] at hw
    cases hw
  · rw [h.main] at hmain
    cases hmain

theorem reachable_sound (h : Reachable (aggregator py) p) : Sound p :=
  Run.invariant (fun _ => sound_fresh) (fun _ _ _ _ hsound _ hst => hsound.step hst) h

/-! ### What a lingering worker leads to -/

/-- The process may go on from the one state to the other. -/
def Leads (py : Platform) : Process → Process → Prop := Relation.ReflTransGen fun p p' => ∃ m, ProcessStep py p m p'

/-- A worker underway may be in its sync at once. -/
theorem underway_syncs (py : Platform) (hw : p.workers[i]? = some w) (hunder : w.underway = true) :
    ∃ p' w', Leads py p p' ∧ p'.main = p.main ∧ p'.workers = p.workers.set i w' ∧ w'.account = w.account ∧
      w'.isSyncing = true := by
  have hstep : ∀ w', WorkerStep (p.skips w.account.id) w w' → w'.account = w.account → w'.isSyncing = true →
      ∃ p' w', Leads py p p' ∧ p'.main = p.main ∧ p'.workers = p.workers.set i w' ∧ w'.account = w.account ∧
        w'.isSyncing = true := fun w' h hacc hsync =>
    ⟨_, w', Relation.ReflTransGen.single ⟨.other, .work i hw h⟩, rfl, rfl, hacc, hsync⟩
  simp only [Worker.underway, Bool.or_eq_true, decide_eq_true_eq] at hunder
  rcases hunder with (hphase | hphase) | hsync
  · exact hstep _ (.connected hphase) rfl rfl
  · exact hstep _ (.sync hphase) rfl rfl
  · refine ⟨p, w, Relation.ReflTransGen.refl, rfl, ?_, rfl, hsync⟩
    exact List.ext_getElem? fun j => by
      by_cases hij : i = j
      · subst hij
        rw [List.getElem?_set_self (List.getElem?_eq_some_iff.mp hw).1, hw]
      · rw [List.getElem?_set_ne hij]

theorem Leads.trans {p''  : Process} (h : Leads py p p') (h' : Leads py p' p'') : Leads py p p'' :=
  Relation.ReflTransGen.trans h h'

/-- A step over a lingering worker may lead to two syncs of the account. -/
theorem lingering_overlaps (hst : ProcessStep py p m p') (hm : ¬ Patient p m) : ∃ p'', Leads py p' p'' ∧ ¬ OneSync p'' := by
  cases hst with
  | @poll acc rest now hmain ha hd =>
    obtain ⟨w, hmem, hid, -, hunder⟩ := not_not.mp hm
    obtain ⟨i, hw⟩ := List.mem_iff_getElem?.mp hmem
    obtain ⟨q, w', hleads, hqmain, hqworkers, hacc, hsync⟩ :=
      underway_syncs py (p := { p with main := .syncing acc rest now }) hw hunder
    refine ⟨q, hleads, fun hone => ?_⟩
    have hthreads := hone acc.id .main (.worker i) ⟨acc, rest, now, hqmain, rfl⟩ ⟨w', ?_, by rw [hacc, hid], hsync⟩
    · cases hthreads
    · rw [hqworkers, List.getElem?_set_self (List.getElem?_eq_some_iff.mp hw).1]
  | @start acc rest accounts now hmain ha =>
    obtain ⟨w, hmem, hid, -, hunder⟩ := not_not.mp hm
    obtain ⟨i, hw⟩ := List.mem_iff_getElem?.mp hmem
    have hi : i < p.workers.length := (List.getElem?_eq_some_iff.mp hw).1
    have hne : p.workers.length ≠ i := by omega
    -- the new worker passes its checks, connects and begins its sync
    let q₁ : Process := { p.start py acc with main := .ensuring rest accounts now, skips := fun _ => false }
    have hlen : p.workers.length < q₁.workers.length := by simp [q₁, Process.start]
    have hnew : q₁.workers[p.workers.length]? = some (newWorker acc) := by simp [q₁, Process.start]
    have hold : q₁.workers[i]? = some w := by
      rw [show q₁.workers = p.workers ++ [newWorker acc] from rfl, List.getElem?_append_left hi, hw]
    let v := { newWorker acc with phase := .connecting }
    let q₂ : Process := { q₁ with workers := q₁.workers.set p.workers.length v }
    have hv : q₂.workers[p.workers.length]? = some v := List.getElem?_set_self hlen
    let u := { v with phase := .syncing true }
    let q₃ : Process := { q₂ with workers := q₂.workers.set p.workers.length u }
    have hfirst : Leads py { p.start py acc with main := .ensuring rest accounts now } q₃ := by
      have h₁ : Leads py { p.start py acc with main := .ensuring rest accounts now } q₁ :=
        .single ⟨.other, .state (fun _ => false) _⟩
      have h₂ : Leads py q₁ q₂ := .single ⟨.other, .work _ hnew (.connect rfl rfl rfl)⟩
      have h₃ : Leads py q₂ q₃ := .single ⟨.other, .work _ hv (.connected rfl)⟩
      exact h₁.trans (h₂.trans h₃)
    have hold₃ : q₃.workers[i]? = some w := by
      rw [show q₃.workers = (q₁.workers.set p.workers.length v).set p.workers.length u from rfl,
        List.getElem?_set_ne hne, List.getElem?_set_ne hne, hold]
    have hu : q₃.workers[p.workers.length]? = some u := List.getElem?_set_self (by simpa [q₂] using hlen)
    obtain ⟨q, w', hleads, -, hqworkers, hacc, hsync⟩ := underway_syncs py hold₃ hunder
    refine ⟨q, hfirst.trans hleads, fun hone => ?_⟩
    have hthreads := hone acc.id (.worker p.workers.length) (.worker i) ⟨u, ?_, rfl, rfl⟩
      ⟨w', ?_, by rw [hacc, hid], hsync⟩
    · exact hne (Thread.worker.inj hthreads)
    · rw [hqworkers, List.getElem?_set_ne (Ne.symm hne), hu]
    · rw [hqworkers, List.getElem?_set_self (List.getElem?_eq_some_iff.mp hold₃).1]
  | _ => exact absurd trivial hm

/-- Along every run whose steps start no worker and poll no account over a lingering worker, at most one thread
    is in a sync of any account; and a step that does may lead to two. -/
theorem one_sync_at_a_time (py : Platform) :
    (∀ p, Run (aggregator py) Patient p → OneSync p) ∧
      ∀ p m p', Reachable (aggregator py) p → ProcessStep py p m p' → ¬ Patient p m →
        ∃ p'', Leads py p' p'' ∧ ¬ OneSync p'' := by
  refine ⟨fun p h => ?_, fun p m p' _ hst hm => lingering_overlaps hst hm⟩
  refine Quiet.oneSync (Run.invariant (I := Quiet) (fun _ => quiet_fresh) ?_ h)
  exact fun p m p' hrun hquiet hpatient hst => hquiet.step (reachable_sound hrun.reachable) hpatient hst

/-! ### Folders that change during a sync -/

def demoPlatform : Platform := ⟨fun s => s, fun s => s, fun _ => false⟩

def demoAccount (folders : List String) : Account :=
  ⟨"a", "imap_custom", "imap", "h", 993, true, "u", folders, none⟩

def demoStart : Process := ⟨[], ∅, ∅, ∅, ∅, ∅, fun _ => false, fun _ => false, 0, .idle⟩

/-- The worker of the account is connecting, and the poll loop goes over the accounts. -/
def managed : Process where
  workers := [{ newWorker (demoAccount ["INBOX"]) with phase := .connecting }]
  active := (∅ : Map String ℕ).insert "a" 0
  activeFolders := (∅ : Map String (List String)).insert "a" ["INBOX"]
  unsupported := ∅
  retryAfter := ∅
  lastPoll := ∅
  skips _ := false
  pinned := Function.update (fun _ => false) "a" false
  clock := 0
  main := .polling [demoAccount ["INBOX"]] 0

/-- A step that starts no worker and polls no account. -/
theorem other_run (h : Run (aggregator py) Patient p) (hst : ProcessStep py p .other p') :
    Run (aggregator py) Patient p' :=
  Run.next (a := Move.other) h trivial hst

theorem managed_reach : Run (aggregator demoPlatform) Patient managed := by
  have h : Run (aggregator demoPlatform) Patient demoStart := .start ⟨rfl, rfl, rfl⟩
  have h := other_run h (.pass [demoAccount ["INBOX"]] rfl)
  have h := other_run h (.pruned rfl)
  have h := other_run h (.ensure rfl)
  have h := Run.next (a := Move.start (demoAccount ["INBOX"])) h (fun ⟨w, hw, _⟩ => nomatch hw) (.start rfl rfl)
  have h := other_run h (.work 0 rfl (.connect rfl rfl rfl))
  exact other_run h (.ensured rfl)

theorem one_sync_at_a_time_demo : OneSync managed :=
  (one_sync_at_a_time demoPlatform).1 managed managed_reach

/-- The folders change while the worker is connecting: it is asked to stop and outlives the `join`, and the
    same pass finds it inactive and polls the account. -/
theorem folder_change_overlaps : ¬ ∀ p, Reachable (aggregator demoPlatform) p → OneSync p := by
  intro hall
  have h : Reachable (aggregator demoPlatform) managed := managed_reach.reachable
  have h := h.step (ProcessStep.managed rfl rfl)
  have h := h.step (ProcessStep.finish rfl)
  have h := h.step (ProcessStep.pass [demoAccount ["INBOX", "Junk"]] rfl)
  have h := h.step (ProcessStep.prune rfl)
  have h := h.step (ProcessStep.pruned rfl)
  have h := h.step (ProcessStep.ensure rfl)
  have h := h.step (ProcessStep.lingers rfl rfl)
  have h := h.step (ProcessStep.ensured rfl)
  have h := h.step (ProcessStep.poll rfl rfl rfl)
  have h := h.step (ProcessStep.work 0 rfl (.connected rfl))
  have hthreads := hall _ h "a" .main (.worker 0) ⟨_, _, _, rfl, rfl⟩ ⟨_, rfl, rfl, rfl⟩
  cases hthreads

end OneMail.Idle
