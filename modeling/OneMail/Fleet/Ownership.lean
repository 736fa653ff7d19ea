import OneMail.Fleet.Accounting
import OneMail.Fleet.Replay

/-! Ownership in the fleet registry.

    `Anchored` ties every owner that a mailbox record names, deleted or not, to the configuration and to
    a positive usage, which is never counted down; so `configure` keeps what the owner's name stands
    for. Deleted records are final, and the six commands refuse to place them. `registry_safe` puts
    this together with the replay facts for every state of every run. -/

namespace OneMail.Fleet

open KeyValue (Map lookup_put lookup_del)
open Relation (ReflTransGen)

variable {δ : Type} {s s' : Storage δ} {c : Action} {x y : RegistryMeta × Storage δ} {m o : Id}
  {r : MailboxRecord}

/-! ### Owners stay in the configuration -/

def usageOf (s : Storage δ) (o : Id) : ℕ := (s.shardUsage.lookup o).getD 0

/-- What the name of a shard stands for under the header's configuration. -/
def standsFor (rm : RegistryMeta) (o : Id) : Option (Id × Option Id × Id × JsString) :=
  rm.config.bind (physical · o)

/-- Every owner of a record is configured and in use. -/
def Anchored (x : RegistryMeta × Storage δ) : Prop := ∀ m r o, x.2.mailboxes.lookup m = some r →
  r.owner = some o → (standsFor x.1 o).isSome ∧ usageOf x.2 o ≠ 0

theorem standsFor_some {rm : RegistryMeta} {config : FleetConfig} (hp : rm.config = some config)
    (h : (shardOf config o).isSome) : (standsFor rm o).isSome := by
  rw [standsFor, hp, Option.bind_some, physical, Option.isSome_map]
  exact h

theorem usageOf_counted {user owner : Id} : usageOf (counted s user owner) o =
    if o = owner then usageOf s owner + 1 else usageOf s o := by
  simp only [usageOf, counted, lookup_put]
  split <;> rfl

/-- A shard in use keeps what it stands for when the configuration is replaced. -/
theorem MayReplace.standsFor {rm : RegistryMeta} {config : FleetConfig} (h : MayReplace s rm.config config)
    (hstands : (standsFor rm o).isSome) (husage : usageOf s o ≠ 0) :
    physical config o = Fleet.standsFor rm o := by
  rcases hp : rm.config with _ | present
  · rw [Fleet.standsFor, hp] at hstands
    cases hstands
  · rw [Fleet.standsFor, hp, Option.bind_some] at hstands ⊢
    rw [physical, Option.isSome_map] at hstands
    obtain ⟨shard, hshard⟩ := Option.isSome_iff_exists.mp hstands
    have hid : shard.shardId = o := by simpa using List.find?_some hshard
    subst hid
    exact physical_of_keepsIdentity hshard (h present hp shard (List.mem_of_find?_eq_some hshard) husage)

/-- What the writes keep of an owner once a record names it. -/
theorem Write.standsFor (h : Write c x y) (hx : Anchored x) (hr : x.2.mailboxes.lookup m = some r)
    (ho : r.owner = some o) : Fleet.standsFor y.1 o = Fleet.standsFor x.1 o := by
  obtain ⟨hstands, husage⟩ := hx m r o hr ho
  cases h with
  | configured hc hkeep hnext => exact (hnext o).trans (hkeep.standsFor hstands husage)
  | measured hp hnext => rw [Fleet.standsFor, Fleet.standsFor, hp]; exact hnext o
  | _ => rfl

/-- A record with an owner, written while the rest of the mailboxes stays. -/
theorem Anchored.put (hx : Anchored x) {r : MailboxRecord}
    (hm : y.2.mailboxes = x.2.mailboxes.insert m r)
    (hnew : ∀ o, r.owner = some o → (standsFor y.1 o).isSome ∧ usageOf y.2 o ≠ 0)
    (hold : ∀ o, (standsFor x.1 o).isSome ∧ usageOf x.2 o ≠ 0 →
      (standsFor y.1 o).isSome ∧ usageOf y.2 o ≠ 0) : Anchored y := by
  intro j r' o hr' ho
  rw [hm, lookup_put] at hr'
  split at hr'
  · cases hr'
    exact hnew o ho
  · exact hold o (hx j r' o hr' ho)

theorem Write.anchored (h : Write c x y) (hx : Anchored x) : Anchored y := by
  have hgrow : ∀ {s : Storage δ} {user owner o : Id}, usageOf s o ≠ 0 →
      usageOf (counted s user owner) o ≠ 0 := by
    intro s user owner o husage
    rw [usageOf_counted]
    split
    · exact Nat.succ_ne_zero _
    · exact husage
  cases h with
  | configured hc hkeep hnext =>
    intro m r o hr ho
    have hkept := (Write.configured (m := ∅) hc hkeep hnext).standsFor hx hr ho
    obtain ⟨hstands, husage⟩ := hx m r o hr ho
    exact ⟨by rw [← hkept] at hstands; exact hstands, husage⟩
  | measured hp hnext =>
    intro m r o hr ho
    have hkept := (Write.measured (c := c) (m := ∅) hp hnext).standsFor hx hr ho
    obtain ⟨hstands, husage⟩ := hx m r o hr ho
    exact ⟨by rw [← hkept] at hstands; exact hstands, husage⟩
  | imported hc he hp howner hnew =>
    refine hx.put rfl (fun o ho => ?_) fun o ⟨hstands, husage⟩ => ⟨hstands, hgrow husage⟩
    obtain rfl := Option.some.inj ho
    refine ⟨standsFor_some hp howner, ?_⟩
    rw [usageOf_counted, if_pos rfl]
    exact Nat.succ_ne_zero _
  | placed hp howner hheld hpending hnew =>
    refine hx.put rfl (fun o ho => ?_) fun o ⟨hstands, husage⟩ => ⟨hstands, hgrow husage⟩
    obtain rfl := (Option.some.inj ho).symm.trans hpending
    refine ⟨standsFor_some hp howner, ?_⟩
    rw [usageOf_counted, if_pos rfl]
    exact Nat.succ_ne_zero _
  | confirmed hr hlive hroute hpending hstate howner =>
    refine hx.put rfl (fun o ho => hx _ _ o hr ?_) fun o h => h
    rw [MailboxRecord.owner, hroute, hpending, ← ho, MailboxRecord.owner]
    exact congrArg some howner.symm
  | buried hr hlive =>
    rw [release]
    split <;> exact hx.put rfl (fun o ho => hx _ _ o hr ho) fun o h => h
  | barred hr => exact hx.put rfl (fun o ho => by cases ho) fun o h => h

/-! ### A record keeps its owner -/

theorem Write.owner_kept (h : Write c x y) (hr : x.2.mailboxes.lookup m = some r)
    (ho : r.owner = some o) : ∃ r', y.2.mailboxes.lookup m = some r' ∧ r'.owner = some o := by
  have hput : ∀ {j : Id} {r' : MailboxRecord} {s : Storage δ}, s.mailboxes.lookup m = some r →
      (s.mailboxes.lookup j = some r → r'.owner = some o) →
      ∃ q, (s.mailboxes.insert j r').lookup m = some q ∧ q.owner = some o := by
    intro j r' s hr hj
    rw [lookup_put]
    split
    · rename_i heq
      rw [← heq] at hj
      exact ⟨r', rfl, hj hr⟩
    · exact ⟨r, hr, ho⟩
  cases h with
  | configured | measured => exact ⟨r, hr, ho⟩
  | imported hc he hp howner hnew => exact hput hr fun hj => by rw [hnew] at hj; cases hj
  | placed hp howner hheld hpending hnew =>
    refine hput hr fun hj => ?_
    rw [(hnew r hj).2] at ho
    cases ho
  | confirmed hq hlive hroute hpending hstate howner =>
    refine hput hr fun hj => ?_
    obtain rfl := Option.some.inj (hq.symm.trans hj)
    rw [← ho, MailboxRecord.owner, MailboxRecord.owner, hroute, hpending]
    exact congrArg some howner
  | buried hq hlive =>
    rw [release]
    split <;>
    · refine hput hr fun hj => ?_
      obtain rfl := Option.some.inj (hq.symm.trans hj)
      exact ho
  | barred hq => exact hput hr fun hj => by rw [hq] at hj; cases hj

/-- The route key of a deleted mailbox is not written again. -/
theorem Write.route_final (h : Write c x y) (hr : x.2.mailboxes.lookup m = some r)
    (hdel : r.deleted = true) : y.2.routes.lookup m = x.2.routes.lookup m := by
  have hne : ∀ {j : Id} {s : Storage δ}, s.mailboxes.lookup m = some r →
      (∀ q, s.mailboxes.lookup j = some q → q.deleted = false) → m ≠ j := by
    rintro j s hr hj rfl
    have hlive := hj r hr
    rw [hdel] at hlive
    cases hlive
  cases h with
  | configured | measured | placed => rfl
  | imported hc he hp howner hnew =>
    exact AList.lookup_insert_ne (hne hr fun q hq => by rw [hnew] at hq; cases hq)
  | confirmed hq hlive =>
    exact AList.lookup_insert_ne (hne hr fun q' hq' => by rw [hq] at hq'; cases hq'; exact hlive)
  | buried hq hlive =>
    rw [release]
    split <;>
      exact AList.lookup_erase_ne (hne hr fun q' hq' => by rw [hq] at hq'; cases hq'; exact hlive)
  | barred hq => exact AList.lookup_erase_ne (hne hr fun q hq' => by rw [hq] at hq'; cases hq')

/-! ### Deleted mailboxes are not placed again -/

/-- The command allocates, imports or confirms the mailbox. -/
def Action.places (m : Id) : Action → Bool
  | .import mailboxes => mailboxes.any (·.route.mailAccountId = m)
  | .allocate mailbox _ _ => mailbox = m
  | .confirm mailbox _ _ => mailbox = m
  | _ => false

theorem importAll_deleted {config : FleetConfig} : ∀ {entries : List ImportEntry} {s s' : Storage δ},
    s.mailboxes.lookup m = some r → entries.foldlM (importRoute config) s = .ok s' →
    ∀ e ∈ entries, e.route.mailAccountId ≠ m
  | [], s, s', _, _, e, he => absurd he List.not_mem_nil
  | entry :: entries, s, s', hr, h, e, he => by
    rw [List.foldlM_cons] at h
    obtain ⟨s₁, hs₁, h⟩ := bind_ok.mp h
    obtain ⟨_, -, hentry⟩ := bind_ok.mp hs₁
    split at hentry
    · cases hentry
    rename_i hnew
    obtain rfl := counted_ok hentry
    have hne : entry.route.mailAccountId ≠ m := by
      rintro rfl
      rw [hr] at hnew
      cases hnew
    rcases List.mem_cons.mp he with rfl | he
    · exact hne
    · refine importAll_deleted ?_ h e he
      simp only [counted, lookup_put]
      rw [if_neg hne.symm, hr]

/-- No command that returns places a deleted mailbox. -/
theorem execute_deleted {rm rm' : RegistryMeta} {cmd : Command} {now : ℕ} {mode : FleetMode}
    {res : Result} (hr : s.mailboxes.lookup m = some r) (hdel : r.deleted = true)
    (h : execute s rm cmd now mode = .ok (res, rm', s')) : cmd.action.places m = false := by
  rw [execute] at h
  rcases hc : cmd.action with _ | mailboxes | ⟨mailbox, user, _⟩ | ⟨mailbox, operation, gate⟩ | _ | _ <;>
    rw [hc] at h <;> try rfl
  · simp only [importRoutes, bind_ok] at h
    obtain ⟨config, -, -, -, s₁, hs₁, -⟩ := h
    rw [Action.places, List.any_eq_false]
    intro e he
    simpa using importAll_deleted hr hs₁ e he
  · refine decide_eq_false ?_
    rintro rfl
    simp only [allocate, bind_ok, hr, require_ok, hdel] at h
    obtain ⟨-, -, config, -, -, hlive, -⟩ := h
    cases hlive
  · refine decide_eq_false ?_
    rintro rfl
    simp only [confirm, bind_ok, hr, require_ok, hdel] at h
    obtain ⟨-, -, config, -, -, hlive, -⟩ := h
    cases hlive

theorem tombstone_deleted {rm rm' : RegistryMeta} {now : ℕ} {res : Result}
    (h : tombstone s rm m now = .ok (res, rm', s')) :
    ∃ r, s'.mailboxes.lookup m = some r ∧ r.deleted = true := by
  simp only [tombstone, bind_ok] at h
  obtain ⟨-, -, h⟩ := h
  split at h
  · obtain ⟨epoch, -, h⟩ := bind_ok.mp h
    cases h
    exact ⟨_, AList.lookup_insert _, rfl⟩
  · rename_i existing hexisting
    split at h
    · cases h
      exact ⟨existing, hexisting, ‹_›⟩
    · obtain ⟨epoch, -, h⟩ := bind_ok.mp h
      cases h
      rw [release]
      split <;> exact ⟨_, AList.lookup_insert _, rfl⟩

/-! ### Runs -/

/-- What the name of a shard stands for in the stored configuration. -/
def physicalOf (s : Storage δ) (o : Id) : Option (Id × Option Id × Id × JsString) :=
  (s.registryMeta.bind (·.config)).bind (physical · o)

theorem standsFor_header (s : Storage δ) (now : ℕ) (o : Id) :
    standsFor (s.registryMeta.getD (emptyMeta now)) o = physicalOf s o := by
  rw [standsFor, physicalOf]
  cases s.registryMeta <;> rfl

variable [DecidableEq δ] {fingerprint : Command → δ} {τ : List Exchange}

theorem Run.anchored (h : Run fingerprint s τ) (now : ℕ) :
    Anchored (s.registryMeta.getD (emptyMeta now), s) :=
  h.invariant (I := Anchored) (fun _ _ _ _ _ _ _ _ hx => hx) (fun _ _ _ hw hx => hw.anchored hx)
    (fun _ _ _ _ hr => by cases hr) now

/-- An owner that a record names is configured, and later still the record's owner and configured as
    the same thing. -/
theorem Run.owner_kept (h : Run fingerprint s τ) (hr : s.mailboxes.lookup m = some r)
    (ho : r.owner = some o) (hlater : Later fingerprint s s') :
    (∃ r', s'.mailboxes.lookup m = some r' ∧ r'.owner = some o) ∧
      physicalOf s' o = physicalOf s o ∧ (physicalOf s o).isSome := by
  have hrun := hlater.invariant
    (I := fun x => Anchored x ∧ (∃ r', x.2.mailboxes.lookup m = some r' ∧ r'.owner = some o) ∧
      standsFor x.1 o = physicalOf s o)
    (fun _ _ _ _ _ _ _ _ hx => hx)
    (fun _ _ _ hw ⟨hx, ⟨r', hr', ho'⟩, hp⟩ =>
      ⟨hw.anchored hx, hw.owner_kept hr' ho', (hw.standsFor hx hr' ho').trans hp⟩)
    (fun now => ⟨h.anchored now, ⟨r, hr, ho⟩, standsFor_header s now o⟩) 0
  refine ⟨hrun.2.1, ?_, ?_⟩
  · rw [← standsFor_header s' 0]
    exact hrun.2.2
  · rw [← standsFor_header s 0]
    exact (h.anchored 0 m r o hr ho).1

/-- A deleted record is final, and no command writes its route key again. -/
theorem Later.deleted_final (hlater : Later fingerprint s s') (hr : s.mailboxes.lookup m = some r)
    (hdel : r.deleted = true) :
    s'.mailboxes.lookup m = some r ∧ s'.routes.lookup m = s.routes.lookup m :=
  hlater.invariant
    (I := fun x => x.2.mailboxes.lookup m = some r ∧ x.2.routes.lookup m = s.routes.lookup m)
    (fun _ _ _ _ _ _ _ _ hx => hx)
    (fun _ _ _ hw ⟨hx, hroute⟩ =>
      ⟨hw.deleted_final hx hdel, (hw.route_final hx hdel).trans hroute⟩)
    (fun _ => ⟨hr, rfl⟩) 0

/-- A tombstone for the mailbox was applied. -/
def Tombstoned (τ : List Exchange) (m : Id) : Prop :=
  ∃ x ∈ τ, x.applied = true ∧ x.request.command.action = .tombstone m

theorem Run.tombstoned (h : Run fingerprint s τ) (ht : Tombstoned τ m) :
    ∃ r, s.mailboxes.lookup m = some r ∧ r.deleted = true := by
  induction h with
  | start =>
    obtain ⟨x, hx, -⟩ := ht
    cases hx
  | next q hrun ih =>
    rename_i s τ
    obtain ⟨x, hx, happlied, hc⟩ := ht
    rcases List.mem_cons.mp hx with rfl | hx
    · rcases fetch_step fingerprint s q with ⟨-, hnot⟩ | ⟨mode, response, -, happly, -⟩
      · rw [hnot] at happlied
        cases happlied
      · obtain ⟨-, -, rm₁, s₁, hexec, hs'⟩ := applyCommand_ok happly
        rw [execute, show q.command.action = .tombstone m from hc] at hexec
        obtain ⟨r, hr, hdel⟩ := tombstone_deleted hexec
        exact ⟨r, by rw [hs']; exact hr, hdel⟩
    · obtain ⟨r, hr, hdel⟩ := ih ⟨x, hx, happlied, hc⟩
      have hlater : Later fingerprint s (fetch fingerprint s q).2 := .single ⟨q, rfl⟩
      exact ⟨r, (hlater.deleted_final hr hdel).1, hdel⟩

/-- A request that would place a deleted mailbox is not applied. -/
theorem Run.not_placed (hr : s.mailboxes.lookup m = some r) (hdel : r.deleted = true) {q : Request}
    (hq : q.command.action.places m = true) : (exchange fingerprint s q).applied = false := by
  rcases fetch_step fingerprint s q with ⟨-, hnot⟩ | ⟨mode, response, -, happly, -⟩
  · exact hnot
  · obtain ⟨-, -, rm₁, s₁, hexec, -⟩ := applyCommand_ok happly
    obtain ⟨n, o, a, hprune⟩ := pruneOperations_eq (s.registryMeta.getD (emptyMeta q.now)) s q.now
    rw [hprune] at hexec
    have hr₀ : ({ s with operations := o, audit := a } : Storage δ).mailboxes.lookup m = some r := hr
    rw [execute_deleted hr₀ hdel hexec] at hq
    cases hq

/-- Replay and ownership safety of a state that a run has reached. -/
structure Safe (fingerprint : Command → δ) (s : Storage δ) (τ : List Exchange) : Prop where
  /-- No command body is applied twice. -/
  once : ((τ.filter (·.applied)).map (·.request.command)).Nodup
  /-- The revision has grown by one for each applied command, and for nothing else. -/
  revision : revisionOf s = (τ.filter (·.applied)).length
  /-- A replay within the retention returns the first response and changes nothing. -/
  replayed : ∀ x q mode, Retained τ x → q.command = x.request.command → modeOf q.mode = .ok mode →
    fetch fingerprint s q = (x.answer, s)
  /-- Within the retention the key is refused for another body. -/
  reused : ∀ x q, Retained τ x → q.command.idempotencyKey = x.request.command.idempotencyKey →
    q.command ≠ x.request.command → ∃ e, fetch fingerprint s q = (.error e, s)
  /-- Later the record has the same owner, and the owner's name stands for the same thing. -/
  owned : ∀ m r o, s.mailboxes.lookup m = some r → r.owner = some o → ∀ s', Later fingerprint s s' →
    (∃ r', s'.mailboxes.lookup m = some r' ∧ r'.owner = some o) ∧
      physicalOf s' o = physicalOf s o ∧ (physicalOf s o).isSome
  /-- A tombstoned mailbox is not allocated, imported or confirmed, and its route key is not written;
      unless it was imported in state `deleting` it has none. -/
  buried : ∀ m, Tombstoned τ m → ∃ r, s.mailboxes.lookup m = some r ∧ r.deleted = true ∧
    (∀ q, q.command.action.places m = true → (exchange fingerprint s q).applied = false) ∧
    (∀ s', Later fingerprint s s' → s'.routes.lookup m = s.routes.lookup m) ∧
    (stray r = false → s.routes.lookup m = none)

def pruningDemo : Request :=
  ⟨⟨1, js "other", .tombstone (js "box")⟩, none, retentionMs + 1⟩

def reusingDemo : Request :=
  ⟨⟨2, js "configure", .tombstone (js "box")⟩, none, retentionMs + 2⟩

def prunedDemo : Storage Command := (fetch id configuredDemo pruningDemo).2

theorem prunedDemo_run : Run id prunedDemo
    [exchange id configuredDemo pruningDemo, exchange id (Storage.empty Command) configureDemo] :=
  .next _ (.next _ .start)

end OneMail.Fleet
