import Mathlib
import OneMail.Fleet.Registry

/-! What a command can do to the registry.

    `Write` lists the elementary writes, each with all the guards behind it; `execute_writes` is the
    inversion lemma: a command that returns has made a sequence of them. Invariants of the registry are
    proved once for each `Write`, and no proof unfolds a command again. -/

namespace OneMail.Fleet

open KeyValue (Map)
open Relation (ReflTransGen)

variable {δ : Type}

/-! ### Counters -/

/-- The storage after the usage of the shard and the user's affinity to it have been counted up. -/
def counted (s : Storage δ) (user shard : Id) : Storage δ :=
  { s with
    shardUsage := s.shardUsage.insert shard ((s.shardUsage.lookup shard).getD 0 + 1)
    users := s.users.insert user
      ((affinities s user).insert shard (((affinities s user).lookup shard).getD 0 + 1)) }

theorem counted_ok {s s' : Storage δ} {user shard : Id}
    (h : (do addAffinity (← incrementUsage s shard) user shard) = .ok s') : s' = counted s user shard := by
  simp only [incrementUsage, addAffinity, bind_ok] at h
  obtain ⟨s₁, ⟨usage, hu, hs₁⟩, count, hc, hs'⟩ := h
  cases hs₁
  cases hs'
  rw [safeAdd_pair_ok hu, safeAdd_pair_ok hc]
  rfl

/-! ### Configurations -/

/-- What an owner's name stands for: account key, provider account, database and base URL. -/
def physical (config : FleetConfig) (id : Id) : Option (Id × Option Id × Id × JsString) :=
  (shardOf config id).map fun shard =>
    (shard.accountKey, (accountOf config shard.accountKey).map (·.providerAccountId), shard.databaseId,
      shard.baseUrl)

/-- A change of the configuration that renames no account or shard and moves no database. -/
theorem physical_map {config : FleetConfig} {f : CloudAccount → CloudAccount} {g : Shard → Shard}
    (hf : ∀ a, (f a).accountKey = a.accountKey ∧ (f a).providerAccountId = a.providerAccountId)
    (hg : ∀ s, (g s).shardId = s.shardId ∧ (g s).accountKey = s.accountKey ∧
      (g s).databaseId = s.databaseId ∧ (g s).baseUrl = s.baseUrl) (id : Id) :
    physical { config with accounts := config.accounts.map f, shards := config.shards.map g } id =
      physical config id := by
  have hshard : shardOf { config with accounts := config.accounts.map f, shards := config.shards.map g }
      id = (shardOf config id).map g := by
    simp only [shardOf, List.find?_map, Function.comp_def, (hg _).1]
  have haccount : ∀ key, (accountOf { config with
      accounts := config.accounts.map f, shards := config.shards.map g } key).map
        (·.providerAccountId) = (accountOf config key).map (·.providerAccountId) := by
    intro key
    simp only [accountOf, List.find?_map, Function.comp_def, (hf _).1, Option.map_map, (hf _).2]
  simp only [physical, hshard, haccount, Option.map_map, Function.comp_def, (hg _).2.1, (hg _).2.2.1,
    (hg _).2.2.2]

/-- Two configurations that name the same things. -/
def SamePhysical (config next : FleetConfig) : Prop := ∀ id, physical next id = physical config id

theorem physical_of_keepsIdentity {present next : FleetConfig} {shard : Shard}
    (hs : shardOf present shard.shardId = some shard) (h : keepsIdentity present next shard = true) :
    physical next shard.shardId = physical present shard.shardId := by
  rw [keepsIdentity] at h
  split at h
  · cases h
  · rename_i replacement hr
    simp only [Bool.and_eq_true, decide_eq_true_eq] at h
    obtain ⟨⟨⟨hkey, hdb⟩, hurl⟩, hprovider⟩ := h
    simp only [physical, hs, hr, Option.map_some, hkey, hdb, hurl, hprovider]

/-! ### The writes -/

/-- A new configuration may replace the present one: it keeps every shard in use. -/
def MayReplace (s : Storage δ) (present : Option FleetConfig) (next : FleetConfig) : Prop :=
  ∀ config, present = some config → ∀ shard ∈ config.shards,
    (s.shardUsage.lookup shard.shardId).getD 0 ≠ 0 → keepsIdentity config next shard = true

/-- The record and the reservation of a mailbox that is placed anew. -/
def enrolled (s : Storage δ) (mailbox user : Id) (pending : PendingAllocation) (reservation : Reservation) :
    Storage δ :=
  { s with
    allocationBudgets := s.allocationBudgets.insert reservation.accountKey
      ((s.allocationBudgets.lookup reservation.accountKey).getD emptyBudget + reservation.demand)
    reservedBytes := s.reservedBytes.insert reservation.shardId
      ((s.reservedBytes.lookup reservation.shardId).getD 0 + reservation.demand.reservedBytes)
    reservations := s.reservations.insert mailbox reservation
    mailboxes := s.mailboxes.insert mailbox ⟨user, none, some pending, false, 1⟩ }

/-- One write of a command `c`, on the header it holds and the storage. -/
inductive Write (c : Action) : RegistryMeta × Storage δ → RegistryMeta × Storage δ → Prop
  | configured {rm s config next m} (hc : c = .configure config) (hkeep : MayReplace s rm.config config)
      (hnext : SamePhysical config next) :
      Write c (rm, s) ({ rm with config := some next }, { s with metrics := m })
  | measured {rm s present next m} (hp : rm.config = some present) (hnext : SamePhysical present next) :
      Write c (rm, s) ({ rm with config := some next }, { s with metrics := m })
  | imported {rm s config mailboxes entry} (hc : c = .import mailboxes) (he : entry ∈ mailboxes)
      (hp : rm.config = some config) (howner : (shardOf config entry.route.ownerShardId).isSome)
      (hnew : s.mailboxes.lookup entry.route.mailAccountId = none) :
      Write c (rm, s) ({ rm with mailboxCount := rm.mailboxCount + 1 },
        counted { s with
          mailboxes := s.mailboxes.insert entry.route.mailAccountId
            ⟨entry.userKey, some entry.route, none, entry.route.state = .deleting, entry.route.epoch⟩
          routes := s.routes.insert entry.route.mailAccountId entry.route }
          entry.userKey entry.route.ownerShardId)
  | placed {rm s config mailbox user pending reservation} (hp : rm.config = some config)
      (howner : (shardOf config reservation.shardId).isSome) (hheld : reservation.held = true)
      (hpending : pending.ownerShardId = reservation.shardId)
      (hnew : ∀ r, s.mailboxes.lookup mailbox = some r → r.deleted = false ∧ r.owner = none) :
      Write c (rm, s) ({ rm with mailboxCount := rm.mailboxCount + 1 },
        counted (enrolled s mailbox user pending reservation) user reservation.shardId)
  | confirmed {rm s mailbox route pending} {r : MailboxRecord} (hr : s.mailboxes.lookup mailbox = some r)
      (hlive : r.deleted = false) (hroute : r.route = none) (hpending : r.pending = some pending)
      (hstate : route.state = .active) (howner : route.ownerShardId = pending.ownerShardId) :
      Write c (rm, s) (rm, { s with
        mailboxes := s.mailboxes.insert mailbox { r with route := some route }
        routes := s.routes.insert mailbox route })
  | buried {rm s mailbox epoch} {r : MailboxRecord} (hr : s.mailboxes.lookup mailbox = some r)
      (hlive : r.deleted = false) :
      Write c (rm, s) ({ rm with mailboxCount := rm.mailboxCount - 1 },
        release { s with
          mailboxes := s.mailboxes.insert mailbox { r with deleted := true, epoch := epoch }
          routes := s.routes.erase mailbox } r)
  | barred {rm s mailbox epoch} (hr : s.mailboxes.lookup mailbox = none) :
      Write c (rm, s) (rm, { s with
        mailboxes := s.mailboxes.insert mailbox ⟨js "deleted", none, none, true, epoch⟩
        routes := s.routes.erase mailbox })

/-! ### Each command is a sequence of writes -/

variable {c : Action} {s s' : Storage δ} {rm rm' : RegistryMeta} {res : Result} {now : ℕ}

theorem requireConfig_ok {config : FleetConfig} : requireConfig rm = .ok config ↔ rm.config = some config := by
  rcases hc : rm.config with _ | present <;> simp [requireConfig, hc]

theorem assertOwner_ok {config : FleetConfig} {owner : Id} (h : assertOwner config owner = .ok ()) :
    (shardOf config owner).isSome := by
  rw [assertOwner, require_ok] at h
  rwa [shardOf, List.find?_isSome, ← List.any_eq_true]

theorem configure_writes {config : FleetConfig} (h : configure s rm config = .ok (res, rm', s')) :
    Write (.configure config) (rm, s) (rm', s') := by
  simp only [configure, bind_ok, require_ok] at h
  obtain ⟨-, -, -, -, -, hkeep, h⟩ := h
  cases h
  refine .configured rfl (fun present hp shard hshard husage => ?_) ?_
  · rw [hp, Option.all_some, List.all_eq_true] at hkeep
    have hkept := hkeep shard hshard
    rw [Bool.or_eq_true, decide_eq_true_eq] at hkept
    exact hkept.resolve_left husage
  · have hmap : SamePhysical config { config with
        accounts := config.accounts.map fun account => if account.accountKey ∈ invalidated rm.config config
          then { account with metricsObservedAt := none } else account
        shards := config.shards.map id } :=
      physical_map (fun a => by split <;> exact ⟨rfl, rfl⟩) (fun _ => ⟨rfl, rfl, rfl, rfl⟩)
    rw [List.map_id] at hmap
    exact hmap

/-- New measurements under the configuration as it is. -/
theorem remeasured {config : FleetConfig} (hp : rm.config = some config) (m : Map Id MetricSeries) :
    Write c (rm, s) (rm, { s with metrics := m }) := by
  have hwrite : Write c (rm, s) ({ rm with config := some config }, { s with metrics := m }) :=
    .measured hp fun _ => rfl
  rwa [← hp] at hwrite

theorem metrics_writes {report : MetricReport} (h : metrics s rm report now = .ok (res, rm', s')) :
    Write c (rm, s) (rm', s') := by
  simp only [metrics, bind_ok, requireConfig_ok] at h
  obtain ⟨config, hconfig, -, -, -, -, h⟩ := h
  cases h
  split
  · refine .measured hconfig (physical_map (fun a => ?_) (fun s => ?_))
    · split <;> exact ⟨rfl, rfl⟩
    · split <;> exact ⟨rfl, rfl, rfl, rfl⟩
  · exact remeasured hconfig _

theorem importRoute_writes {config : FleetConfig} {mailboxes : List ImportEntry} {entry : ImportEntry}
    (hp : rm.config = some config) (hc : c = .import mailboxes) (he : entry ∈ mailboxes)
    (h : importRoute config s entry = .ok s') :
    Write c (rm, s) ({ rm with mailboxCount := rm.mailboxCount + 1 }, s') := by
  obtain ⟨_, howner, h⟩ := bind_ok.mp h
  split at h
  · cases h
  · rename_i hnew
    rw [counted_ok h]
    exact .imported hc he hp (assertOwner_ok howner) hnew

theorem importAll_writes {config : FleetConfig} {mailboxes : List ImportEntry} (hc : c = .import mailboxes) :
    ∀ {entries : List ImportEntry} {s s' : Storage δ} {rm : RegistryMeta}, rm.config = some config →
      entries ⊆ mailboxes → entries.foldlM (importRoute config) s = .ok s' →
      ReflTransGen (Write c) (rm, s)
        ({ rm with mailboxCount := rm.mailboxCount + entries.length }, s')
  | [], s, s', rm, _, _, h => by
    cases h
    simp only [List.length_nil, Nat.cast_zero, add_zero]
    exact .refl
  | entry :: entries, s, s', rm, hp, hsub, h => by
    rw [List.foldlM_cons] at h
    obtain ⟨s₁, hs₁, h⟩ := bind_ok.mp h
    have hlength : rm.mailboxCount + (entry :: entries).length = rm.mailboxCount + 1 + entries.length := by
      rw [List.length_cons]
      omega
    rw [hlength]
    exact .head (importRoute_writes hp hc (hsub List.mem_cons_self) hs₁)
      (importAll_writes hc hp (fun e he => hsub (List.mem_cons_of_mem _ he)) h)

theorem addBudget_ok {before demand budget : ResourceBudget} (h : addBudget before demand = .ok budget) :
    budget = before + demand := by
  simp only [addBudget, bind_ok] at h
  obtain ⟨read, hread, write, hwrite, requests, hrequests, bytes, hbytes, h⟩ := h
  cases h
  rw [safeAdd_pair_ok hread, safeAdd_pair_ok hwrite, safeAdd_pair_ok hrequests, safeAdd_pair_ok hbytes]
  rfl

theorem placed_ok {decision : Option PlacementDecision} {shard account : Id}
    (h : placed decision = .ok (shard, account)) :
    ∃ ppm, decision = some (.placed shard account ppm) := by
  rcases decision with _ | _ | _ | _ <;> cases h
  exact ⟨_, rfl⟩

theorem place_writes {config : FleetConfig} {mailbox user operation : Id} (hp : rm.config = some config)
    (hnew : ∀ r, s.mailboxes.lookup mailbox = some r → r.deleted = false ∧ r.owner = none)
    (h : place s rm config mailbox user operation now = .ok (res, rm', s')) :
    Write c (rm, s) (rm', s') := by
  simp only [place, bind_ok] at h
  obtain ⟨-, -, decision, hdecision, ⟨shard, account⟩, hplaced, budget, hbudget, bytes, hbytes, s₁, hs₁,
    s₂, hs₂, h⟩ := h
  cases h
  obtain ⟨ppm, rfl⟩ := placed_ok hplaced
  obtain ⟨sh, hsh, rfl, -⟩ := choosePlacement_placed hdecision
  rw [counted_ok (bind_ok.mpr ⟨s₁, hs₁, hs₂⟩), addBudget_ok hbudget, safeAdd_pair_ok hbytes]
  have howner : (shardOf config sh.shardId).isSome := by
    rw [shardOf, List.find?_isSome]
    exact ⟨sh, hsh, decide_eq_true rfl⟩
  let reservation : Reservation :=
    ⟨account, sh.shardId, operation, utcDate now, config.allocationBudget, true⟩
  exact .placed hp (show (shardOf config reservation.shardId).isSome from howner) rfl rfl hnew

theorem allocate_writes {mailbox user operation : Id} {mode : FleetMode}
    (h : allocate s rm mailbox user operation now mode = .ok (res, rm', s')) :
    ReflTransGen (Write c) (rm, s) (rm', s') := by
  simp only [allocate, bind_ok, requireConfig_ok] at h
  obtain ⟨-, -, config, hp, h⟩ := h
  split at h
  · rename_i hnone
    exact .single (place_writes hp (fun r hr => by rw [hnone] at hr; cases hr) h)
  · rename_i existing hexisting
    simp only [bind_ok, require_ok] at h
    obtain ⟨-, hlive, -, -, h⟩ := h
    split at h
    · cases h
      exact .refl
    · cases h
      exact .refl
    · rename_i hroute hpending
      refine .single (place_writes hp (fun r hr => ?_) h)
      obtain rfl := Option.some.inj (hexisting.symm.trans hr)
      exact ⟨by simpa using hlive, by simp [MailboxRecord.owner, hroute, hpending]⟩

theorem confirm_writes {mailbox operation : Id} {gate : Gate} {mode : FleetMode}
    (h : confirm s rm mailbox operation gate now mode = .ok (res, rm', s')) :
    ReflTransGen (Write c) (rm, s) (rm', s') := by
  simp only [confirm, bind_ok, requireConfig_ok] at h
  obtain ⟨-, -, config, hp, h⟩ := h
  split at h
  · cases h
  · rename_i existing hexisting
    simp only [bind_ok, require_ok] at h
    obtain ⟨-, hlive, h⟩ := h
    split at h
    · cases h
    · rename_i pending hpending
      simp only [bind_ok] at h
      obtain ⟨-, -, -, -, h⟩ := h
      split at h
      · cases h
        exact .refl
      · rename_i hroute
        cases h
        exact .single (.confirmed hexisting (by simpa using hlive) hroute hpending rfl rfl)

theorem tombstone_writes {mailbox : Id} (h : tombstone s rm mailbox now = .ok (res, rm', s')) :
    ReflTransGen (Write c) (rm, s) (rm', s') := by
  simp only [tombstone, bind_ok] at h
  obtain ⟨-, -, h⟩ := h
  split at h
  · rename_i hnone
    obtain ⟨epoch, -, h⟩ := bind_ok.mp h
    cases h
    exact .single (.barred hnone)
  · rename_i existing hexisting
    split at h
    · cases h
      exact .refl
    · rename_i hlive
      obtain ⟨epoch, -, h⟩ := bind_ok.mp h
      cases h
      exact .single (.buried hexisting (by simpa using hlive))

/-- A command that returns has made a sequence of writes. -/
theorem execute_writes {c : Command} {mode : FleetMode}
    (h : execute s rm c now mode = .ok (res, rm', s')) :
    ReflTransGen (Write c.action) (rm, s) (rm', s') := by
  rw [execute] at h
  split at h
  · rename_i config hc
    rw [hc]
    exact .single (configure_writes h)
  · rename_i mailboxes hc
    simp only [importRoutes, bind_ok, requireConfig_ok] at h
    obtain ⟨config, hp, -, -, s₁, hs₁, h⟩ := h
    cases h
    exact importAll_writes hc hp (List.Subset.refl _) hs₁
  · exact .single (metrics_writes h)
  · exact allocate_writes h
  · exact confirm_writes h
  · exact tombstone_writes h

/-! ### The transaction around a command -/

/-- Pruning counts operations down and erases operations and audit entries; the rest stays. -/
theorem pruneOperations_eq (rm : RegistryMeta) (s : Storage δ) (now : ℕ) : ∃ n o a, pruneOperations s rm now =
    ({ rm with operationCount := n }, { s with operations := o, audit := a }) := by
  have hfold : ∀ (entries : List (Σ _ : ℕ × Id, Id)) (n : ℤ) (o : Map Id (OperationRecord δ))
      (a : Map (ℕ × Id) Id), ∃ n' o' a', entries.foldl (fun acc e =>
        ({ acc.1 with operationCount := acc.1.operationCount - 1 },
          { acc.2 with operations := acc.2.operations.erase e.2, audit := acc.2.audit.erase e.1 }))
        (({ rm with operationCount := n }, { s with operations := o, audit := a }) :
          RegistryMeta × Storage δ) =
        ({ rm with operationCount := n' }, { s with operations := o', audit := a' }) := by
    intro entries
    induction entries with
    | nil => exact fun n o a => ⟨n, o, a, rfl⟩
    | cons e entries ih => exact fun n o a => ih _ _ _
  exact hfold (expired s now) rm.operationCount s.operations s.audit

/-- What a write leaves alone. -/
theorem Write.frame {x y : RegistryMeta × Storage δ} (h : Write c x y) :
    y.1.revision = x.1.revision ∧ y.1.operationCount = x.1.operationCount ∧
      y.2.operations = x.2.operations ∧ y.2.audit = x.2.audit := by
  cases h with
  | buried hr hlive =>
    rw [release]
    split <;> exact ⟨rfl, rfl, rfl, rfl⟩
  | _ => exact ⟨rfl, rfl, rfl, rfl⟩

/-- A predicate that does not look at the bookkeeping of operations. -/
def Blind (I : RegistryMeta × Storage δ → Prop) : Prop :=
  ∀ rm s revision t n hm o a, I (rm, s) → I
    ({ rm with revision := revision, updatedAt := t, operationCount := n },
      { s with registryMeta := hm, operations := o, audit := a })

variable {fingerprint : Command → δ} {cmd : Command} {mode : FleetMode} {response : Response}

/-- What an applied command did, write by write. -/
theorem applyCommand_ok (h : applyCommand fingerprint s rm cmd now mode = .ok (response, s')) :
    rm.revision = cmd.expectedRevision ∧ response.revision.val = rm.revision.val + 1 ∧
      ∃ rm₁ s₁, execute (pruneOperations s rm now).2 (pruneOperations s rm now).1 cmd now mode =
          .ok (response.result, rm₁, s₁) ∧
        s' = { s₁ with
          registryMeta := some { rm₁ with
            revision := response.revision, updatedAt := now, operationCount := rm₁.operationCount + 1 }
          operations := s₁.operations.insert cmd.idempotencyKey ⟨fingerprint cmd, response, now⟩
          audit := s₁.audit.insert (now, cmd.idempotencyKey) cmd.idempotencyKey } := by
  simp only [applyCommand, bind_ok, require_ok, decide_eq_true_eq] at h
  obtain ⟨-, hrev, revision, hnext, -, -, ⟨result, rm₁, s₁⟩, hexec, h⟩ := h
  cases h
  exact ⟨hrev, nextEpoch_ok hnext, rm₁, s₁, hexec, rfl⟩

theorem writes_invariant {I : RegistryMeta × Storage δ → Prop} (write : ∀ x y, Write c x y → I x → I y)
    {x y : RegistryMeta × Storage δ} (h : ReflTransGen (Write c) x y) (hI : I x) : I y := by
  induction h with
  | refl => exact hI
  | tail _ hw ih => exact write _ _ hw ih

/-- What every write keeps and no bookkeeping touches, an applied command keeps. -/
theorem applyCommand_invariant {I : RegistryMeta × Storage δ → Prop} (blind : Blind I)
    (write : ∀ c x y, Write c x y → I x → I y)
    (h : applyCommand fingerprint s rm cmd now mode = .ok (response, s')) (hI : I (rm, s)) :
    ∃ rm', s'.registryMeta = some rm' ∧ I (rm', s') := by
  obtain ⟨-, -, rm₁, s₁, hexec, rfl⟩ := applyCommand_ok h
  obtain ⟨n, o, a, hprune⟩ := pruneOperations_eq rm s now
  rw [hprune] at hexec
  have hI₀ := blind rm s rm.revision rm.updatedAt n s.registryMeta o a hI
  have hI₁ : I (rm₁, s₁) := writes_invariant (write cmd.action) (execute_writes hexec) hI₀
  exact ⟨_, rfl, blind _ _ _ _ _ _ _ _ hI₁⟩

variable [DecidableEq δ] {r : Request}

/-- A request is rejected, or answered from the record of its key, or applied. -/
theorem fetch_cases (fingerprint : Command → δ) (s : Storage δ) (r : Request) :
    (∃ e, fetch fingerprint s r = (.error e, s)) ∨
    (∃ previous, s.operations.lookup r.command.idempotencyKey = some previous ∧
      previous.fingerprint = fingerprint r.command ∧
      fetch fingerprint s r = (.ok previous.response, s)) ∨
    ∃ mode response s', s.operations.lookup r.command.idempotencyKey = none ∧
      applyCommand fingerprint s (s.registryMeta.getD (emptyMeta r.now)) r.command r.now mode =
        .ok (response, s') ∧
      fetch fingerprint s r = (.ok response, s') := by
  rcases hhandle : handle fingerprint s r with e | ⟨response, s'⟩
  · exact .inl ⟨e, by rw [fetch, hhandle]⟩
  have hfetch : fetch fingerprint s r = (.ok response, s') := by rw [fetch, hhandle]
  simp only [handle, bind_ok] at hhandle
  obtain ⟨mode, -, c, hc, htransact⟩ := hhandle
  obtain rfl := parseCommand_ok hc
  rw [transact] at htransact
  split at htransact
  · rename_i previous hprevious
    split at htransact
    · rename_i hprint
      cases htransact
      exact .inr (.inl ⟨previous, hprevious, hprint, hfetch⟩)
    · cases htransact
  · rename_i hnone
    exact .inr (.inr ⟨mode, response, s', hnone, htransact, hfetch⟩)

theorem fetch_error {e : FleetError} (h : (fetch fingerprint s r).1 = .error e) :
    (fetch fingerprint s r).2 = s := by
  rcases fetch_cases fingerprint s r with ⟨e, hf⟩ | ⟨previous, -, -, hf⟩ | ⟨mode, response, s', -, -, hf⟩
  · rw [hf]
  · rw [hf]
  · rw [hf] at h
    cases h

/-! ### Runs -/

/-- A request with its answer, and whether its key was on record when it arrived. -/
structure Exchange where
  request : Request
  answer : Checked Response
  recorded : Bool

/-- The request was executed, not only answered. -/
def Exchange.applied (x : Exchange) : Bool := !x.recorded && x.answer.isOk

def exchange (fingerprint : Command → δ) (s : Storage δ) (r : Request) : Exchange :=
  ⟨r, (fetch fingerprint s r).1, (s.operations.lookup r.command.idempotencyKey).isSome⟩

/-- The storages reached from the empty one by any requests, with the exchanges, newest first. -/
inductive Run (fingerprint : Command → δ) : Storage δ → List Exchange → Prop
  | start : Run fingerprint (Storage.empty δ) []
  | next {s τ} (r : Request) : Run fingerprint s τ →
      Run fingerprint (fetch fingerprint s r).2 (exchange fingerprint s r :: τ)

/-- One request changes nothing and is not applied, or it is applied to the storage. -/
theorem fetch_step (fingerprint : Command → δ) (s : Storage δ) (r : Request) :
    (fetch fingerprint s r).2 = s ∧ (exchange fingerprint s r).applied = false ∨
    ∃ mode response, s.operations.lookup r.command.idempotencyKey = none ∧
      applyCommand fingerprint s (s.registryMeta.getD (emptyMeta r.now)) r.command r.now mode =
        .ok (response, (fetch fingerprint s r).2) ∧
      (exchange fingerprint s r) = ⟨r, .ok response, false⟩ := by
  rcases fetch_cases fingerprint s r with
    ⟨e, hf⟩ | ⟨previous, hprevious, -, hf⟩ | ⟨mode, response, s', hnone, happly, hf⟩
  · exact .inl ⟨by rw [hf], by simp [Exchange.applied, exchange, hf, Except.isOk, Except.toBool]⟩
  · exact .inl ⟨by rw [hf], by simp [Exchange.applied, exchange, hprevious]⟩
  · exact .inr ⟨mode, response, hnone, by rw [hf]; exact happly, by simp [exchange, hf, hnone]⟩

/-- What every write keeps and no bookkeeping touches, a request keeps. -/
theorem fetch_invariant {I : RegistryMeta × Storage δ → Prop} (blind : Blind I)
    (write : ∀ c x y, Write c x y → I x → I y) (r : Request)
    (hI : ∀ now, I (s.registryMeta.getD (emptyMeta now), s)) (now : ℕ) :
    I ((fetch fingerprint s r).2.registryMeta.getD (emptyMeta now), (fetch fingerprint s r).2) := by
  rcases fetch_step fingerprint s r with ⟨hsame, -⟩ | ⟨mode, response, -, happly, -⟩
  · rw [hsame]
    exact hI now
  · obtain ⟨rm', hrm', h⟩ := applyCommand_invariant blind write happly (hI r.now)
    rw [hrm']
    exact h

theorem Run.invariant {I : RegistryMeta × Storage δ → Prop} (blind : Blind I)
    (write : ∀ c x y, Write c x y → I x → I y) (start : ∀ now, I (emptyMeta now, Storage.empty δ))
    {τ : List Exchange} (h : Run fingerprint s τ) (now : ℕ) : I (s.registryMeta.getD (emptyMeta now), s) := by
  induction h generalizing now with
  | start => exact start now
  | next r _ ih => exact fetch_invariant blind write r ih now

/-- `s'` is reached from `s` by further requests. -/
def Later (fingerprint : Command → δ) : Storage δ → Storage δ → Prop :=
  ReflTransGen fun a b => ∃ r, b = (fetch fingerprint a r).2

theorem Later.invariant {I : RegistryMeta × Storage δ → Prop} (blind : Blind I)
    (write : ∀ c x y, Write c x y → I x → I y) (h : Later fingerprint s s')
    (hI : ∀ now, I (s.registryMeta.getD (emptyMeta now), s)) (now : ℕ) :
    I (s'.registryMeta.getD (emptyMeta now), s') := by
  induction h generalizing now with
  | refl => exact hI now
  | tail _ hstep ih =>
    obtain ⟨r, rfl⟩ := hstep
    exact fetch_invariant blind write r ih now

end OneMail.Fleet
