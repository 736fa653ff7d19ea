import Mathlib
import OneMail.Lib.Membership

/-! The destinations of the aggregator (`config.py`).

    A shard is taken as `ShardConfig` leaves it, with its fields stripped and checked. `Config` then sees to it
    that no two destinations share an id or an address, and that no account is assigned twice. -/

namespace OneMail.Upload

structure WorkerDestination where
  id : String
  baseUrl : String
  token : String
  apiPrefix : String
  deriving DecidableEq

def WorkerDestination.apiUrl (d : WorkerDestination) (path : String) : String := d.baseUrl ++ d.apiPrefix ++ path

def WorkerDestination.headers (d : WorkerDestination) : List (String × String) :=
  if d.apiPrefix = "/admin/unified" then [("x-admin-auth", d.token)]
  else [("Authorization", "Bearer " ++ d.token)]

structure ShardConfig where
  id : String
  baseUrl : String
  token : String
  accounts : List String

/-- `WorkerDestination(shard.id, shard.base_url, shard.token)` -/
def ShardConfig.destination (shard : ShardConfig) : WorkerDestination :=
  ⟨shard.id, shard.baseUrl, shard.token, "/shard"⟩

structure Config where
  primary : WorkerDestination
  destinations : List WorkerDestination
  accountDestinations : List (String × WorkerDestination)

/-- The local variables of `__post_init__`. -/
structure Pending where
  destinations : List WorkerDestination
  accountDestinations : List (String × WorkerDestination)
  ids : List String
  urls : List String

/-- `for account_id in shard.accounts` -/
def assign (destination : WorkerDestination) : List String → List (String × WorkerDestination) →
    Except String (List (String × WorkerDestination))
  | [], assigned => .ok assigned
  | account :: accounts, assigned =>
    if account ∈ assigned.map Prod.fst then .error "account assigned to multiple shards"
    else assign destination accounts (assigned ++ [(account, destination)])

def addShard (lower : String → String) (shard : ShardConfig) (p : Pending) : Except String Pending :=
  if shard.id ∈ p.ids then .error "duplicate shard id"
  else if lower shard.baseUrl ∈ p.urls then .error "duplicate shard base_url or primary destination"
  else (assign shard.destination shard.accounts p.accountDestinations).map fun assigned =>
    ⟨p.destinations ++ [shard.destination], assigned, p.ids ++ [shard.id], p.urls ++ [lower shard.baseUrl]⟩

def addShards (lower : String → String) : List ShardConfig → Pending → Except String Pending
  | [], p => .ok p
  | shard :: shards, p => (addShard lower shard p).bind (addShards lower shards)

def primaryDestination (workerBaseUrl adminToken : String) : WorkerDestination :=
  ⟨"primary", workerBaseUrl, adminToken, "/admin/unified"⟩

def Pending.start (lower : String → String) (primary : WorkerDestination) : Pending :=
  ⟨[primary], [], [primary.id], [lower primary.baseUrl]⟩

/-- `Config.__post_init__`; the address of the primary comes without slashes at its end. -/
def makeConfig (lower : String → String) (workerBaseUrl adminToken : String) (shards : List ShardConfig) :
    Except String Config :=
  (addShards lower shards (.start lower (primaryDestination workerBaseUrl adminToken))).map fun p =>
    ⟨primaryDestination workerBaseUrl adminToken, p.destinations, p.accountDestinations⟩

/-- The destination of a row, by its source and its account. -/
def Config.destinationFor (c : Config) (source accountId : Option String) : WorkerDestination :=
  if source = some "cf_routing" then c.primary
  else match accountId with
    | none => c.primary
    | some account => (c.accountDestinations.lookup account).getD c.primary

/-! ### What an accepted configuration satisfies -/

structure Pending.Valid (lower : String → String) (primary : WorkerDestination) (taken : List ShardConfig) (p : Pending) :
    Prop where
  shards : p.destinations = primary :: taken.map ShardConfig.destination
  ids : p.ids = p.destinations.map (·.id)
  urls : p.urls = p.destinations.map fun d => lower d.baseUrl
  nodup_ids : p.ids.Nodup
  nodup_urls : p.urls.Nodup
  nodup_accounts : (p.accountDestinations.map Prod.fst).Nodup
  accounts : p.accountDestinations =
    taken.flatMap fun s => s.accounts.map fun account => (account, s.destination)

theorem assign_ok {destination : WorkerDestination} : ∀ {accounts : List String}
    {assigned assigned' : List (String × WorkerDestination)}, assign destination accounts assigned = .ok assigned' →
    (assigned.map Prod.fst).Nodup → (assigned'.map Prod.fst).Nodup ∧
      assigned' = assigned ++ accounts.map fun account => (account, destination)
  | [], assigned, assigned', h, hnodup => by
    obtain rfl : assigned = assigned' := Except.ok.inj h
    exact ⟨hnodup, (List.append_nil _).symm⟩
  | account :: accounts, assigned, assigned', h, hnodup => by
    rw [assign] at h
    split at h
    · cases h
    · rename_i hnew
      have hstep : ((assigned ++ [(account, destination)]).map Prod.fst).Nodup := by
        rw [List.map_append]
        exact List.nodup_append_comm.mp (List.nodup_cons.mpr ⟨hnew, hnodup⟩)
      obtain ⟨hnodup', rfl⟩ := assign_ok h hstep
      exact ⟨hnodup', by rw [List.append_assoc, List.map_cons]; rfl⟩

theorem concat_nodup {α : Type} {l : List α} {a : α} (hl : l.Nodup) (ha : a ∉ l) : (l ++ [a]).Nodup :=
  List.nodup_append_comm.mp (List.nodup_cons.mpr ⟨ha, hl⟩)

section Accepted

variable {lower : String → String} {primary : WorkerDestination} {taken : List ShardConfig}

theorem start_valid (lower : String → String) (primary : WorkerDestination) :
    (Pending.start lower primary).Valid lower primary [] :=
  ⟨rfl, rfl, rfl, List.nodup_singleton _, List.nodup_singleton _, List.nodup_nil, rfl⟩

theorem addShard_valid {shard : ShardConfig} {p p' : Pending} (hp : p.Valid lower primary taken)
    (h : addShard lower shard p = .ok p') : p'.Valid lower primary (taken ++ [shard]) := by
  rw [addShard] at h
  split at h
  · cases h
  · rename_i hid
    split at h
    · cases h
    · rename_i hurl
      rcases hassign : assign shard.destination shard.accounts p.accountDestinations with e | assigned
      · rw [hassign] at h
        cases h
      · rw [hassign] at h
        obtain rfl := Except.ok.inj h
        obtain ⟨hnodup, rfl⟩ := assign_ok hassign hp.nodup_accounts
        constructor
        · rw [hp.shards, List.map_append]
          rfl
        · rw [List.map_append, hp.ids]
          rfl
        · rw [List.map_append, hp.urls]
          rfl
        · exact concat_nodup hp.nodup_ids hid
        · exact concat_nodup hp.nodup_urls hurl
        · exact hnodup
        · rw [List.flatMap_append, ← hp.accounts, List.flatMap_singleton]

theorem addShards_valid : ∀ {shards : List ShardConfig} {taken : List ShardConfig} {p p' : Pending},
    p.Valid lower primary taken → addShards lower shards p = .ok p' → p'.Valid lower primary (taken ++ shards)
  | [], taken, p, p', hp, h => by
    obtain rfl : p = p' := Except.ok.inj h
    rwa [List.append_nil]
  | shard :: shards, taken, p, p', hp, h => by
    rcases hadd : addShard lower shard p with e | q
    · rw [addShards, hadd] at h
      cases h
    · rw [addShards, hadd] at h
      have hrest := addShards_valid (addShard_valid hp hadd) h
      rwa [List.append_assoc] at hrest

end Accepted

/-- What `makeConfig` accepts: distinct destinations, the primary first, and each account with one shard at most. -/
structure Config.Valid (lower : String → String) (shards : List ShardConfig) (c : Config) : Prop where
  destinations : c.destinations = c.primary :: shards.map ShardConfig.destination
  nodup_ids : (c.destinations.map (·.id)).Nodup
  nodup_urls : (c.destinations.map fun d => lower d.baseUrl).Nodup
  nodup_accounts : (shards.flatMap (·.accounts)).Nodup
  accounts : c.accountDestinations =
    shards.flatMap fun s => s.accounts.map fun account => (account, s.destination)

theorem accounts_keys (s : ShardConfig) :
    (s.accounts.map fun account => (account, s.destination)).map Prod.fst = s.accounts := by
  rw [List.map_map]
  exact List.map_id _

theorem makeConfig_valid {lower : String → String} {workerBaseUrl adminToken : String} {shards : List ShardConfig}
    {c : Config} (h : makeConfig lower workerBaseUrl adminToken shards = .ok c) : c.Valid lower shards := by
  rw [makeConfig] at h
  rcases hadd : addShards lower shards (.start lower (primaryDestination workerBaseUrl adminToken)) with e | p
  · rw [hadd] at h
    cases h
  · rw [hadd] at h
    obtain rfl := Except.ok.inj h
    have hp := addShards_valid (start_valid lower _) hadd
    rw [List.nil_append] at hp
    have haccounts := hp.nodup_accounts
    rw [hp.accounts, List.map_flatMap, funext accounts_keys] at haccounts
    exact ⟨hp.shards, hp.ids ▸ hp.nodup_ids, hp.urls ▸ hp.nodup_urls, haccounts, hp.accounts⟩

theorem lookup_of_nodup {α : Type} {l : List (String × α)} {k : String} {v : α} (hl : (l.map Prod.fst).Nodup)
    (h : (k, v) ∈ l) : l.lookup k = some v := by
  induction l with
  | nil => cases h
  | cons e l ih =>
    obtain ⟨he, hl⟩ := List.nodup_cons.mp hl
    rcases List.mem_cons.mp h with rfl | h
    · exact List.lookup_cons_self
    · have hne : k ≠ e.1 := by
        rintro rfl
        exact he (List.mem_map.mpr ⟨_, h, rfl⟩)
      rw [List.lookup_cons, beq_false_of_ne hne]
      exact ih hl h

namespace Config.Valid

variable {lower : String → String} {shards : List ShardConfig} {c : Config} (h : c.Valid lower shards)
include h

/-- The mail of an account goes to the shard that lists it. -/
theorem destinationFor_shard {shard : ShardConfig} {account : String} (hshard : shard ∈ shards)
    (haccount : account ∈ shard.accounts) {source : Option String} (hsource : source ≠ some "cf_routing") :
    c.destinationFor source (some account) = shard.destination := by
  have hmem : (account, shard.destination) ∈ c.accountDestinations := by
    rw [h.accounts]
    exact List.mem_flatMap.mpr ⟨shard, hshard, List.mem_map_of_mem haccount⟩
  have hkeys : (c.accountDestinations.map Prod.fst).Nodup := by
    rw [h.accounts, List.map_flatMap, funext accounts_keys]
    exact h.nodup_accounts
  rw [Config.destinationFor, if_neg hsource, lookup_of_nodup hkeys hmem, Option.getD_some]

end Config.Valid

end OneMail.Upload
