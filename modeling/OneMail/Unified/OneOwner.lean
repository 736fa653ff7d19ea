import OneMail.Unified.Owners

/-! A mutation writes one row of one database, and that database owns the row.

    The search and the write may see different contents of every database, and different permissions of
    the caller. Whatever they see, a handler runs at most once, for a row that its own database holds, that
    the shard map leaves to this database, and that the caller may touch. -/

namespace OneMail.Unified
open JsString
open Mutation (Site Action Handled Reply handle declined loadMutableEmail of_loadMutableEmail handle_wrote
  handle_unchanged)

/-- The rows that the shard map leaves to a database; native mail belongs to the primary. -/
def Rightful (map : ShardMap) : Place → Mutation.EmailRow → Prop
  | .primary, row => row.source = some (js "cf_routing") ∨ ∀ id, row.accountId = some id → map.owner id = none
  | .shard s, row => ∃ id, row.accountId = some id ∧ map.owner id = some s

/-- The shards that a mutation of a caller asks, and with which scope. -/
def targetsOf (map : ShardMap) (caller : Caller) : List Target :=
  match listOwnedAccountIds caller, scopedRest caller Query.empty with
  | some owned, some rest => scopedTargets map rest owned
  | _, _ => []

/-- The rows that are in the scope of a caller. -/
def Permitted (map : ShardMap) (caller : Caller) : Place → Mutation.EmailRow → Prop
  | .primary, row => checkRowAccess caller row = true
  | .shard s, row => ∃ t ∈ targetsOf map caller, t.shard = s ∧ shardScopeAllowsRow t row = true

/-- The callers whose POST and DELETE requests the middleware of `/api/unified/*` lets pass. -/
def admitsWrite : Caller → Bool
  | .admin | .user _ _ => true
  | .address _ _ => false
  | .apiKey key => canAccess key false none none

/-- A row that the primary has of its own. -/
def ownRow (map : ShardMap) (m : Moment) (emailId : JsString) : Option Mutation.EmailRow :=
  loadMutableEmail (primaryOnly map) (m.sites .primary) emailId

/-- One of the shards to be asked does not answer. -/
def Degraded (map : ShardMap) (m : Moment) : Prop := ∃ t ∈ targetsOf map m.caller, m.links t.shard ≠ .up

/-- A shard holds the email as its owner, in the scope it is asked with. -/
def Holds (map : ShardMap) (m : Moment) (emailId : JsString) (t : Target) : Prop :=
  ∃ row, (m.sites (.shard t.shard)).store.emails.find? (·.id = emailId) = some row ∧
    row.source ≠ some (js "cf_routing") ∧ Rightful map (.shard t.shard) row ∧ shardScopeAllowsRow t row = true

def Duplicate (map : ShardMap) (m : Moment) (emailId : JsString) : Prop :=
  ∃ t ∈ targetsOf map m.caller, ∃ t' ∈ targetsOf map m.caller,
    t ≠ t' ∧ Holds map m emailId t ∧ Holds map m emailId t'

/-- The handler ran once at most, and only where it may write. -/
structure TouchesOwner (map : ShardMap) (m : Moment) (emailId : JsString) (out : Outcome) : Prop where
  once : out.writes.length ≤ 1
  found : ∀ w ∈ out.writes, w.2 ∈ (m.sites w.1).store.emails ∧ w.2.id = emailId
  owner : ∀ w ∈ out.writes, Rightful map w.1 w.2
  scope : ∀ w ∈ out.writes, Permitted map m.caller w.1 w.2
  frame : ∀ place, (∀ w ∈ out.writes, w.1 ≠ place) → out.sites place = m.sites place

variable {map : ShardMap} {m : Moment} {emailId job : JsString} {action : Action} {t : Target} {site : Site}
  {row : Mutation.EmailRow}

theorem primaryOnly_iff : primaryOnly map row = true ↔ Rightful map .primary row := by
  simp only [primaryOnly, Rightful, Bool.or_eq_true, decide_eq_true_eq, Option.all_eq_true, mem_remoteAccountIds,
    Bool.not_eq_true, Option.isSome_eq_false_iff, Option.isNone_iff_eq_none]

theorem owner_eq_none (h : map.shards = []) (id : JsString) : map.owner id = none := by
  rw [ShardMap.owner, Option.map_eq_none_iff, List.find?_eq_none]
  intro entry hentry
  have hshard := map.owners entry hentry
  rw [h] at hshard
  cases hshard

theorem shardScopeAllowsRow_iff : shardScopeAllowsRow t row = true ↔
    (∃ id, row.accountId = some id ∧ id ≠ [] ∧ id ∈ t.accountIds) ∧
      ∀ sources, t.sources = some sources → ∃ source, row.source = some source ∧ source ≠ [] ∧ source ∈ sources := by
  simp only [shardScopeAllowsRow, Bool.and_eq_true, Option.any_eq_true, Option.all_eq_true, decide_eq_true_eq]

/-! ### One handler -/

/-- A shard writes only a row that the scope of the request allows. -/
theorem shardMutation_wrote (h : (shardMutation t action emailId job site).wrote = some row) :
    site.store.emails.find? (·.id = emailId) = some row ∧ shardScopeAllowsRow t row = true := by
  unfold shardMutation at h
  split at h
  · cases h
  · rename_i hlets
    obtain ⟨hload, -⟩ := handle_wrote h
    have hfind : site.store.emails.find? (·.id = emailId) = some row := by
      simpa [loadMutableEmail] using hload
    refine ⟨hfind, ?_⟩
    unfold refusal at hlets
    split at hlets
    · cases hlets
    · split at hlets
      · cases hlets
      · rw [hfind] at hlets
        by_contra hno
        simp [hno] at hlets

theorem shardMutation_unchanged (h : (shardMutation t action emailId job site).wrote = none) :
    (shardMutation t action emailId job site).site = site := by
  unfold shardMutation at h ⊢
  split
  · rfl
  · rename_i hlets
    rw [hlets] at h
    exact handle_unchanged h

theorem unwritten_touches (reply : Reply) : TouchesOwner map m emailId (unwritten m reply) where
  once := Nat.zero_le _
  found := by simp [unwritten]
  owner := by simp [unwritten]
  scope := by simp [unwritten]
  frame _ _ := rfl

theorem mem_ran {place : Place} {h : Handled} {reply : Reply} {w : Place × Mutation.EmailRow} :
    w ∈ (ran m place h reply).writes ↔ w.1 = place ∧ h.wrote = some w.2 := by
  rw [ran, Option.mem_toList, Option.map_eq_some_iff]
  constructor
  · rintro ⟨row, hrow, rfl⟩
    exact ⟨rfl, hrow⟩
  · rintro ⟨rfl, hrow⟩
    exact ⟨w.2, hrow, rfl⟩

/-- A request that runs one handler touches the owner, if the handler does. -/
theorem ran_touches {place : Place} {h : Handled} {reply : Reply}
    (hunchanged : h.wrote = none → h.site = m.sites place)
    (hwrote : ∀ row, h.wrote = some row → (row ∈ (m.sites place).store.emails ∧ row.id = emailId) ∧
      Rightful map place row ∧ Permitted map m.caller place row) :
    TouchesOwner map m emailId (ran m place h reply) where
  once := by
    rw [ran]
    rcases h.wrote with _ | row <;> simp
  found w hw := by
    obtain ⟨rfl, hrow⟩ := mem_ran.mp hw
    exact (hwrote w.2 hrow).1
  owner w hw := by
    obtain ⟨rfl, hrow⟩ := mem_ran.mp hw
    exact (hwrote w.2 hrow).2.1
  scope w hw := by
    obtain ⟨rfl, hrow⟩ := mem_ran.mp hw
    exact (hwrote w.2 hrow).2.2
  frame place' hplace := by
    by_cases heq : place' = place
    · subst heq
      have hnone : h.wrote = none := by
        rw [Option.eq_none_iff_forall_ne_some]
        exact fun row hrow => hplace (place', row) (mem_ran.mpr ⟨rfl, hrow⟩) rfl
      simp only [ran, Function.update_self, hunchanged hnone]
    · simp only [ran, Function.update_of_ne heq]

theorem runLocal_touches {kept : Mutation.EmailRow → Bool}
    (hkept : ∀ row, kept row = true → Rightful map .primary row) :
    TouchesOwner map m emailId (runLocal m kept action emailId job) := by
  refine ran_touches handle_unchanged fun row hrow => ?_
  obtain ⟨hload, haccess⟩ := handle_wrote hrow
  obtain ⟨hmem, hid, hrow⟩ := of_loadMutableEmail hload
  exact ⟨⟨hmem, hid⟩, hkept row hrow, haccess⟩

theorem applyToShard_touches {shard : JsString} {location : Location} :
    TouchesOwner map m emailId (applyToShard map m shard action emailId job location) := by
  unfold applyToShard
  split
  · exact unwritten_touches _
  rename_i accountId _
  split
  · exact unwritten_touches _
  rename_i hguard
  simp only [not_or, ne_eq, not_not] at hguard
  obtain ⟨-, hblank, -, -, howner⟩ := hguard
  split
  · rename_i owned rest howned hrest
    split
    · exact unwritten_touches _
    rename_i t hfind
    split
    · exact unwritten_touches _
    rename_i haccount
    split
    · exact unwritten_touches _
    refine ran_touches shardMutation_unchanged fun row hrow => ?_
    obtain ⟨hload, hallows⟩ := shardMutation_wrote hrow
    have hid : row.id = emailId := by simpa using List.find?_some hload
    obtain ⟨⟨id, hid', -, hone⟩, hsources⟩ := shardScopeAllowsRow_iff.mp hallows
    obtain rfl := List.mem_singleton.mp hone
    refine ⟨⟨List.mem_of_find?_eq_some hload, hid⟩, ⟨id, hid', howner⟩, t, ?_, by simpa using List.find?_some hfind,
      shardScopeAllowsRow_iff.mpr ⟨⟨id, hid', hblank, not_not.mp haccount⟩, hsources⟩⟩
    rw [targetsOf, howned, hrest]
    exact List.mem_of_find?_eq_some hfind
  · exact unwritten_touches _

/-! ### The search -/

variable {preflight dispatch : Moment}

theorem mem_probes {targets : List Target} {r : Target × ScopedShardResult} :
    r ∈ probes map m targets emailId ↔ r.1 ∈ targets ∧ r.2 = authoritativeEmailResult map r.1 emailId
      (scopedResult (m.links r.1.shard) (shardDetail r.1 (m.sites (.shard r.1.shard)) emailId)) := by
  rw [probes, List.mem_map]
  constructor
  · rintro ⟨t, ht, rfl⟩
    exact ⟨ht, rfl⟩
  · rintro ⟨ht, hr⟩
    exact ⟨r.1, ht, Prod.ext rfl hr.symm⟩

/-- A shard that does not answer counts as degraded. -/
theorem probe_degraded {reply : Reply} {link : Link} (h : link ≠ .up) :
    500 ≤ (authoritativeEmailResult map t emailId (scopedResult link reply)).status := by
  have hnot : scopedResult link reply = ⟨503, none⟩ := if_neg h
  rw [hnot, authoritativeEmailResult, if_pos (by decide)]
  decide

/-- A shard that holds the email as its owner is a hit, or degraded. -/
theorem probe_holds (link : Link) (h : Holds map m emailId t) (hne : t.accountIds ≠ []) :
    500 ≤ (authoritativeEmailResult map t emailId
        (scopedResult link (shardDetail t (m.sites (.shard t.shard)) emailId))).status ∨
      (authoritativeEmailResult map t emailId
        (scopedResult link (shardDetail t (m.sites (.shard t.shard)) emailId))).ok = true := by
  by_cases hlink : link = .up
  · obtain ⟨row, hfind, hnative, ⟨id, hid, howner⟩, hallows⟩ := h
    obtain ⟨⟨id', hid', -, hmem⟩, hsources⟩ := shardScopeAllowsRow_iff.mp hallows
    obtain rfl : id = id' := Option.some.inj (hid.symm.trans hid')
    have hrowid : row.id = emailId := by simpa using List.find?_some hfind
    have hblank : t.sources ≠ some [] := by
      intro hnil
      obtain ⟨source, -, -, hin⟩ := hsources [] hnil
      cases hin
    have hdetail : shardDetail t (m.sites (.shard t.shard)) emailId = .row row := by
      have hopen : canAccess t.gatewayKey true none none = true := by simp [canAccess, inWhitelist_none]
      simp [shardDetail, refusal, hne, hblank, hopen, hfind, hallows]
    have hok : ScopedShardResult.ok ⟨(Reply.row row).status, some (.row row)⟩ = true := rfl
    rw [hdetail, scopedResult, if_pos hlink, authoritativeEmailResult, if_neg (by simp [hok])]
    rcases hsource : row.source with _ | source
    · simp [hid, hsource]
    · have hin : t.sources.any (fun sources => !decide (source ∈ sources)) = false := by
        rw [Option.any_eq_false]
        intro sources hs
        obtain ⟨source', hs', -, hin⟩ := hsources sources hs
        obtain rfl : source = source' := Option.some.inj (hsource.symm.trans hs')
        simpa using hin
      have hforeign : source ≠ js "cf_routing" := fun heq => hnative (by rw [hsource, heq])
      right
      simpa [hid, hsource, hrowid, hforeign, howner, hmem, hin] using hok
  · exact .inl (probe_degraded hlink)

theorem locate_degraded {results : List (Target × ScopedShardResult)} {r : Target × ScopedShardResult}
    (hmem : r ∈ results) (h : 500 ≤ r.2.status) : (locate results).degraded ≠ [] :=
  List.ne_nil_of_mem (List.mem_map_of_mem (List.mem_filter.mpr ⟨hmem, decide_eq_true h⟩))

theorem locate_duplicate {results : List (Target × ScopedShardResult)} {r r' : Target × ScopedShardResult}
    (hr : r ∈ results) (hr' : r' ∈ results) (hne : r ≠ r') (h : r.2.ok = true) (h' : r'.2.ok = true) :
    (locate results).duplicate = true := by
  have hhit : r ∈ results.filter (·.2.ok) := List.mem_filter.mpr ⟨hr, h⟩
  have hhit' : r' ∈ results.filter (·.2.ok) := List.mem_filter.mpr ⟨hr', h'⟩
  rw [locate, decide_eq_true_eq]
  rcases hlist : results.filter (·.2.ok) with _ | ⟨a, _ | ⟨b, rest⟩⟩
  · rw [hlist] at hhit
    cases hhit
  · rw [hlist] at hhit hhit'
    exact absurd ((List.mem_singleton.mp hhit).trans (List.mem_singleton.mp hhit').symm) hne
  · rw [hlist, List.length_cons, List.length_cons]
    omega

/-- A search that meets a shard without an answer, or two owners, is known to have done so. -/
theorem locate_blocked {location : Location} (hne : emailId ≠ []) (hown : ownRow map m emailId = none)
    (hblocked : Degraded map m ∨ Duplicate map m emailId)
    (h : locateRemoteEmailOwner map m emailId = some location) :
    location.duplicate = true ∨ location.degraded ≠ [] := by
  rw [locateRemoteEmailOwner, if_neg hne] at h
  obtain ⟨owned, howned, h⟩ := Option.bind_eq_some_iff.mp h
  obtain ⟨rest, hrest, h⟩ := Option.bind_eq_some_iff.mp h
  rw [show (m.sites .primary).store.emails.find? (fun row => row.id = emailId && primaryOnly map row) = none
    from hown] at h
  cases h
  have htargets : targetsOf map m.caller = scopedTargets map rest owned := by rw [targetsOf, howned, hrest]
  have hprobe {t : Target} (ht : t ∈ targetsOf map m.caller) :
      (t, authoritativeEmailResult map t emailId
        (scopedResult (m.links t.shard) (shardDetail t (m.sites (.shard t.shard)) emailId))) ∈
          probes map m (scopedTargets map rest owned) emailId :=
    mem_probes.mpr ⟨htargets ▸ ht, rfl⟩
  rcases hblocked with ⟨t, ht, hlink⟩ | ⟨t, ht, t', ht', hdiff, hholds, hholds'⟩
  · exact .inr (locate_degraded (hprobe ht) (probe_degraded hlink))
  · have hids {t : Target} (ht : t ∈ targetsOf map m.caller) : t.accountIds ≠ [] :=
      (mem_scopedTargets.mp (htargets ▸ ht)).2.2.1
    rcases probe_holds (m.links t.shard) hholds (hids ht) with hdown | hok
    · exact .inr (locate_degraded (hprobe ht) hdown)
    · rcases probe_holds (m.links t'.shard) hholds' (hids ht') with hdown | hok'
      · exact .inr (locate_degraded (hprobe ht') hdown)
      · exact .inl (locate_duplicate (hprobe ht) (hprobe ht') (fun heq => hdiff (congrArg Prod.fst heq)) hok hok')

/-! ### The whole request -/

theorem applyIfExists_touches :
    TouchesOwner map dispatch emailId (applyIfExists map preflight dispatch action emailId job) := by
  unfold applyIfExists
  split
  · rename_i hempty
    exact runLocal_touches fun row _ => .inr fun id _ => owner_eq_none hempty id
  · split
    · exact unwritten_touches _
    · split
      · exact unwritten_touches _
      · split
        · exact unwritten_touches _
        · split
          · exact unwritten_touches _
          · split
            · exact applyToShard_touches
            · split
              · exact unwritten_touches _
              · exact runLocal_touches fun row hrow => primaryOnly_iff.mp hrow

theorem applyIfExists_blocked (hown : ownRow map preflight emailId = none)
    (hblocked : Degraded map preflight ∨ Duplicate map preflight emailId) :
    (applyIfExists map preflight dispatch action emailId job).writes = [] := by
  have hshards : map.shards ≠ [] := by
    obtain ⟨t, ht⟩ : ∃ t, t ∈ targetsOf map preflight.caller := by
      rcases hblocked with ⟨t, ht, -⟩ | ⟨t, ht, -⟩ <;> exact ⟨t, ht⟩
    unfold targetsOf at ht
    split at ht
    · exact List.ne_nil_of_mem (mem_scopedTargets.mp ht).1
    · cases ht
  rw [applyIfExists, if_neg hshards]
  split
  · rfl
  · rename_i owner hlocate
    by_cases hne : emailId = []
    · subst hne
      rw [locateRemoteEmailOwner, if_pos rfl] at hlocate
      cases hlocate
      rfl
    · split
      · rfl
      · rename_i hdup
        rw [if_pos ((locate_blocked hne hown hblocked hlocate).resolve_left hdup)]
        rfl

/-- Whom the middleware lets write, writes rows that are theirs. -/
theorem permitted_access {caller : Caller} {place : Place} (hlets : admitsWrite caller = true)
    (h : Permitted map caller place row) : checkRowAccess caller row = true := by
  cases place with
  | primary => exact h
  | shard s =>
    obtain ⟨t, ht, -, hallows⟩ := h
    obtain ⟨⟨id, hid, -, hmem⟩, -⟩ := shardScopeAllowsRow_iff.mp hallows
    cases caller with
    | admin => rfl
    | address => cases hlets
    | user accounts addresses =>
      have hids : t.accountIds = grouped map Query.empty (some accounts) t.shard := (mem_scopedTargets.mp ht).2.1
      rw [hids, mem_grouped] at hmem
      have hmine : id ∈ accounts := hmem.1
      simp [checkRowAccess, hid, hmine]
    | apiKey key =>
      have hrole : key.role = .admin := by simpa [admitsWrite, canAccess] using hlets
      simp [checkRowAccess, canAccessRow, hrole]

/-- A mutation writes at most once, and only a row in the scope of its caller, at the database that the
    shard map leaves the row to. Unless the primary has the row of its own, nothing is written when a shard
    does not answer or when two shards hold the row as its owner. -/
theorem mutation_touches_one_owner (map : ShardMap) (preflight dispatch : Moment) (action : Action)
    (emailId job : JsString) :
    TouchesOwner map dispatch emailId (applyIfExists map preflight dispatch action emailId job) ∧
      (∀ w ∈ (applyIfExists map preflight dispatch action emailId job).writes,
        admitsWrite dispatch.caller = true → checkRowAccess dispatch.caller w.2 = true) ∧
      ((ownRow map preflight emailId = none ∧ (Degraded map preflight ∨ Duplicate map preflight emailId)) →
        (applyIfExists map preflight dispatch action emailId job).writes = []) :=
  ⟨applyIfExists_touches, fun w hw hlets => permitted_access hlets (applyIfExists_touches.scope w hw),
    fun ⟨hown, hblocked⟩ => applyIfExists_blocked hown hblocked⟩

/-! ### Native mail of a mapped account -/

/-- The database that the shard map names for the account of a row. -/
def namedOwner (map : ShardMap) (row : Mutation.EmailRow) : Place :=
  match row.accountId.bind map.owner with
  | some s => .shard s
  | none => .primary

/-- A database that holds the email and is named for its account. -/
def AtOwner (map : ShardMap) (m : Moment) (emailId : JsString) (place : Place) : Prop :=
  ∃ row ∈ (m.sites place).store.emails, row.id = emailId ∧ namedOwner map row = place

/-- One owner for every row, judged by its account alone, and every owner asked before a write. -/
def OneOwner (map : ShardMap) (m : Moment) (action : Action) (emailId job : JsString) : Prop :=
  let writes := (applyIfExists map m m action emailId job).writes
  writes.length ≤ 1 ∧ (∀ w ∈ writes, w.1 = namedOwner map w.2 ∧ Permitted map m.caller w.1 w.2) ∧
    (Degraded map m → writes = []) ∧
      ((∃ place place', place ≠ place' ∧ AtOwner map m emailId place ∧ AtOwner map m emailId place') →
        writes = [])

def mappedAccount : ShardMap where
  shards := [js "s1"]
  accounts := [(js "mine", js "s1")]
  shards_nodup := by decide
  accounts_nodup := by decide
  owners := by decide
  trimmed := by decide

/-- A native row whose account happens to be mapped. -/
def nativeRow : Mutation.EmailRow :=
  ⟨js "native", some (js "cf_routing"), some (js "mine"), none, none, none, none, none, none, none, none, none,
    none, none⟩

def nativeMoment : Moment where
  caller := .admin
  sites place := if place = .primary then ⟨⟨[], [nativeRow], 0⟩, []⟩ else ⟨⟨[], [], 0⟩, []⟩
  links _ := .up

/-- Native mail is written in the primary, whatever shard its account is mapped to. -/
theorem native_mail_stays : ¬ ∀ (map : ShardMap) (m : Moment) (action : Action) (emailId job : JsString),
    OneOwner map m action emailId job := by
  intro hall
  have hwrite : (.primary, nativeRow) ∈
      (applyIfExists mappedAccount nativeMoment nativeMoment .read (js "native") (js "job")).writes := by
    decide
  have howner := ((hall mappedAccount nativeMoment .read (js "native") (js "job")).2.1 _ hwrite).1
  revert howner
  decide

end OneMail.Unified
