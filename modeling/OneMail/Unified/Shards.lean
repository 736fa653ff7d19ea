import OneMail.Unified.Auth
import OneMail.Unified.Listing

/-! The shard map, who is asked, and what a shard answers (`shard_map.ts`, `federation.ts`,
    `shard_routes.ts`).

    Mail accounts are spread over shards; what no shard owns lives in the primary database. A request is
    sent to the shards that own one of its accounts (`scopedTargets`). A shard sees the request as one
    of a readonly key whose whitelists are the target's accounts and sources. -/

namespace OneMail.Unified
open JsString Ordered

/-- What `parseShardMap` accepts; of an endpoint its id. -/
structure ShardMap where
  shards : List JsString
  accounts : List (JsString × JsString)
  shards_nodup : shards.Nodup
  accounts_nodup : (accounts.map Prod.fst).Nodup
  owners : ∀ entry ∈ accounts, entry.2 ∈ shards
  trimmed : ∀ entry ∈ accounts, trim entry.1 = entry.1 ∧ entry.1 ≠ []

/-- `map.accounts[id]`, for an own property. -/
def ShardMap.owner (map : ShardMap) (id : JsString) : Option JsString :=
  (map.accounts.find? (·.1 = id)).map Prod.snd

def uniqueStrings (values : List JsString) : List JsString :=
  ((values.map trim).filter (· ≠ [])).eraseDups

def remoteAccountIds (map : ShardMap) : List JsString := uniqueStrings (map.accounts.map Prod.fst)

/-- Copies of mail that a shard owns are not listed from the primary. -/
def excludeRemoteSql (map : ShardMap) : List Clause :=
  if remoteAccountIds map = [] then [] else [.notRemote (remoteAccountIds map)]

/-- Native mail is never on a shard. -/
def skipRemoteForFilter (rest : Query) : Bool :=
  truthy rest.domain || toLowerCase (trim (rest.source.getD [])) = js "cf_routing"

/-- The parts of a parameter, if it is given. -/
def requested (v : Option JsString) : Option (List JsString) :=
  if truthy v then some (uniqueStrings ((v.getD []).splitOn comma)) else none

/-- The query with the caller's whitelists; `none` where it throws. -/
def scopedRest (caller : Caller) (rest : Query) : Option Query :=
  match caller with
  | .apiKey key => scopeQuery key rest
  | _ => some rest

/-- The accounts a caller is limited to, if they are; the outer `none` where it throws. -/
def listOwnedAccountIds (caller : Caller) : Option (Option (List JsString)) :=
  match caller with
  | .admin => some none
  | .user accounts _ => some (some accounts)
  | .address _ _ => some (some [])
  | .apiKey key =>
    if key.role = .admin then some none
    else (scopeQuery key Query.empty).map fun q => requested q.accountId

/-- A shard that is asked, and the scope it is asked with. -/
structure Target where
  shard : JsString
  accountIds : List JsString
  sources : Option (List JsString)
  deriving DecidableEq

/-- The accounts of a shard that a request asks for and its caller may read. -/
def grouped (map : ShardMap) (rest : Query) (owned : Option (List JsString)) (shard : JsString) :
    List JsString :=
  (owned.getD ((requested rest.accountId).getD (map.accounts.map Prod.fst))).filter fun id =>
    map.owner id = some shard && (requested rest.accountId).all fun ids => id ∈ ids

def scopedTargets (map : ShardMap) (rest : Query) (owned : Option (List JsString)) : List Target :=
  map.shards.filterMap fun shard =>
    if grouped map rest owned shard = [] then none
    else some ⟨shard, grouped map rest owned shard, requested rest.source⟩

/-! ### What a shard answers -/

/-- The body of a list request. -/
structure ListBody where
  accountIds : List JsString
  filter : Query
  limit : ℕ
  cursor : Option EmailCursor
  withCount : Bool

/-- The parameters that `remoteListPages` puts into the body. -/
def forwarded (rest : Query) : Query :=
  { Query.empty with
    source := rest.source, unread := rest.unread, starred := rest.starred, q := rest.q,
    since := rest.since, until' := rest.until', toAddr := rest.toAddr }

/-- A list response on the wire. -/
structure RemoteList where
  results : Option (List ListRow)
  count : Option ℤ
  hasMore : Bool

/-- The key that a shard reads from the scope header. -/
def Target.gatewayKey (t : Target) : ApiKeyRow :=
  ⟨.readonly, t.sources.map fun sources => .array (sources.map .string),
    some (.array (t.accountIds.map .string))⟩

/-- `POST /shard/emails`; `none` for every answer that is not 200. -/
def shardEmails (db : Database) (store : List EmailRow) (t : Target) (body : ListBody) : Option RemoteList :=
  if t.accountIds = [] ∨ t.sources = some [] then some ⟨some [], some 0, false⟩
  else if canAccess t.gatewayKey true none none = false then none
  else if canAccess t.gatewayKey true body.filter.source none = false then none
  else match resolveScopedEmailFilter (.apiKey t.gatewayKey) body.filter with
    | none => none
    | some filters =>
      match executeCursorList db store (.isIn .accountId body.accountIds :: filters) body.limit body.cursor
        body.withCount with
      | .error _ => none
      | .ok result => some ⟨some result.results, result.count.map Int.ofNat, result.hasMore⟩

/-! ### Targets -/

variable {map : ShardMap} {rest : Query} {owned : Option (List JsString)} {t : Target}

/-- Putting the whitelists into the query a second time changes nothing. -/
theorem resolve_scopedRest {caller : Caller} {rest' : Query} (h : scopedRest caller rest = some rest') :
    resolveScopedEmailFilter caller rest' = resolveScopedEmailFilter caller rest := by
  rcases caller with _ | _ | _ | key
  all_goals try { cases h; rfl }
  have hparam {list : Option (List Json)} {v v' : Option JsString} (hv : scopeParam list v = some v') :
      scopeParam list v' = some v' := by
    unfold scopeParam at hv ⊢
    rcases list with _ | _ | ⟨item, items⟩
    · rfl
    · rfl
    · by_cases htruthy : truthy v = true
      · simp only [if_pos htruthy, Option.some.injEq] at hv
        subst hv
        simp only [if_pos htruthy]
      · simp only [if_neg htruthy] at hv
        simp only [hv, ite_self]
  have hscope : scopeQuery key rest' = some rest' ∧ rest'.domain = rest.domain := by
    simp only [scopedRest, scopeQuery] at h ⊢
    split at h
    · rename_i hrole
      cases h
      exact ⟨if_pos hrole, rfl⟩
    · rename_i hrole
      obtain ⟨source, hs, h⟩ := Option.bind_eq_some_iff.mp h
      obtain ⟨accountId, ha, h⟩ := Option.bind_eq_some_iff.mp h
      cases h
      exact ⟨by rw [if_neg hrole]; simp [hparam hs, hparam ha], rfl⟩
  have h : scopeQuery key rest = some rest' := h
  simp only [resolveScopedEmailFilter, hscope.1, hscope.2, h]

theorem mem_uniqueStrings {values : List JsString} {v : JsString} :
    v ∈ uniqueStrings values ↔ v ≠ [] ∧ ∃ value ∈ values, trim value = v := by
  simp only [uniqueStrings, List.mem_eraseDups, List.mem_filter, List.mem_map, decide_eq_true_eq, and_comm]

theorem mem_remoteAccountIds {map : ShardMap} {id : JsString} :
    id ∈ remoteAccountIds map ↔ (map.owner id).isSome = true := by
  rw [remoteAccountIds, mem_uniqueStrings, ShardMap.owner, Option.isSome_map, List.find?_isSome]
  simp only [List.mem_map, decide_eq_true_eq]
  constructor
  · rintro ⟨-, value, ⟨entry, hentry, rfl⟩, rfl⟩
    exact ⟨entry, hentry, (map.trimmed entry hentry).1.symm⟩
  · rintro ⟨entry, hentry, rfl⟩
    obtain ⟨htrim, hne⟩ := map.trimmed entry hentry
    exact ⟨hne, entry.1, ⟨entry, hentry, rfl⟩, htrim⟩

theorem mem_requested {v : JsString} {ids : List JsString} (h : requested (some v) = some ids) {id : JsString} :
    id ∈ ids ↔ id ∈ parts v := by
  unfold requested at h
  split at h
  · cases h
    simp only [Option.getD_some, mem_uniqueStrings, parts, List.mem_filter, List.mem_map, decide_eq_true_eq,
      and_comm]
  · cases h

theorem mem_grouped {shard id : JsString} : id ∈ grouped map rest owned shard ↔
    id ∈ owned.getD ((requested rest.accountId).getD (map.accounts.map Prod.fst)) ∧
      map.owner id = some shard ∧ ∀ ids, requested rest.accountId = some ids → id ∈ ids := by
  simp only [grouped, List.mem_filter, Bool.and_eq_true, decide_eq_true_eq, Option.all_eq_true]

theorem mem_scopedTargets : t ∈ scopedTargets map rest owned ↔ t.shard ∈ map.shards ∧
    t.accountIds = grouped map rest owned t.shard ∧ t.accountIds ≠ [] ∧
      t.sources = requested rest.source := by
  simp only [scopedTargets, List.mem_filterMap]
  constructor
  · rintro ⟨shard, hshard, ht⟩
    split at ht
    · cases ht
    · rename_i hne
      cases ht
      exact ⟨hshard, rfl, hne, rfl⟩
  · rintro ⟨hshard, hids, hne, hsources⟩
    refine ⟨t.shard, hshard, ?_⟩
    rw [← hids, if_neg hne, ← hsources]

/-- Each shard is asked once. -/
theorem scopedTargets_nodup : ((scopedTargets map rest owned).map (·.shard)).Nodup := by
  refine map.shards_nodup.sublist ?_
  unfold scopedTargets
  induction map.shards with
  | nil => exact List.Sublist.refl _
  | cons shard shards ih =>
    by_cases hnone : grouped map rest owned shard = []
    · simp only [List.filterMap_cons, if_pos hnone]
      exact ih.cons _
    · simp only [List.filterMap_cons, if_neg hnone]
      exact ih.cons_cons _

/-! ### The query of a target -/

/-- The filter that a shard applies for a target. -/
def Target.clauses (t : Target) (rest : Query) : List Clause :=
  .isIn .accountId t.accountIds ::
    buildEmailFilters { forwarded rest with accountId := some (List.intercalate [comma] t.accountIds) }

/-- The rows a shard has for a target, in the list order. -/
def answers (db : Database) (store : List EmailRow) (t : Target) (rest : Query) : List ListRow :=
  if t.sources = some [] then [] else listed db store (t.clauses rest)

theorem gateway_source (hsources : t.sources = requested rest.source)
    (hblank : t.sources ≠ some []) :
    canAccess t.gatewayKey true rest.source none = true ∧
      scopeParam (parseList t.gatewayKey.allowedSources) rest.source = some rest.source := by
  rw [canAccess, Target.gatewayKey, hsources]
  rw [hsources] at hblank
  rcases hv : truthy rest.source
  · have hnone : requested rest.source = none := by rw [requested, hv]; rfl
    rw [hnone]
    have hopen : inWhitelist none rest.source = true := rfl
    exact ⟨by simp [parseList, inWhitelist_none, hopen], rfl⟩
  · obtain ⟨v, hsource⟩ : ∃ v, rest.source = some v := by
      rcases hs : rest.source with _ | v
      · rw [hs] at hv
        cases hv
      · exact ⟨v, rfl⟩
    obtain ⟨ids, hreq⟩ : ∃ ids, requested rest.source = some ids := by
      rw [requested, hv]
      exact ⟨_, rfl⟩
    rw [hreq] at hblank ⊢
    have hne : ids.map Json.string ≠ [] := by simpa using hblank
    have hmem {id : JsString} : id ∈ ids ↔ id ∈ parts v := mem_requested (hsource ▸ hreq)
    constructor
    · have hin : inWhitelist (some (ids.map Json.string)) (some v) = true := by
        rw [inWhitelist_some hne]
        refine ⟨?_, fun p hp => ?_⟩
        · obtain ⟨id, hid⟩ := List.exists_mem_of_ne_nil ids (by simpa using hblank)
          exact List.ne_nil_of_mem (hmem.mp hid)
        · simpa [includes] using hmem.mpr hp
      simp [parseList, inWhitelist_none, hsource, hin]
    · obtain ⟨id, ids', rfl⟩ := List.exists_cons_of_ne_nil (by simpa using hblank : ids ≠ [])
      exact if_pos hv

/-- The whitelists of the gateway key add the target's accounts to the query. -/
theorem gateway_filter (hids : t.accountIds ≠ []) (hsources : t.sources = requested rest.source)
    (hblank : t.sources ≠ some []) :
    ∃ filters, resolveScopedEmailFilter (.apiKey t.gatewayKey) (forwarded rest) = some filters ∧
      .isIn .accountId t.accountIds :: filters = t.clauses rest := by
  have hsource := (gateway_source hsources hblank).2
  have haccount : scopeParam (parseList t.gatewayKey.allowedAccounts) none =
      some (some (List.intercalate [comma] t.accountIds)) := by
    obtain ⟨id, ids, hcons⟩ := List.exists_cons_of_ne_nil hids
    have hjoin := (joinComma_strings t.accountIds).1
    rw [hcons] at hjoin
    rw [Target.gatewayKey, hcons]
    exact congrArg (Option.map some) hjoin
  have hrole : t.gatewayKey.role ≠ .admin := by simp [Target.gatewayKey]
  have hdomain : truthy (forwarded rest).domain = false := rfl
  refine ⟨_, ?_, rfl⟩
  simp only [resolveScopedEmailFilter, hdomain, Bool.false_eq_true, false_and, if_false, scopeQuery, hrole]
  rw [show (forwarded rest).source = rest.source from rfl, show (forwarded rest).accountId = none from rfl,
    hsource, haccount]
  rfl

variable {db : Database} {store : List EmailRow} {ids : List JsString} {cursor : Option EmailCursor}
  {limit : ℕ}

/-- A shard answers with the next page of its rows for the target. -/
theorem shardEmails_ok (hne : t.accountIds ≠ []) (hsources : t.sources = requested rest.source)
    (hids : IdsAgree db ids) (hstore : ∀ row ∈ store, row.id ∈ ids) (hnodup : (store.map (·.id)).Nodup)
    (hrows : ∀ row ∈ answers db store t rest, Cursorable row) (hlimit : 1 ≤ limit ∧ limit ≤ 600)
    (hcursor : ∀ c, cursor = some c → decodeEmailCursor c = some c ∧ c.id ∈ ids) (withCount : Bool) :
    ∃ count, shardEmails db store t ⟨t.accountIds, forwarded rest, limit, cursor, withCount⟩ =
      some ⟨some ((after cursor (answers db store t rest)).take limit), count,
        limit < (after cursor (answers db store t rest)).length⟩ ∧
      ∀ n, count = some n → 0 ≤ n ∧ n ≤ store.length := by
  by_cases hblank : t.sources = some []
  · refine ⟨some 0, ?_, fun n hn => by cases hn; omega⟩
    rw [shardEmails, if_pos (.inr hblank), answers, if_pos hblank]
    simp [after]
  · rw [answers, if_neg hblank] at hrows ⊢
    obtain ⟨count, next, hlist, hcount⟩ :=
      executeCursorList_ok hids hstore hnodup hrows hlimit hcursor withCount
    have hopen : canAccess t.gatewayKey true none none = true := by simp [canAccess, inWhitelist_none]
    have hsource := (gateway_source hsources hblank).1
    obtain ⟨filters, hfilter, hclauses⟩ := gateway_filter hne hsources hblank
    refine ⟨count.map Int.ofNat, ?_, fun n hn => ?_⟩
    · rw [shardEmails, if_neg (by simp [hne, hblank]), if_neg (by simp [hopen]),
        show (forwarded rest).source = rest.source from rfl, if_neg (by simp [hsource]), hfilter]
      simp only [hclauses, hlist]
    · obtain ⟨m, hm, rfl⟩ := Option.map_eq_some_iff.mp hn
      have := hcount m hm
      exact ⟨Int.natCast_nonneg m, Int.ofNat_le.mpr this⟩

end OneMail.Unified
