import Mathlib
import OneMail.Lib.Paging
import OneMail.Unified.Federation

/-! Reading the federated list page by page.

    The stores of the primary and of the shards hold mail with distinct ids. A row is at its owner when
    the shard map names that store as the owner of its account; native mail is at home in the primary.
    What a single database with all rows at their owners would list (`Deployment.inScope`) is what the
    pages should give. They give what the owners answer (`Deployment.everything`), and the two agree
    exactly when every row of a shard is answered if and only if it is in scope (`Deployment.Covers`). -/

namespace OneMail.Unified
open JsString Ordered

/-- A gateway with the databases of its shards. -/
structure Deployment extends Gateway where
  shard : JsString → List EmailRow
  distinct : ((primary ++ map.shards.flatMap shard).map (·.id)).Nodup
  /-- A count of rows is a safe integer. -/
  countable : ∀ id ∈ map.shards, (shard id).length < 2 ^ 53

/-- The shard that owns a row, if one does. -/
def ShardMap.ownerOf (map : ShardMap) (row : EmailRow) : Option JsString :=
  if row.source = some (js "cf_routing") then none else row.accountId.bind map.owner

namespace Deployment

variable (d : Deployment)

def rows : List EmailRow := d.primary ++ d.map.shards.flatMap d.shard

def ids : List JsString := d.rows.map (·.id)

/-- The rows that are at their owner. -/
def owned : List EmailRow :=
  d.primary.filter (fun row => d.map.ownerOf row = none) ++
    d.map.shards.flatMap fun id => (d.shard id).filter fun row => d.map.ownerOf row = some id

/-- What a single database would list. -/
def inScope (clauses : List Clause) : List ListRow := listed d.db d.owned clauses

/-- Every shard answers as its list route does. -/
def Honest : Prop := ∀ calls t body, t.shard ∈ d.map.shards →
  d.ask calls t body = shardEmails d.db (d.shard t.shard) t body

/-- The query with the caller's whitelists, the caller's filter, and the shards the query is sent to. -/
structure Resolved (rest rest' : Query) (clauses : List Clause) (targets : List Target) : Prop where
  scope : scopedRest d.caller rest = some rest'
  filter : resolveScopedEmailFilter d.caller rest = some clauses
  targets : d.targets rest' = some targets

/-- What the owners answer. -/
def everything (rest' : Query) (clauses : List Clause) (targets : List Target) : List ListRow :=
  sortBy rowKey (listed d.db d.primary (clauses ++ excludeRemoteSql d.map) ++
    targets.flatMap fun t => answers d.db (d.shard t.shard) t rest')

/-- Every id is ordered alike everywhere, and every row has a cursor. -/
structure Walkable : Prop where
  agree : IdsAgree d.db d.ids
  cursorable : ∀ row ∈ d.rows, Cursorable (listRow row)

end Deployment

variable {d : Deployment} {rest rest' : Query} {clauses : List Clause} {targets : List Target}
  {t : Target} {start : Option EmailCursor}

/-! ### The stores -/

theorem primary_nodup (d : Deployment) : (d.primary.map (·.id)).Nodup :=
  d.distinct.sublist ((List.sublist_append_left _ _).map _)

theorem shard_nodup (d : Deployment) {id : JsString} (h : id ∈ d.map.shards) : ((d.shard id).map (·.id)).Nodup := by
  refine d.distinct.sublist (List.Sublist.map _ (List.Sublist.trans ?_ (List.sublist_append_right _ _)))
  exact List.sublist_flatten_of_mem (List.mem_map_of_mem h)

theorem mem_rows_shard {id : JsString} {row : EmailRow} (h : id ∈ d.map.shards) (hrow : row ∈ d.shard id) :
    row ∈ d.rows := List.mem_append_right _ (List.mem_flatMap.mpr ⟨id, h, hrow⟩)

/-- A row is determined by its id. -/
theorem row_eq {a b : EmailRow} (ha : a ∈ d.rows) (hb : b ∈ d.rows) (h : a.id = b.id) : a = b :=
  List.inj_on_of_nodup_map d.distinct ha hb h

theorem primary_apart {a b : EmailRow} {id : JsString} (ha : a ∈ d.primary) (hid : id ∈ d.map.shards)
    (hb : b ∈ d.shard id) : a.id ≠ b.id := by
  have h := d.distinct
  rw [List.map_append, List.nodup_append] at h
  exact h.2.2 _ (List.mem_map_of_mem ha) _ (List.mem_map_of_mem (List.mem_flatMap.mpr ⟨id, hid, hb⟩))

theorem shards_apart {a b : EmailRow} {id id' : JsString} (hid : id ∈ d.map.shards) (ha : a ∈ d.shard id)
    (hid' : id' ∈ d.map.shards) (hb : b ∈ d.shard id') (h : a.id = b.id) : id = id' := by
  have hnodup := d.distinct.sublist ((List.sublist_append_right _ _).map _)
  rw [List.map_flatMap, List.nodup_flatMap] at hnodup
  by_contra hne
  have : Std.Symm (Function.onFun List.Disjoint fun id => (d.shard id).map (·.id)) := 
    ⟨fun _ _ h _ ha hb => h hb ha⟩
  have hdisjoint := hnodup.2.forall hid hid' hne
  exact hdisjoint (List.mem_map_of_mem ha) (h ▸ List.mem_map_of_mem hb)

/-! ### The targets -/

namespace Deployment.Resolved

theorem target (h : d.Resolved rest rest' clauses targets) (ht : t ∈ targets) :
    t.shard ∈ d.map.shards ∧ t.accountIds ≠ [] ∧ t.sources = requested rest'.source := by
  have htargets := h.targets
  unfold Gateway.targets at htargets
  split at htargets
  · cases htargets
    exact absurd ht List.not_mem_nil
  · obtain ⟨owned, -, rfl⟩ := Option.map_eq_some_iff.mp htargets
    obtain ⟨hshard, -, hne, hsources⟩ := mem_scopedTargets.mp ht
    exact ⟨hshard, hne, hsources⟩

theorem nodup (h : d.Resolved rest rest' clauses targets) : (targets.map (·.shard)).Nodup := by
  have htargets := h.targets
  unfold Gateway.targets at htargets
  split at htargets
  · cases htargets
    exact List.nodup_nil
  · obtain ⟨owned, -, rfl⟩ := Option.map_eq_some_iff.mp htargets
    exact scopedTargets_nodup

end Deployment.Resolved

theorem mem_answers {row : ListRow} {store : List EmailRow} {db : Database} : row ∈ answers db store t rest' ↔
    ∃ email ∈ store, (t.sources ≠ some [] ∧ selects db.toEngine (t.clauses rest') email = true) ∧
      listRow email = row := by
  unfold answers
  split
  · rename_i hblank
    simp [hblank]
  · rename_i hblank
    simp only [mem_listed, hblank, ne_eq, not_false_iff, true_and]

theorem answers_ascending {store : List EmailRow} {db : Database} (h : (store.map (·.id)).Nodup) :
    Ascending rowKey (answers db store t rest') := by
  unfold answers
  split
  · exact List.Pairwise.nil
  · exact listed_ascending h

theorem ids_nodup {rows : List ListRow} (h : Ascending rowKey rows) (hids : ∀ a ∈ rows, ∀ b ∈ rows,
    a.id = b.id → a = b) : (rows.map (·.id)).Nodup :=
  List.Nodup.map_on (fun a ha b hb hab => hids a ha b hb hab) h.nodup

/-- The rows that a shard answers with. -/
theorem answers_answerable (hw : d.Walkable) (h : d.Resolved rest rest' clauses targets) (ht : t ∈ targets) :
    Answerable (answers d.db (d.shard t.shard) t rest') d.ids := by
  have hshard := (h.target ht).1
  refine ⟨answers_ascending (shard_nodup d hshard), fun row hrow => ?_, fun row hrow => ?_,
    ids_nodup (answers_ascending (shard_nodup d hshard)) fun a ha b hb hab => ?_⟩
  · obtain ⟨email, hemail, -, rfl⟩ := mem_answers.mp hrow
    exact hw.cursorable email (mem_rows_shard hshard hemail)
  · obtain ⟨email, hemail, -, rfl⟩ := mem_answers.mp hrow
    exact List.mem_map_of_mem (mem_rows_shard hshard hemail)
  · obtain ⟨a, hmem, -, rfl⟩ := mem_answers.mp ha
    obtain ⟨b, hmem', -, rfl⟩ := mem_answers.mp hb
    rw [row_eq (mem_rows_shard hshard hmem) (mem_rows_shard hshard hmem') hab]

theorem answering (hw : d.Walkable) (hhonest : d.Honest) (h : d.Resolved rest rest' clauses targets)
    (withCount : Bool) {needed : ℕ} (hneeded : 0 < needed)
    (hstart : ∀ c, start = some c → decodeEmailCursor c = some c ∧ c.id ∈ d.ids) :
    Answering ⟨d.ask, rest', withCount, needed⟩ targets start
      (fun t => answers d.db (d.shard t.shard) t rest') d.ids where
  needed := hneeded
  first := hstart
  ascending t ht := (answers_answerable hw h ht).ascending
  answerable t ht := (answers_answerable hw h ht).sublist List.filter_sublist
  answer t ht calls cursor withCount hcursor := by
    obtain ⟨hshard, hne, hsources⟩ := h.target ht
    have hlimit : 1 ≤ min 100 needed ∧ min 100 needed ≤ 600 := by omega
    obtain ⟨count, hanswer, hcount⟩ := shardEmails_ok hne hsources hw.agree
      (fun row hrow => List.mem_map_of_mem (mem_rows_shard hshard hrow)) (shard_nodup d hshard)
      (answers_answerable hw h ht).cursorable hlimit hcursor withCount
    refine ⟨count, (hhonest calls t _ hshard).trans hanswer, fun n hn => ?_⟩
    obtain ⟨hpos, hle⟩ := hcount n hn
    have := d.countable _ hshard
    refine ⟨?_, hpos⟩
    simp only [isSafeInteger, decide_eq_true_eq]
    omega

/-! ### One request -/

theorem primary_listed (hw : d.Walkable) (filter : List Clause) {row : ListRow}
    (h : row ∈ listed d.db d.primary filter) : Cursorable row := by
  obtain ⟨email, hemail, -, rfl⟩ := mem_listed.mp h
  exact hw.cursorable email (List.mem_append_left _ hemail)

/-- No two owners answer with the same row. -/
theorem everything_nodup (h : d.Resolved rest rest' clauses targets) :
    ((listed d.db d.primary (clauses ++ excludeRemoteSql d.map) ++
      targets.flatMap fun t => answers d.db (d.shard t.shard) t rest').map rowKey).Nodup := by
  refine List.Nodup.of_map (fun key => OrderDual.ofDual (ofLex key).2) ?_
  rw [List.map_map, List.map_append, List.nodup_append, List.map_flatMap, List.nodup_flatMap]
  have hidOf : ((fun key => OrderDual.ofDual (ofLex key).2) ∘ rowKey) = ListRow.id := rfl
  rw [hidOf]
  refine ⟨ids_nodup (listed_ascending (primary_nodup d)) fun a ha b hb hab => ?_, ⟨fun t ht => ?_, ?_⟩,
    fun a ha b hb hab => ?_⟩
  · obtain ⟨a, hmem, -, rfl⟩ := mem_listed.mp ha
    obtain ⟨b, hmem', -, rfl⟩ := mem_listed.mp hb
    rw [row_eq (d := d) (List.mem_append_left _ hmem) (List.mem_append_left _ hmem') hab]
  · refine ids_nodup (answers_ascending (shard_nodup d (h.target ht).1)) fun a ha b hb hab => ?_
    obtain ⟨a, hmem, -, rfl⟩ := mem_answers.mp ha
    obtain ⟨b, hmem', -, rfl⟩ := mem_answers.mp hb
    rw [row_eq (mem_rows_shard (h.target ht).1 hmem) (mem_rows_shard (h.target ht).1 hmem') hab]
  · refine (List.pairwise_map.mp h.nodup).imp_of_mem fun {t t'} ht ht' hne => ?_
    intro id hid hid'
    obtain ⟨row, hrow, rfl⟩ := List.mem_map.mp hid
    obtain ⟨row', hrow', heq⟩ := List.mem_map.mp hid'
    obtain ⟨a, hmem, -, rfl⟩ := mem_answers.mp hrow
    obtain ⟨b, hmem', -, rfl⟩ := mem_answers.mp hrow'
    exact hne (shards_apart (h.target ht).1 hmem (h.target ht').1 hmem' heq.symm)
  · obtain ⟨row, hrow, rfl⟩ := List.mem_map.mp ha
    obtain ⟨t, ht, hb⟩ := List.mem_flatMap.mp hb
    obtain ⟨row', hrow', rfl⟩ := List.mem_map.mp hb
    obtain ⟨a, hmem, -, rfl⟩ := mem_listed.mp hrow
    obtain ⟨b, hmem', -, rfl⟩ := mem_answers.mp hrow'
    exact primary_apart hmem (h.target ht).1 hmem' hab

theorem after_answers (start : Option EmailCursor) :
    after start (listed d.db d.primary (clauses ++ excludeRemoteSql d.map) ++
      targets.flatMap fun t => answers d.db (d.shard t.shard) t rest') =
    after start (listed d.db d.primary (clauses ++ excludeRemoteSql d.map)) ++
      targets.flatMap fun t => after start (answers d.db (d.shard t.shard) t rest') := by
  unfold after
  rw [List.filter_append, List.filter_flatMap]

theorem after_nodup (h : d.Resolved rest rest' clauses targets) (start : Option EmailCursor) :
    ((after start (listed d.db d.primary (clauses ++ excludeRemoteSql d.map)) ++
      targets.flatMap fun t => after start (answers d.db (d.shard t.shard) t rest')).map rowKey).Nodup := by
  rw [← after_answers]
  exact (everything_nodup h).sublist (List.filter_sublist.map _)

theorem after_everything (h : d.Resolved rest rest' clauses targets) (start : Option EmailCursor) :
    after start (d.everything rest' clauses targets) =
      sortBy rowKey (after start (listed d.db d.primary (clauses ++ excludeRemoteSql d.map)) ++
        targets.flatMap fun t => after start (answers d.db (d.shard t.shard) t rest')) := by
  rw [Deployment.everything, ← after_answers]
  exact (sortBy_filter (everything_nodup h) _).symm

/-- A request that the gateway accepts. -/
structure Accepted (d : Deployment) (input : FederatedListInput) : Prop where
  limit : 1 ≤ input.limit ∧ input.limit ≤ 100
  offset : ∀ offset, input.offset = some offset → 0 ≤ offset ∧ offset ≤ 500 ∧ input.cursor = none
  cursor : ∀ c, input.cursor = some c → decodeEmailCursor c = some c ∧ c.id ∈ d.ids

variable {input : FederatedListInput}

/-- The primary gives the first rows that are needed. -/
theorem localList_ok (hw : d.Walkable) (hin : Accepted d input) (filter : List Clause) :
    ∃ page, d.localList filter input = .ok page ∧ page.results =
      (after input.cursor (listed d.db d.primary (filter ++ excludeRemoteSql d.map))).take input.fetchLimit := by
  have hstore : ∀ row ∈ d.primary, row.id ∈ d.ids := fun row hrow =>
    List.mem_map_of_mem (List.mem_append_left _ hrow)
  have hlimit := hin.limit
  unfold Gateway.localList FederatedListInput.fetchLimit
  rcases hoffset : input.offset with _ | offset
  · obtain ⟨count, next, hlist, -⟩ := executeCursorList_ok hw.agree hstore (primary_nodup d)
      (fun row => primary_listed hw (filter ++ excludeRemoteSql d.map))
      (show 1 ≤ input.limit.toNat + 1 ∧ input.limit.toNat + 1 ≤ 600 by omega) hin.cursor input.withCount
    exact ⟨_, hlist, rfl⟩
  · obtain ⟨hpos, hmax, hcursor⟩ := hin.offset offset hoffset
    obtain ⟨page, hlist, hpage⟩ := executeUnboundedOffsetList_ok (filter ++ excludeRemoteSql d.map)
      hw.agree hstore (primary_nodup d)
      (show 1 ≤ offset.toNat + input.limit.toNat ∧ offset.toNat + input.limit.toNat ≤ 600 by omega) input.withCount
    exact ⟨page, hlist, by rw [hpage, hcursor, after_none]⟩

/-- A request that is accepted is gathered, and unless the calls ran out nothing is missing. -/
theorem gather_ok (hw : d.Walkable) (hhonest : d.Honest)
    (h : d.Resolved input.rest rest' clauses targets) (hin : Accepted d input) :
    ∃ gathered, d.gather input = .ok gathered ∧ (gathered.fetch.exhausted = false →
      (∀ s ∈ gathered.fetch.states, s.failed = false) ∧
        gathered.merged input = ((after input.cursor (d.everything rest' clauses targets)).drop
          (input.offset.getD 0).toNat).take
            (if input.offset.isSome then input.limit.toNat else input.limit.toNat + 1)) := by
  obtain ⟨page, hlocal, hpage⟩ := localList_ok hw hin clauses
  have hlimit := hin.limit
  have hneeded : 0 < input.fetchLimit := by
    unfold FederatedListInput.fetchLimit
    split <;> omega
  have hstart : (if input.offset.isNone then input.cursor else none) = input.cursor := by
    rcases hoffset : input.offset with _ | offset
    · rfl
    · rw [(hin.offset offset hoffset).2.2]
      rfl
  have hask := answering hw hhonest h input.withCount hneeded hin.cursor
  obtain ⟨f, hfetch, hinv, hdone⟩ := remoteListPages_inv hask page.results
  refine ⟨⟨page, f⟩, ?_, fun hlive => ⟨fun s hs => (hinv.sound hlive s hs).ok, ?_⟩⟩
  · have hneg : input.offset.any (· < 0) = false := by
      rcases hoffset : input.offset with _ | offset
      · rfl
      · have := hin.offset offset hoffset
        exact decide_eq_false (by omega)
    have hmax : input.offset.any (MAX_UNIFIED_OFFSET < ·) = false := by
      rcases hoffset : input.offset with _ | offset
      · rfl
      · have := hin.offset offset hoffset
        exact decide_eq_false (by unfold MAX_UNIFIED_OFFSET; omega)
    rw [Gateway.gather, if_neg (by omega), hneg, hmax, if_neg Bool.false_ne_true, if_neg Bool.false_ne_true,
      h.scope]
    simp only [(resolve_scopedRest h.scope).trans h.filter, hlocal, h.targets, Option.bind_some, hstart, hfetch]
  · have hlocalAll : Ascending rowKey
        (after input.cursor (listed d.db d.primary (clauses ++ excludeRemoteSql d.map))) :=
      (listed_ascending (primary_nodup d)).filter _
    have hcut := hinv.cover hask hdone hlive hlocalAll hpage (after_nodup h input.cursor)
    have hmerge := hinv.merge_eq hask hlive (hpage ▸ hlocalAll.sublist (List.take_sublist _ _))
    rw [Gathered.merged, hmerge, after_everything h]
    have hwindow : ∀ rows : List ListRow, (rows.drop (input.offset.getD 0).toNat).take
        (if input.offset.isSome then input.limit.toNat else input.limit.toNat + 1) =
          (rows.take input.fetchLimit).drop (input.offset.getD 0).toNat := by
      intro rows
      rw [List.drop_take]
      congr 1
      unfold FederatedListInput.fetchLimit
      rcases input.offset with _ | offset
      · rfl
      · exact (Nat.add_sub_cancel_left _ _).symm
    rw [hwindow, hwindow, hcut]

/-! ### The walk -/

/-- The answers of the gateway as pages. -/
def Gateway.respond (g : Gateway) (rest : Query) (limit : ℤ) (withCount : Bool) (cursor : Option EmailCursor) :
    Option (Paging.Page ListRow EmailCursor) :=
  match g.federatedListEmails ⟨rest, limit, none, cursor, withCount⟩ with
  | .ok answer => some ⟨answer.results, answer.hasMore.getD false, answer.nextCursor.join⟩
  | .error _ => none

/-- The calls of a request last. -/
def Gateway.WithinBudget (g : Gateway) (input : FederatedListInput) : Prop :=
  ∀ gathered, g.gather input = .ok gathered → gathered.fetch.exhausted = false

theorem degraded_nil {gathered : Gathered} (h : ∀ s ∈ gathered.fetch.states, s.failed = false) :
    gathered.degraded = [] := by
  have hnone : gathered.fetch.states.filter (·.failed) = [] :=
    List.filter_eq_nil_iff.mpr fun s hs => by simp [h s hs]
  rw [Gathered.degraded, hnone, List.map_nil]

theorem everything_ascending (h : d.Resolved rest rest' clauses targets) :
    Ascending rowKey (d.everything rest' clauses targets) := sortBy_ascending (everything_nodup h)

theorem mem_everything {row : ListRow} : row ∈ d.everything rest' clauses targets ↔
    (∃ email ∈ d.primary, selects d.db.toEngine (clauses ++ excludeRemoteSql d.map) email = true ∧
      listRow email = row) ∨
    ∃ t ∈ targets, ∃ email ∈ d.shard t.shard, (t.sources ≠ some [] ∧
      selects d.db.toEngine (t.clauses rest') email = true) ∧ listRow email = row := by
  simp only [Deployment.everything, mem_sortBy, List.mem_append, mem_listed, List.mem_flatMap, mem_answers]

theorem everything_row (hw : d.Walkable) (h : d.Resolved rest rest' clauses targets) {row : ListRow}
    (hrow : row ∈ d.everything rest' clauses targets) : Cursorable row ∧ row.id ∈ d.ids := by
  rcases mem_everything.mp hrow with ⟨email, hemail, -, rfl⟩ | ⟨t, ht, email, hemail, -, rfl⟩
  · have hmem : email ∈ d.rows := List.mem_append_left _ hemail
    exact ⟨hw.cursorable email hmem, List.mem_map_of_mem hmem⟩
  · have hmem := mem_rows_shard (h.target ht).1 hemail
    exact ⟨hw.cursorable email hmem, List.mem_map_of_mem hmem⟩

/-- An answer is the next cut of what the owners answer. -/
theorem respond_cuts (hw : d.Walkable) (hhonest : d.Honest) (h : d.Resolved rest rest' clauses targets)
    {limit : ℤ} (hlimit : 1 ≤ limit ∧ limit ≤ 100) {withCount : Bool} {cursor : Option EmailCursor}
    (hbudget : d.WithinBudget ⟨rest, limit, none, cursor, withCount⟩)
    (hcursor : ∀ c, cursor = some c → decodeEmailCursor c = some c ∧ c.id ∈ d.ids) :
    Paging.Cuts (d.respond rest limit withCount)
      (fun cursor => ∀ c, cursor = some c → decodeEmailCursor c = some c ∧ c.id ∈ d.ids)
      (fun cursor => after cursor (d.everything rest' clauses targets)) limit.toNat cursor := by
  have hin : Accepted d ⟨rest, limit, none, cursor, withCount⟩ :=
    ⟨hlimit, fun _ hno => absurd hno (by simp), hcursor⟩
  obtain ⟨gathered, hgather, hcomplete⟩ := gather_ok hw hhonest h hin
  obtain ⟨hok, hmerged⟩ := hcomplete (hbudget gathered hgather)
  simp only [Option.getD_none, Int.toNat_zero, List.drop_zero, Option.isSome_none, Bool.false_eq_true,
    if_false] at hmerged
  generalize hrest : after cursor (d.everything rest' clauses targets) = remaining at hmerged
  have hremaining : ∀ row ∈ remaining, row ∈ d.everything rest' clauses targets := by
    rw [← hrest]
    exact fun row hrow => List.mem_of_mem_filter hrow
  have hrows : (gathered.merged ⟨rest, limit, none, cursor, withCount⟩).take limit.toNat =
      remaining.take limit.toNat := by
    rw [hmerged, List.take_take, min_eq_left (Nat.le_succ _)]
  have hmore : gathered.hasMore ⟨rest, limit, none, cursor, withCount⟩ = decide (limit.toNat < remaining.length) := by
    simp only [Gathered.hasMore, Option.isSome_none, Bool.false_eq_true, if_false, hmerged, List.length_take]
    rw [decide_eq_decide]
    omega
  have hnext : gathered.nextCursor ⟨rest, limit, none, cursor, withCount⟩ = some
      (if limit.toNat < remaining.length then
        (remaining.take limit.toNat).getLast?.map fun last => ⟨last.receivedAt, last.id⟩ else none) := by
    simp only [Gathered.nextCursor, hmore, hrows, Option.isNone_none, true_and, decide_eq_true_eq]
    split
    · rcases hlast : (remaining.take limit.toNat).getLast? with _ | last
      · rfl
      · have hmem := hremaining last (List.mem_of_mem_take (List.mem_of_getLast? hlast))
        simp only [(everything_row hw h hmem).1.encode, Option.map_some]
    · rfl
  have hanswer : d.respond rest limit withCount cursor = some ⟨remaining.take limit.toNat,
      decide (limit.toNat < remaining.length), if limit.toNat < remaining.length then
        (remaining.take limit.toNat).getLast?.map fun last => ⟨last.receivedAt, last.id⟩ else none⟩ := by
    rw [Gateway.respond, Gateway.federatedListEmails, hgather]
    simp only [Except.bind, Gathered.answer, hnext, hrows, hmore, degraded_nil hok, ne_eq, not_true,
      decide_false, Option.isSome_none, Bool.false_eq_true, if_false, Option.getD_some, Option.join_some]
  refine ⟨_, hanswer, by simp only [hrest], by simp [hrest], fun hlt => ?_⟩
  have hlt : limit.toNat < remaining.length := by simpa using hlt
  have hn : limit.toNat - 1 < remaining.length := by omega
  have hlast : (remaining.take limit.toNat).getLast? = some remaining[limit.toNat - 1] := by
    rw [List.getLast?_eq_getElem?, List.length_take, min_eq_left hlt.le, List.getElem?_take_of_lt (by omega),
      List.getElem?_eq_getElem hn]
  have hmem := hremaining _ (List.getElem_mem hn)
  refine ⟨⟨remaining[limit.toNat - 1].receivedAt, remaining[limit.toNat - 1].id⟩, ?_, ?_, ?_⟩
  · simp only [if_pos hlt, hlast, Option.map_some]
  · rintro c hc
    cases hc
    exact ⟨(everything_row hw h hmem).1, (everything_row hw h hmem).2⟩
  · have hdrop := after_getElem (everything_ascending h) hrest.symm hn
    rw [show limit.toNat - 1 + 1 = limit.toNat by omega] at hdrop
    exact hdrop.trans (congrArg (List.drop limit.toNat) hrest.symm)

/-- The pages give what the owners answer. -/
theorem walk_everything (hw : d.Walkable) (hhonest : d.Honest) (h : d.Resolved rest rest' clauses targets)
    {limit : ℤ} (hlimit : 1 ≤ limit ∧ limit ≤ 100) {withCount : Bool}
    (hbudget : ∀ n, ∀ cursor ∈ Paging.visited (d.respond rest limit withCount) n none,
      d.WithinBudget ⟨rest, limit, none, cursor, withCount⟩) :
    ∃ n, Paging.walk (d.respond rest limit withCount) n none = some (d.everything rest' clauses targets) := by
  have hwalk := Paging.walk_complete
    (fun cursor : Option EmailCursor => ∀ c, cursor = some c → decodeEmailCursor c = some c ∧ c.id ∈ d.ids)
    (fun cursor => after cursor (d.everything rest' clauses targets))
    (show 0 < limit.toNat by omega) (fun c hc => absurd hc (by simp))
    fun n cursor hvisited hcursor => respond_cuts hw hhonest h hlimit (hbudget n cursor hvisited) hcursor
  simpa using hwalk

/-- An offset request gives a cut of what the owners answer. -/
theorem offset_everything (hw : d.Walkable) (hhonest : d.Honest) (h : d.Resolved rest rest' clauses targets)
    {limit offset : ℤ} (hlimit : 1 ≤ limit ∧ limit ≤ 100) (hoffset : 0 ≤ offset ∧ offset ≤ 500) {withCount : Bool}
    (hbudget : d.WithinBudget ⟨rest, limit, some offset, none, withCount⟩) :
    ∃ answer, d.federatedListEmails ⟨rest, limit, some offset, none, withCount⟩ = .ok answer ∧
      answer.results = ((d.everything rest' clauses targets).drop offset.toNat).take limit.toNat := by
  have hin : Accepted d ⟨rest, limit, some offset, none, withCount⟩ :=
    ⟨hlimit, fun o ho => by cases ho; exact ⟨hoffset.1, hoffset.2, rfl⟩, fun c hc => absurd hc (by simp)⟩
  obtain ⟨gathered, hgather, hcomplete⟩ := gather_ok hw hhonest h hin
  obtain ⟨-, hmerged⟩ := hcomplete (hbudget gathered hgather)
  simp only [Option.getD_some, Option.isSome_some, if_true, after_none] at hmerged
  have hnext : gathered.nextCursor ⟨rest, limit, some offset, none, withCount⟩ = some none := by
    simp [Gathered.nextCursor]
  rw [Gateway.federatedListEmails, hgather]
  simp only [Except.bind, Gathered.answer, hnext]
  refine ⟨_, rfl, ?_⟩
  simp only [hmerged, List.take_take, min_self]

/-! ### What is in scope -/

/-- Every row of a shard is answered exactly when it is at its owner and the caller's filter selects
    it. -/
def Deployment.Covers (d : Deployment) (rest' : Query) (clauses : List Clause) (targets : List Target) : Prop :=
  ∀ id ∈ d.map.shards, ∀ row ∈ d.shard id,
    (∃ t ∈ targets, t.shard = id ∧ t.sources ≠ some [] ∧ selects d.db.toEngine (t.clauses rest') row = true) ↔
      d.map.ownerOf row = some id ∧ selects d.db.toEngine clauses row = true

/-- The primary leaves out the rows that a shard owns. -/
theorem selects_excludeRemote (map : ShardMap) (e : Engine) (row : EmailRow) :
    selects e (excludeRemoteSql map) row = true ↔ map.ownerOf row = none := by
  have hclause : selects e (excludeRemoteSql map) row = true ↔
      row.source = some (js "cf_routing") ∨ ∀ id, row.accountId = some id → id ∉ remoteAccountIds map := by
    unfold excludeRemoteSql
    split
    · rename_i hnone
      simp [selects, hnone]
    · simp [selects, Clause.holds, Option.all_eq_true]
  rw [hclause, ShardMap.ownerOf]
  split
  · rename_i hnative
    simp [hnative]
  · rename_i hforeign
    simp only [hforeign, false_or, Option.bind_eq_none_iff, mem_remoteAccountIds, Bool.not_eq_true,
      Option.isSome_eq_false_iff, Option.isNone_iff_eq_none]

theorem mem_inScope {row : ListRow} : row ∈ d.inScope clauses ↔
    (∃ email ∈ d.primary, selects d.db.toEngine (clauses ++ excludeRemoteSql d.map) email = true ∧
      listRow email = row) ∨
    ∃ id ∈ d.map.shards, ∃ email ∈ d.shard id, (d.map.ownerOf email = some id ∧
      selects d.db.toEngine clauses email = true) ∧ listRow email = row := by
  simp only [Deployment.inScope, mem_listed, Deployment.owned, List.mem_append, List.mem_filter,
    List.mem_flatMap, decide_eq_true_eq, selects_append, Bool.and_eq_true, selects_excludeRemote]
  constructor
  · rintro ⟨email, ⟨hmem, howner⟩ | ⟨id, hid, hmem, howner⟩, hsel, rfl⟩
    · exact .inl ⟨email, hmem, ⟨hsel, howner⟩, rfl⟩
    · exact .inr ⟨id, hid, email, hmem, ⟨howner, hsel⟩, rfl⟩
  · rintro (⟨email, hmem, ⟨hsel, howner⟩, rfl⟩ | ⟨id, hid, email, hmem, ⟨howner, hsel⟩, rfl⟩)
    · exact ⟨email, .inl ⟨hmem, howner⟩, hsel, rfl⟩
    · exact ⟨email, .inr ⟨id, hid, hmem, howner⟩, hsel, rfl⟩

theorem owned_nodup (d : Deployment) : (d.owned.map (·.id)).Nodup := by
  refine d.distinct.sublist (List.Sublist.map _ (List.filter_sublist.append ?_))
  induction d.map.shards with
  | nil => exact List.Sublist.refl _
  | cons id ids ih =>
    rw [List.flatMap_cons, List.flatMap_cons]
    exact List.filter_sublist.append ih

/-- What the owners answer is what is in scope exactly when the shards cover it. -/
theorem everything_eq_iff (h : d.Resolved rest rest' clauses targets) :
    d.everything rest' clauses targets = d.inScope clauses ↔ d.Covers rest' clauses targets := by
  constructor
  · intro heq id hid row hrow
    have hmem : listRow row ∈ d.everything rest' clauses targets ↔ listRow row ∈ d.inScope clauses := by
      rw [heq]
    -- a row of a shard can only be there as the row of this shard
    have hrow_id : ∀ {email : EmailRow}, listRow email = listRow row → email.id = row.id :=
      fun heq => congrArg ListRow.id heq
    rw [mem_everything, mem_inScope] at hmem
    constructor
    · rintro ⟨t, ht, rfl, hanswered⟩
      rcases hmem.mp (.inr ⟨t, ht, row, hrow, hanswered, rfl⟩) with
        ⟨email, hemail, -, heq⟩ | ⟨id, hid', email, hemail, hin, heq⟩
      · exact absurd (hrow_id heq) (primary_apart hemail hid hrow)
      · obtain rfl := shards_apart hid' hemail hid hrow (hrow_id heq)
        obtain rfl := row_eq (mem_rows_shard hid hemail) (mem_rows_shard hid hrow) (hrow_id heq)
        exact hin
    · intro hin
      rcases hmem.mpr (.inr ⟨id, hid, row, hrow, hin, rfl⟩) with
        ⟨email, hemail, -, heq⟩ | ⟨t, ht, email, hemail, hanswered, heq⟩
      · exact absurd (hrow_id heq) (primary_apart hemail hid hrow)
      · have hshard := (h.target ht).1
        have hid_eq := shards_apart hshard hemail hid hrow (hrow_id heq)
        obtain rfl := row_eq (mem_rows_shard hshard hemail) (mem_rows_shard hid hrow) (hrow_id heq)
        exact ⟨t, ht, hid_eq, hanswered⟩
  · intro hcovers
    refine (everything_ascending h).ext (listed_ascending (owned_nodup d)) fun row => ?_
    rw [mem_everything, mem_inScope]
    refine or_congr Iff.rfl ⟨?_, ?_⟩
    · rintro ⟨t, ht, email, hemail, hanswered, rfl⟩
      have hshard := (h.target ht).1
      exact ⟨t.shard, hshard, email, hemail,
        (hcovers t.shard hshard email hemail).mp ⟨t, ht, rfl, hanswered⟩, rfl⟩
    · rintro ⟨id, hid, email, hemail, hin, rfl⟩
      obtain ⟨t, ht, rfl, hanswered⟩ := (hcovers id hid email hemail).mpr hin
      exact ⟨t, ht, email, hemail, hanswered, rfl⟩

/-! ### The list -/

theorem demoShards_nodup : [js "s1"].Nodup := by decide

/-- One shard with one mail account and one mail, which has no attachments. -/
def demoMap : ShardMap where
  shards := [js "s1"]
  accounts := [(js "acc", js "s1")]
  shards_nodup := demoShards_nodup
  accounts_nodup := by decide
  owners := by decide
  trimmed := by decide

def demoRow : EmailRow :=
  ⟨js "m1", some (js "imap_qq"), some (js "acc"), none, none, none, none, 5, none, 0, none, some 0, none⟩

def demoDb : Database := ⟨⟨fun _ _ => false, fun _ _ => false, fun _ _ => false⟩, fun a b => a < b⟩

def demo : Deployment where
  db := demoDb
  map := demoMap
  primary := []
  ask _ t body := shardEmails demoDb (if t.shard = js "s1" then [demoRow] else []) t body
  caller := .admin
  shard id := if id = js "s1" then [demoRow] else []
  distinct := by decide
  countable := by decide

theorem demo_walkable : demo.Walkable where
  agree a _ b _ := by simp [demo, demoDb]
  cursorable row hrow := by
    obtain rfl : row = demoRow := by
      rw [show demo.rows = [demoRow] by decide +kernel] at hrow
      exact List.mem_singleton.mp hrow
    show decodeEmailCursor _ = some _
    decide

/-- The answer of the demo, one page. -/
theorem demo_respond {q : Query} (h : demo.respond q 10 false none = some ⟨[listRow demoRow], false, none⟩)
    (hb : (demo.gather ⟨q, 10, none, none, false⟩).toOption.all (fun g => !g.fetch.exhausted) = true) :
    (∃ n, Paging.walk (demo.respond q 10 false) n none = some [listRow demoRow]) ∧
      ∀ n, ∀ cursor ∈ Paging.visited (demo.respond q 10 false) n none,
        demo.WithinBudget ⟨q, 10, none, cursor, false⟩ := by
  refine ⟨⟨1, by rw [Paging.walk, h]; rfl⟩, fun n cursor hvisited gathered hgather => ?_⟩
  have hnone : cursor = none := by
    rcases n with _ | n
    · exact absurd hvisited List.not_mem_nil
    · simpa only [Paging.visited, h, List.mem_singleton] using hvisited
  rw [hnone] at hgather
  rw [hgather] at hb
  simpa [Except.toOption] using hb

end OneMail.Unified
