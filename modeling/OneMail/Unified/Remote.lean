import Mathlib
import OneMail.Lib.Loop
import OneMail.Unified.Shards

/-! Pages from several shards (`remoteListPages` in `federation.ts`).

    Every target is asked for its first page. As long as a shard has more rows, and its last row still
    stands before the last row that is needed of the merge, it is asked for its next page, from the
    cursor of its last row. After 24 calls the shards that would have to be asked again count as failed. -/

namespace OneMail.Unified
open JsString Ordered

/-- What the network answers to a target's request, after so many calls. -/
abbrev Ask := ℕ → Target → ListBody → Option RemoteList

structure ShardState where
  target : Target
  rows : List ListRow
  cursor : Option EmailCursor
  count : Option ℤ
  more : Bool
  failed : Bool
  /-- Whether the shard is to be asked in the next round. -/
  pending : Bool
  /-- Whether its cursor could not be encoded. -/
  threw : Bool

/-- A request that was made, with its answer. -/
structure Asked where
  target : Target
  body : ListBody
  answer : Option RemoteList

/-- The state of the loop; the code does not keep `asked` and `exhausted`. -/
structure Fetch where
  calls : ℕ
  states : List ShardState
  asked : List Asked
  /-- Whether the calls ran out. -/
  exhausted : Bool

def MAX_REMOTE_LIST_CALLS : ℕ := 24

/-- The rows of a valid page. -/
def validRemotePage (data : RemoteList) (limit : ℕ) : Option (List ListRow) :=
  match data.results with
  | none => none
  | some rows =>
    if rows.length ≤ limit ∧ (∀ row ∈ rows, row.id ≠ [] ∧ isSafeInteger row.receivedAt = true) ∧
        (rows.map (·.id)).Nodup ∧ rows.IsChain (fun a b => compareEmailOrder a b ≤ 0) ∧
        data.count.all (fun n => isSafeInteger n && 0 ≤ n) = true then some rows
    else none

def ShardState.start (target : Target) (cursor : Option EmailCursor) : ShardState :=
  ⟨target, [], cursor, none, true, false, true, false⟩

def ShardState.body (s : ShardState) (rest : Query) (pageSize : ℕ) (withCount : Bool) : ListBody :=
  ⟨s.target.accountIds, forwarded rest, pageSize, s.cursor, withCount && s.rows = []⟩

/-- The rows of the page continue the rows before it. -/
def ShardState.continues (s : ShardState) (rows : List ListRow) : Bool :=
  s.rows.getLast?.all fun previous => rows.head?.all fun first => compareEmailOrder previous first < 0

/-- Where a shard stands after a valid page. -/
def ShardState.extend (s : ShardState) (data : RemoteList) (rows : List ListRow) (pageSize : ℕ) :
    ShardState :=
  let more := data.hasMore && rows.length = pageSize
  let last := if more then rows.getLast? else none
  let cursor := last.bind fun last => encodeEmailCursor last.receivedAt last.id
  { s with
    rows := s.rows ++ rows, count := if s.rows = [] then data.count else s.count, more, cursor,
    threw := last.isSome && cursor.isNone }

def ShardState.receive (s : ShardState) (answer : Option RemoteList) (pageSize : ℕ) : ShardState :=
  match answer with
  | none => { s with failed := true }
  | some data =>
    match validRemotePage data pageSize with
    | none => { s with failed := true }
    | some rows => if s.continues rows then s.extend data rows pageSize else { s with failed := true }

/-- The last row that is needed of the merge, when there are so many rows. -/
def boundary (localRows : List ListRow) (states : List ShardState) (needed : ℕ) : Option ListRow :=
  let merged := mergeSortedEmailPages (localRows :: states.map (·.rows)) needed 0
  if merged.length = needed then merged.getLast? else none

/-- A shard is asked again when it has more rows and its last one stands before the boundary. -/
def ShardState.settle (s : ShardState) (bound : Option ListRow) : ShardState :=
  { s with
    pending := !s.failed && s.more && bound.all fun bound =>
      s.rows.getLast?.all fun last => compareEmailOrder last bound < 0 }

def ShardState.giveUp (s : ShardState) : ShardState :=
  if s.pending then { s with failed := true, pending := false } else s

/-- One list request of the gateway, as far as the shards see it. -/
structure RemoteQuery where
  ask : Ask
  rest : Query
  withCount : Bool
  needed : ℕ

def RemoteQuery.pageSize (r : RemoteQuery) : ℕ := min 100 r.needed

def RemoteQuery.round (r : RemoteQuery) (calls : ℕ) (s : ShardState) : ShardState :=
  if s.pending then s.receive (r.ask calls s.target (s.body r.rest r.pageSize r.withCount)) r.pageSize else s

def Fetch.pending (f : Fetch) : List ShardState := f.states.filter (·.pending)

/-- The calls have run out: who would have to be asked again has failed. -/
def Fetch.abandon (f : Fetch) : Fetch := { f with states := f.states.map (·.giveUp), exhausted := true }

/-- The request of a shard in this round, with its answer. -/
def RemoteQuery.asked (r : RemoteQuery) (calls : ℕ) (s : ShardState) : Asked :=
  let body := s.body r.rest r.pageSize r.withCount
  ⟨s.target, body, r.ask calls s.target body⟩

/-- The state after a round. -/
def RemoteQuery.advance (r : RemoteQuery) (localRows : List ListRow) (f : Fetch) : Fetch :=
  { f with
    calls := f.calls + f.pending.length
    states := (f.states.map (r.round f.calls)).map
      (·.settle (boundary localRows (f.states.map (r.round f.calls)) r.needed))
    asked := f.asked ++ f.pending.map (r.asked f.calls) }

def RemoteQuery.step (r : RemoteQuery) (localRows : List ListRow) (f : Fetch) : Option Fetch :=
  if MAX_REMOTE_LIST_CALLS < f.calls + f.pending.length then some f.abandon
  else if (f.states.map (r.round f.calls)).any (·.threw) then none
  else some (r.advance localRows f)

def Fetch.done (f : Fetch) : Bool := f.states.all (!·.pending)

/-- Every round makes a call, so that more rounds than calls are not needed. -/
def remoteListPages (r : RemoteQuery) (targets : List Target) (cursor : Option EmailCursor)
    (localRows : List ListRow) : Option Fetch :=
  Loop.run Fetch.done (r.step localRows) (MAX_REMOTE_LIST_CALLS + 1)
    ⟨0, targets.map (ShardState.start · cursor), [], false⟩

/-! ### One shard -/

/-- The shard has given a prefix of its rows `rows`, which are those of `all` after the first cursor,
    and can be asked for the next ones. -/
structure ShardState.Sound (s : ShardState) (all rows : List ListRow) (ids : List JsString) : Prop where
  ok : s.failed = false
  quiet : s.threw = false
  given : s.rows = rows.take s.rows.length
  ended : s.more = false → s.rows = rows
  resume : s.more = true → after s.cursor all = rows.drop s.rows.length
  cursor : ∀ c, s.cursor = some c → decodeEmailCursor c = some c ∧ c.id ∈ ids

/-- Rows that a shard may answer with: in list order, each with a cursor, each with a known id. -/
structure Answerable (rows : List ListRow) (ids : List JsString) : Prop where
  ascending : Ascending rowKey rows
  cursorable : ∀ row ∈ rows, Cursorable row
  ids : ∀ row ∈ rows, row.id ∈ ids
  distinct : (rows.map (·.id)).Nodup

variable {s : ShardState} {all rows rows' : List ListRow} {ids : List JsString} {start : Option EmailCursor}
  {limit : ℕ}

theorem Answerable.sublist (h : Answerable rows ids) (hs : List.Sublist rows' rows) :
    Answerable rows' ids :=
  ⟨h.ascending.sublist hs, fun row hrow => h.cursorable row (hs.subset hrow),
    fun row hrow => h.ids row (hs.subset hrow), h.distinct.sublist (hs.map _)⟩

/-- A page of such rows is a valid one. -/
theorem Answerable.valid (h : Answerable rows ids) (hlen : rows.length ≤ limit) {count : Option ℤ}
    (hcount : ∀ n, count = some n → isSafeInteger n = true ∧ 0 ≤ n) (hasMore : Bool) :
    validRemotePage ⟨some rows, count, hasMore⟩ limit = some rows := by
  have hchain : rows.IsChain fun a b => compareEmailOrder a b ≤ 0 := by
    refine List.Pairwise.isChain (h.ascending.imp fun hlt => ?_)
    exact (compareEmailOrder_lt.mpr hlt).le
  refine if_pos ⟨hlen, fun row hrow => ?_, h.distinct, hchain, ?_⟩
  · exact (h.cursorable row hrow).valid.symm
  · rcases count with _ | n
    · rfl
    · simpa using hcount n rfl

/-- The cursor of a row stands for the rows after it. -/
theorem after_getElem (hasc : Ascending rowKey all) (hrows : rows = after start all) {n : ℕ}
    (hn : n < rows.length) :
    after (some ⟨rows[n].receivedAt, rows[n].id⟩) all = rows.drop (n + 1) := by
  subst hrows
  have hafter : Ascending rowKey (after start all) := hasc.filter _
  rw [hafter.drop_succ hn]
  unfold after at *
  rw [List.filter_filter]
  refine List.filter_congr fun row hrow => ?_
  rw [Bool.eq_iff_iff, Bool.and_eq_true]
  simp only [Option.all_some, decide_eq_true_eq]
  have hkey (r : ListRow) : cursorKey ⟨r.receivedAt, r.id⟩ = rowKey r := rfl
  refine ⟨fun hlt => ⟨hlt, ?_⟩, fun h => h.1⟩
  -- what comes after the row comes after the first cursor too
  have hfirst := (List.mem_filter.mp (List.getElem_mem hn)).2
  rcases start with _ | c
  · rfl
  · simp only [Option.all_some, decide_eq_true_eq] at hfirst ⊢
    rw [hkey] at hlt
    exact hfirst.trans hlt

theorem ShardState.Sound.continues (h : s.Sound all rows ids) (hok : Answerable rows ids) (limit : ℕ) :
    s.continues ((rows.drop s.rows.length).take limit) = true := by
  unfold ShardState.continues
  rcases hprev : s.rows.getLast? with _ | previous
  · rfl
  rcases hfirst : ((rows.drop s.rows.length).take limit).head? with _ | first
  · rfl
  simp only [Option.all_some, decide_eq_true_eq, compareEmailOrder_lt]
  have hin : previous ∈ rows.take s.rows.length := h.given ▸ List.mem_of_getLast? hprev
  have hout : first ∈ rows.drop s.rows.length := List.mem_of_mem_take (List.mem_of_mem_head? hfirst)
  have hasc := hok.ascending
  rw [← List.take_append_drop s.rows.length rows] at hasc
  exact (List.pairwise_append.mp hasc).2.2 previous hin first hout

theorem ShardState.Sound.extend (h : s.Sound all rows ids) (hasc : Ascending rowKey all)
    (hok : Answerable rows ids) (hrows : rows = after start all) (hlimit : 0 < limit) {data : RemoteList}
    (hdata : data.hasMore = decide (limit < (rows.drop s.rows.length).length)) :
    (s.extend data ((rows.drop s.rows.length).take limit) limit).Sound all rows ids := by
  have htake : s.rows ++ (rows.drop s.rows.length).take limit = rows.take (s.rows.length + limit) := by
    rw [List.take_add, ← h.given]
  have hmore : (data.hasMore && decide (((rows.drop s.rows.length).take limit).length = limit)) =
      decide (limit < (rows.drop s.rows.length).length) := by
    rw [hdata, List.length_take, Bool.eq_iff_iff, Bool.and_eq_true]
    simp only [decide_eq_true_eq]
    omega
  rw [List.length_drop] at hmore
  by_cases hlt : limit < rows.length - s.rows.length
  · -- the page is full, and its last row gives the cursor of what remains
    have hn : s.rows.length + limit - 1 < rows.length := by omega
    have hlast : ((rows.drop s.rows.length).take limit).getLast? =
        some rows[s.rows.length + limit - 1] := by
      rw [List.getLast?_eq_getElem?, List.length_take, List.length_drop, min_eq_left hlt.le,
        List.getElem?_take_of_lt (by omega), List.getElem?_drop,
        show s.rows.length + (limit - 1) = s.rows.length + limit - 1 by omega,
        List.getElem?_eq_getElem hn]
    have hcursorable := hok.cursorable _ (List.getElem_mem hn)
    have hid := hok.ids _ (List.getElem_mem hn)
    have hextend : s.extend data ((rows.drop s.rows.length).take limit) limit =
        { s with
          rows := rows.take (s.rows.length + limit), more := true,
          count := if s.rows = [] then data.count else s.count, threw := false,
          cursor := some ⟨rows[s.rows.length + limit - 1].receivedAt, rows[s.rows.length + limit - 1].id⟩ } := by
      simp only [ShardState.extend, hmore, hlt, htake, hlast, hcursorable.encode, decide_true, if_true,
        Option.bind_some, Option.isSome_some, Option.isNone_some, Bool.and_false]
    rw [hextend]
    have hlen : (rows.take (s.rows.length + limit)).length = s.rows.length + limit := by
      rw [List.length_take]
      omega
    refine ⟨h.ok, rfl, by rw [hlen], fun hno => absurd hno (by simp), fun _ => ?_, fun c hc => ?_⟩
    · rw [after_getElem hasc hrows hn, hlen, show s.rows.length + limit - 1 + 1 = s.rows.length + limit by omega]
    · cases hc
      exact ⟨hcursorable, hid⟩
  · -- the page holds all rows that were left
    have hextend : s.extend data ((rows.drop s.rows.length).take limit) limit =
        { s with
          rows := rows, more := false, count := if s.rows = [] then data.count else s.count,
          threw := false, cursor := none } := by
      have hall : rows.take (s.rows.length + limit) = rows := List.take_of_length_le (by omega)
      simp only [ShardState.extend, hmore, hlt, htake, hall, decide_false, Bool.false_eq_true, if_false,
        Option.bind_none, Option.isSome_none, Bool.false_and]
    rw [hextend]
    exact ⟨h.ok, rfl, List.take_length.symm, fun _ => rfl, fun hno => absurd hno (by simp), fun _ hc => absurd hc (by simp)⟩

/-- What a shard answers when it answers as its list query does. -/
theorem ShardState.Sound.receive (h : s.Sound all rows ids) (hmore : s.more = true)
    (hasc : Ascending rowKey all) (hok : Answerable rows ids) (hrows : rows = after start all)
    (hlimit : 0 < limit) {count : Option ℤ} (hcount : ∀ n, count = some n → isSafeInteger n = true ∧ 0 ≤ n) :
    (s.receive (some ⟨some ((after s.cursor all).take limit), count,
      limit < (after s.cursor all).length⟩) limit).Sound all rows ids := by
  have hpage : Answerable ((rows.drop s.rows.length).take limit) ids :=
    hok.sublist ((List.take_sublist _ _).trans (List.drop_sublist _ _))
  have hvalid := hpage.valid (List.length_take_le _ _) hcount
  rw [h.resume hmore, ShardState.receive]
  simp only [hvalid, h.continues hok limit, if_true]
  exact h.extend hasc hok hrows hlimit rfl

/-! ### All shards -/

/-- Every target answers with the next page of its rows `all`, whatever was asked before. -/
structure Answering (r : RemoteQuery) (targets : List Target) (start : Option EmailCursor)
    (all : Target → List ListRow) (ids : List JsString) : Prop where
  needed : 0 < r.needed
  first : ∀ c, start = some c → decodeEmailCursor c = some c ∧ c.id ∈ ids
  ascending : ∀ t ∈ targets, Ascending rowKey (all t)
  answerable : ∀ t ∈ targets, Answerable (after start (all t)) ids
  answer : ∀ t ∈ targets, ∀ calls cursor withCount,
    (∀ c, cursor = some c → decodeEmailCursor c = some c ∧ c.id ∈ ids) →
      ∃ count, r.ask calls t ⟨t.accountIds, forwarded r.rest, r.pageSize, cursor, withCount⟩ =
        some ⟨some ((after cursor (all t)).take r.pageSize), count,
          r.pageSize < (after cursor (all t)).length⟩ ∧
        ∀ n, count = some n → isSafeInteger n = true ∧ 0 ≤ n

/-- While the calls last, every shard is sound, and one that is not asked again has given all its rows
    or reaches up to the boundary. -/
structure Fetch.Inv (r : RemoteQuery) (targets : List Target) (start : Option EmailCursor)
    (all : Target → List ListRow) (ids : List JsString) (localRows : List ListRow) (f : Fetch) : Prop where
  calls : f.calls ≤ MAX_REMOTE_LIST_CALLS
  targets : f.states.map (·.target) = targets
  spent : f.exhausted = true → f.done = true
  sound : f.exhausted = false → ∀ s ∈ f.states, s.Sound (all s.target) (after start (all s.target)) ids
  asks : f.exhausted = false → ∀ s ∈ f.states, s.pending = true → s.more = true
  settled : f.exhausted = false → ∀ s ∈ f.states, s.pending = false → s.more = true → ∃ bound last,
    boundary localRows f.states r.needed = some bound ∧ s.rows.getLast? = some last ∧
      ¬ compareEmailOrder last bound < 0

variable {r : RemoteQuery} {targets : List Target} {all : Target → List ListRow} {localRows : List ListRow}
  {f f' : Fetch}

@[simp] theorem settle_rows (s : ShardState) (bound : Option ListRow) : (s.settle bound).rows = s.rows := rfl

@[simp] theorem settle_target (s : ShardState) (bound : Option ListRow) :
    (s.settle bound).target = s.target := rfl

theorem boundary_settle (localRows : List ListRow) (states : List ShardState) (needed : ℕ)
    (bound : Option ListRow) :
    boundary localRows (states.map (·.settle bound)) needed = boundary localRows states needed := by
  have hrows : (states.map (·.settle bound)).map (·.rows) = states.map (·.rows) := by
    rw [List.map_map]
    rfl
  rw [boundary, boundary, hrows]

theorem ShardState.Sound.settle {all : List ListRow} (h : s.Sound all rows ids) (bound : Option ListRow) :
    (s.settle bound).Sound all rows ids :=
  ⟨h.ok, h.quiet, h.given, h.ended, h.resume, h.cursor⟩

theorem receive_target (s : ShardState) (answer : Option RemoteList) (limit : ℕ) :
    (s.receive answer limit).target = s.target := by
  unfold ShardState.receive
  split
  · rfl
  · split
    · rfl
    · split <;> rfl

theorem giveUp_target (s : ShardState) : s.giveUp.target = s.target := by
  unfold ShardState.giveUp
  split <;> rfl

theorem round_target (r : RemoteQuery) (calls : ℕ) (s : ShardState) : (r.round calls s).target = s.target := by
  unfold RemoteQuery.round
  split
  · exact receive_target _ _ _
  · rfl

theorem Answering.round (h : Answering r targets start all ids) (hs : s.target ∈ targets)
    (hsound : s.Sound (all s.target) (after start (all s.target)) ids) (hasks : s.pending = true → s.more = true)
    (calls : ℕ) : (r.round calls s).Sound (all s.target) (after start (all s.target)) ids := by
  unfold RemoteQuery.round
  split
  · rename_i hpending
    obtain ⟨count, hanswer, hcount⟩ := h.answer s.target hs calls s.cursor (r.withCount && s.rows = [])
      hsound.cursor
    rw [ShardState.body, hanswer]
    refine hsound.receive (hasks hpending) (h.ascending _ hs) (h.answerable _ hs) rfl ?_ hcount
    have := h.needed
    unfold RemoteQuery.pageSize
    omega
  · exact hsound

theorem not_done (h : f.done = false) : 0 < f.pending.length := by
  unfold Fetch.done at h
  rw [List.all_eq_false] at h
  obtain ⟨s, hs, hpending⟩ := h
  exact List.length_pos_of_mem (List.mem_filter.mpr ⟨hs, by simpa using hpending⟩)

/-- A round keeps the invariant; it makes a call or ends the loop. -/
theorem step_inv (h : Answering r targets start all ids) (hf : f.Inv r targets start all ids localRows)
    (hdone : f.done = false) : ∃ f', r.step localRows f = some f' ∧ f'.Inv r targets start all ids localRows ∧
      (f'.done = true ∨ MAX_REMOTE_LIST_CALLS - f'.calls < MAX_REMOTE_LIST_CALLS - f.calls) := by
  have hpending := not_done hdone
  have hlive : f.exhausted = false := by
    rcases he : f.exhausted
    · rfl
    · rw [hf.spent he] at hdone
      cases hdone
  unfold RemoteQuery.step
  split
  · -- the calls run out
    have hend : (f.states.map (·.giveUp)).all (!·.pending) = true := by
      simp only [List.all_map, List.all_eq_true, Function.comp_apply, ShardState.giveUp]
      intro s hs
      split
      · rfl
      · rename_i hidle
        simpa using hidle
    refine ⟨_, rfl, ⟨hf.calls, ?_, fun _ => hend, ?_, ?_, ?_⟩, .inl hend⟩
    · simp only [Fetch.abandon, List.map_map, ← hf.targets]
      exact List.map_congr_left fun s _ => giveUp_target s
    all_goals exact fun hno => absurd hno (by simp [Fetch.abandon])
  · rename_i hcalls
    have htarget : ∀ s ∈ f.states, s.target ∈ targets := fun s hs => hf.targets ▸ List.mem_map_of_mem hs
    have hround : ∀ s' ∈ f.states.map (r.round f.calls),
        s'.Sound (all s'.target) (after start (all s'.target)) ids := by
      intro s' hs'
      obtain ⟨s, hs, rfl⟩ := List.mem_map.mp hs'
      rw [round_target]
      exact h.round (htarget s hs) (hf.sound hlive s hs) (hf.asks hlive s hs) f.calls
    have hquiet : (f.states.map (r.round f.calls)).any (·.threw) = false := by
      rw [List.any_eq_false]
      exact fun s' hs' => by simp [(hround s' hs').quiet]
    have hmade : (r.advance localRows f).calls = f.calls + f.pending.length := rfl
    refine ⟨_, if_neg (by rw [hquiet]; simp), ⟨by omega, ?_, ?_, ?_, ?_, ?_⟩, .inr (by omega)⟩
    · simp only [RemoteQuery.advance, List.map_map, ← hf.targets]
      exact List.map_congr_left fun s _ => round_target r f.calls s
    · exact fun hno => absurd (hlive.symm.trans hno) (by simp)
    · rintro - s' hs'
      obtain ⟨s, hs, rfl⟩ := List.mem_map.mp hs'
      exact (hround s hs).settle _
    · rintro - s' hs' hpend
      obtain ⟨s, hs, rfl⟩ := List.mem_map.mp hs'
      simp only [ShardState.settle, Bool.and_eq_true] at hpend ⊢
      exact hpend.1.2
    · rintro - s' hs' hidle hmore
      obtain ⟨s, hs, rfl⟩ := List.mem_map.mp hs'
      rw [RemoteQuery.advance, boundary_settle]
      have hmore : s.more = true := hmore
      have hok := (hround s hs).ok
      simp only [ShardState.settle, hmore, hok, Bool.not_false, Bool.true_and] at hidle
      rcases hb : boundary localRows (f.states.map (r.round f.calls)) r.needed with _ | bound
      · rw [hb] at hidle
        cases hidle
      · rcases hl : s.rows.getLast? with _ | last
        · rw [hb, hl] at hidle
          cases hidle
        · rw [hb, hl] at hidle
          exact ⟨bound, last, rfl, hl, by simpa using hidle⟩

theorem start_inv (h : Answering r targets start all ids) (localRows : List ListRow) :
    Fetch.Inv r targets start all ids localRows ⟨0, targets.map (ShardState.start · start), [], false⟩ := by
  refine ⟨Nat.zero_le _, ?_, fun hno => absurd hno (by simp), ?_, ?_, ?_⟩
  · simp only [List.map_map]
    exact List.map_id _
  · rintro - s hs
    obtain ⟨t, ht, rfl⟩ := List.mem_map.mp hs
    exact ⟨rfl, rfl, rfl, fun hno => absurd hno (by simp [ShardState.start]), fun _ => rfl, h.first⟩
  · rintro - s hs -
    obtain ⟨t, ht, rfl⟩ := List.mem_map.mp hs
    rfl
  · rintro - s hs hidle
    obtain ⟨t, ht, rfl⟩ := List.mem_map.mp hs
    cases hidle

/-- The loop ends, with the invariant. -/
theorem remoteListPages_inv (h : Answering r targets start all ids) (localRows : List ListRow) :
    ∃ f, remoteListPages r targets start localRows = some f ∧
      f.Inv r targets start all ids localRows ∧ f.done = true :=
  Loop.run_total (fun f => MAX_REMOTE_LIST_CALLS - f.calls) (fun _ => step_inv h) (start_inv h localRows)
    (.inr (Nat.lt_succ_self _))

/-! ### The merge -/

theorem sorted_of_ascending (h : Ascending rowKey rows) : Sorted rows := h.imp fun hlt => hlt.le

theorem flatMap_sublist {states : List ShardState} {g g' : ShardState → List ListRow}
    (h : ∀ s ∈ states, List.Sublist (g s) (g' s)) : List.Sublist (states.flatMap g) (states.flatMap g') := by
  induction states with
  | nil => exact List.Sublist.refl _
  | cons s states ih =>
    rw [List.flatMap_cons, List.flatMap_cons]
    exact (h s List.mem_cons_self).append (ih fun s' hs' => h s' (List.mem_cons_of_mem _ hs'))

theorem length_le_of_subset {l l' : List ListRow} (h : Ascending rowKey l) (hsub : ∀ a ∈ l, a ∈ l') :
    l.length ≤ l'.length := (List.subperm_of_subset h.nodup hsub).length_le

variable {localAll : List ListRow}

theorem Fetch.Inv.given (hf : f.Inv r targets start all ids localRows) (hlive : f.exhausted = false)
    (hs : s ∈ f.states) : List.Sublist s.rows (after start (all s.target)) := by
  rw [(hf.sound hlive s hs).given]
  exact List.take_sublist _ _

/-- The pages of the shards are in order, so that they can be merged. -/
theorem Fetch.Inv.merge_eq (h : Answering r targets start all ids)
    (hf : f.Inv r targets start all ids localRows) (hlive : f.exhausted = false)
    (hlocal : Ascending rowKey localRows) (outLimit skip : ℕ) :
    mergeSortedEmailPages (localRows :: f.states.map (·.rows)) outLimit skip =
      ((sortBy rowKey (localRows ++ f.states.flatMap (·.rows))).drop skip).take outLimit := by
  rw [Unified.merge_eq, List.flatten_cons, ← List.flatMap_def]
  rintro page hpage
  rcases List.mem_cons.mp hpage with rfl | hpage
  · exact sorted_of_ascending hlocal
  · obtain ⟨s', hs', rfl⟩ := List.mem_map.mp hpage
    have hok := h.answerable s'.target (hf.targets ▸ List.mem_map_of_mem hs')
    exact sorted_of_ascending (hok.ascending.sublist (hf.given hlive hs'))

/-- What the shards have given covers the needed rows of the merge of everything. -/
theorem Fetch.Inv.cover (h : Answering r targets start all ids)
    (hf : f.Inv r targets start all ids localRows) (hdone : f.done = true) (hlive : f.exhausted = false)
    (hlocal : Ascending rowKey localAll) (hcut : localRows = localAll.take r.needed)
    (hdistinct : ((localAll ++ targets.flatMap fun t => after start (all t)).map rowKey).Nodup) :
    (sortBy rowKey (localRows ++ f.states.flatMap (·.rows))).take r.needed =
      (sortBy rowKey (localAll ++ targets.flatMap fun t => after start (all t))).take r.needed := by
  have hsound := hf.sound hlive
  have hgiven : ∀ s ∈ f.states, List.Sublist s.rows (after start (all s.target)) :=
    fun s hs => hf.given hlive hs
  have htargets : (targets.flatMap fun t => after start (all t)) =
      f.states.flatMap fun s => after start (all s.target) := by
    rw [← hf.targets, List.flatMap_map]
  have hsub : List.Sublist (localRows ++ f.states.flatMap (·.rows))
      (localAll ++ targets.flatMap fun t => after start (all t)) := by
    rw [htargets]
    exact (hcut ▸ List.take_sublist _ _).append (flatMap_sublist hgiven)
  have hpart : Ascending rowKey (sortBy rowKey (localRows ++ f.states.flatMap (·.rows))) :=
    sortBy_ascending (hdistinct.sublist (hsub.map _))
  refine hpart.take_of_cover (sortBy_ascending hdistinct)
    (fun row hrow => mem_sortBy.mpr (hsub.subset (mem_sortBy.mp hrow))) fun row hrow hmiss => ?_
  rw [mem_sortBy, htargets] at hrow
  rw [mem_sortBy, List.mem_append, not_or] at hmiss
  rcases List.mem_append.mp hrow with hrow | hrow
  · -- the primary was cut, so all the rows it gave come before the missing one
    have hlt : r.needed < localAll.length := by
      by_contra hge
      exact hmiss.1 (by rw [hcut, List.take_of_length_le (not_lt.mp hge)]; exact hrow)
    have hlen : localRows.length = r.needed := by
      rw [hcut, List.length_take]
      omega
    rw [← hlen]
    refine length_le_of_subset (hcut ▸ hlocal.sublist (List.take_sublist _ _)) fun b hb => ?_
    refine List.mem_filter.mpr ⟨mem_sortBy.mpr (List.mem_append_left _ hb), decide_eq_true ?_⟩
    rw [← List.take_append_drop r.needed localAll] at hlocal hrow
    have hdrop : row ∈ localAll.drop r.needed :=
      (List.mem_append.mp hrow).resolve_left (hcut ▸ hmiss.1)
    exact (List.pairwise_append.mp hlocal).2.2 b (hcut ▸ hb) row hdrop
  · -- the shard of the missing row was not asked again, so it reaches up to the boundary
    obtain ⟨s, hs, hrow⟩ := List.mem_flatMap.mp hrow
    have hmissing : row ∉ s.rows := fun hin => hmiss.2 (List.mem_flatMap.mpr ⟨s, hs, hin⟩)
    have hmore : s.more = true := by
      by_contra hno
      exact hmissing ((hsound s hs).ended (by simpa using hno) ▸ hrow)
    have hidle : s.pending = false := by simpa using List.all_eq_true.mp hdone s hs
    obtain ⟨bound, last, hbound, hlast, hbeyond⟩ := hf.settled hlive s hs hidle hmore
    have hmerged := hf.merge_eq h hlive (hcut ▸ hlocal.sublist (List.take_sublist _ _)) r.needed 0
    rw [List.drop_zero] at hmerged
    rw [boundary, hmerged] at hbound
    split at hbound
    · rename_i hlen
      rw [← hlen]
      refine length_le_of_subset (hpart.sublist (List.take_sublist _ _)) fun b hb => ?_
      refine List.mem_filter.mpr ⟨List.mem_of_mem_take hb, decide_eq_true ?_⟩
      have hb : rowKey b ≤ rowKey bound := (hpart.sublist (List.take_sublist _ _)).le_getLast hb hbound
      rw [compareEmailOrder_lt, not_lt] at hbeyond
      refine (hb.trans hbeyond).trans_lt ?_
      have hok := h.answerable s.target (hf.targets ▸ List.mem_map_of_mem hs)
      have hasc := hok.ascending
      rw [← List.take_append_drop s.rows.length (after start (all s.target))] at hasc hrow
      rw [← (hsound s hs).given] at hasc hrow
      exact (List.pairwise_append.mp hasc).2.2 last (List.mem_of_getLast? hlast) row
        ((List.mem_append.mp hrow).resolve_left hmissing)
    · cases hbound

end OneMail.Unified
