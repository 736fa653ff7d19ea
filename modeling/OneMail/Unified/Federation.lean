import OneMail.Unified.Remote

/-! The federated list (`federatedListEmails` in `federation.ts`).

    The gateway lists its own database without the mail that shards own, asks the shards, and merges.
    When a shard failed, the answer says so, and gives neither a count nor a cursor. -/

namespace OneMail.Unified
open JsString Ordered

structure FederatedListInput where
  rest : Query
  limit : ℤ
  offset : Option ℤ
  cursor : Option EmailCursor
  withCount : Bool

/-- The body of a list response; of the fields that are absent in offset mode the outer `none`. -/
structure ListAnswer where
  results : List ListRow
  count : Option ℤ
  incomplete : Bool
  unavailableMailboxIds : List JsString
  nextCursor : Option (Option EmailCursor)
  hasMore : Option Bool
  degraded : List JsString

inductive Failure where
  | badRequest (error : String)
  | threw
  deriving DecidableEq

/-- The gateway: its shard map, its database, the network, and the caller it serves. -/
structure Gateway where
  db : Database
  map : ShardMap
  primary : List EmailRow
  ask : Ask
  caller : Caller

def MAX_UNIFIED_OFFSET : ℤ := 500

/-- What is merged: the page of the primary, and the pages of the shards. -/
structure Gathered where
  localPage : ListResult
  fetch : Fetch

def FederatedListInput.fetchLimit (input : FederatedListInput) : ℕ :=
  match input.offset with
  | some offset => offset.toNat + input.limit.toNat
  | none => input.limit.toNat + 1

def Gateway.localList (g : Gateway) (filter : List Clause) (input : FederatedListInput) :
    Except ListError ListResult :=
  match input.offset with
  | some _ =>
    executeUnboundedOffsetList g.db g.primary (filter ++ excludeRemoteSql g.map) input.fetchLimit 0
      input.withCount
  | none =>
    executeCursorList g.db g.primary (filter ++ excludeRemoteSql g.map) input.fetchLimit input.cursor
      input.withCount

/-- The targets of a query; none where the remote side is skipped. -/
def Gateway.targets (g : Gateway) (rest : Query) : Option (List Target) :=
  if skipRemoteForFilter rest then some [] else (listOwnedAccountIds g.caller).map (scopedTargets g.map rest)

/-- Everything that is asked for before the merge. -/
def Gateway.gather (g : Gateway) (input : FederatedListInput) : Except Failure Gathered :=
  if input.limit < 1 ∨ 100 < input.limit then .error (.badRequest "invalid limit")
  else if input.offset.any (· < 0) then .error (.badRequest "invalid offset")
  else if input.offset.any (MAX_UNIFIED_OFFSET < ·) then
    .error (.badRequest "offset exceeds 500; use cursor pagination")
  else match scopedRest g.caller input.rest with
    | none => .error .threw
    | some rest =>
      match resolveScopedEmailFilter g.caller rest with
      | none => .error .threw
      | some filter =>
        match g.localList filter input with
        | .error .invalidCursor => .error (.badRequest "invalid cursor")
        | .error _ => .error .threw
        | .ok localPage =>
          match (g.targets rest).bind fun targets =>
            remoteListPages ⟨g.ask, rest, input.withCount, input.fetchLimit⟩ targets
              (if input.offset.isNone then input.cursor else none) localPage.results with
          | none => .error .threw
          | some fetch => .ok ⟨localPage, fetch⟩

/-- The sum of the counts that are known. -/
def mergeCounts (counts : List (Option ℤ)) : Option ℤ :=
  let known := (counts.filterMap id).filter (0 ≤ ·)
  if known = [] then none else some known.sum

def Gathered.degraded (g : Gathered) : List JsString := (g.fetch.states.filter (·.failed)).map (·.target.shard)

def Gathered.unavailable (g : Gathered) : List JsString :=
  (g.fetch.states.filter (·.failed)).flatMap (·.target.accountIds)

def Gathered.merged (g : Gathered) (input : FederatedListInput) : List ListRow :=
  mergeSortedEmailPages (g.localPage.results :: g.fetch.states.map (·.rows))
    (if input.offset.isSome then input.limit.toNat else input.limit.toNat + 1) (input.offset.getD 0).toNat

def Gathered.hasMore (g : Gathered) (input : FederatedListInput) : Bool :=
  if input.offset.isSome then input.limit.toNat ≤ (g.merged input).length
  else input.limit.toNat < (g.merged input).length

/-- The cursor of the last row of the page; the outer `none` where it cannot be encoded. -/
def Gathered.nextCursor (g : Gathered) (input : FederatedListInput) : Option (Option EmailCursor) :=
  if input.offset.isNone ∧ g.hasMore input = true then
    match ((g.merged input).take input.limit.toNat).getLast? with
    | none => some none
    | some last => (encodeEmailCursor last.receivedAt last.id).map some
  else some none

def Gathered.pageCount (g : Gathered) (input : FederatedListInput) : Option ℤ :=
  if !input.withCount || input.cursor.isSome || input.offset.any (0 < ·) then none
  else some ((mergeCounts (g.localPage.count.map Int.ofNat :: g.fetch.states.map (·.count))).getD 0)

def Gathered.answer (g : Gathered) (input : FederatedListInput) : Except Failure ListAnswer :=
  match g.nextCursor input with
  | none => .error .threw
  | some nextCursor =>
    let incomplete := g.degraded ≠ []
    .ok
      { results := (g.merged input).take input.limit.toNat
        count := if incomplete then none else g.pageCount input
        incomplete := incomplete
        unavailableMailboxIds := g.unavailable
        nextCursor := if input.offset.isSome then none else some (if incomplete then none else nextCursor)
        hasMore := if input.offset.isSome then none else some (if incomplete then true else g.hasMore input)
        degraded := g.degraded }

def Gateway.federatedListEmails (g : Gateway) (input : FederatedListInput) : Except Failure ListAnswer :=
  (g.gather input).bind fun gathered => gathered.answer input

/-! ### A failed shard -/

/-- The answer is no valid page. -/
def Asked.failed (a : Asked) : Bool := (a.answer.bind fun data => validRemotePage data a.body.limit).isNone

variable {r : RemoteQuery} {localRows : List ListRow} {s : ShardState} {f f' : Fetch}

theorem receive_failed {answer : Option RemoteList} {limit : ℕ}
    (h : s.failed = true ∨ (answer.bind fun data => validRemotePage data limit) = none) :
    (s.receive answer limit).failed = true := by
  unfold ShardState.receive
  rcases answer with _ | data
  · rfl
  · rcases hvalid : validRemotePage data limit with _ | rows
    · simp only [hvalid]
    · simp only [hvalid]
      rcases h with h | h
      · split
        · exact h
        · rfl
      · rw [Option.bind_some, hvalid] at h
        cases h

theorem round_failed (r : RemoteQuery) (calls : ℕ) (h : s.failed = true) : (r.round calls s).failed = true := by
  unfold RemoteQuery.round
  split
  · exact receive_failed (.inl h)
  · exact h

theorem giveUp_failed (h : s.failed = true) : s.giveUp.failed = true := by
  unfold ShardState.giveUp
  split
  · rfl
  · exact h

/-- When a call has failed, or the calls have run out, a shard has failed. -/
def Fetch.Marked (f : Fetch) : Prop :=
  (∃ a ∈ f.asked, a.failed = true) ∨ f.exhausted = true → ∃ s ∈ f.states, s.failed = true

theorem step_marked (h : f.Marked) (hdone : f.done = false) (hstep : r.step localRows f = some f') :
    f'.Marked := by
  unfold RemoteQuery.step at hstep
  split at hstep
  · -- every pending shard is given up
    cases hstep
    rintro -
    obtain ⟨s, hs⟩ := List.exists_mem_of_length_pos (not_done hdone)
    obtain ⟨hs, hpending⟩ := List.mem_filter.mp hs
    refine ⟨s.giveUp, List.mem_map_of_mem hs, ?_⟩
    rw [ShardState.giveUp, if_pos hpending]
  · split at hstep
    · cases hstep
    · cases hstep
      -- a shard that has failed stays failed
      have hkeep : (∃ s ∈ f.states, (r.round f.calls s).failed = true) → ∃ s' ∈
          (f.states.map (r.round f.calls)).map
            (·.settle (boundary localRows (f.states.map (r.round f.calls)) r.needed)), s'.failed = true := by
        rintro ⟨s, hs, hfailed⟩
        exact ⟨_, List.mem_map_of_mem (List.mem_map_of_mem hs), hfailed⟩
      rintro (⟨a, ha, hfailed⟩ | hspent)
      · rcases List.mem_append.mp ha with ha | ha
        · obtain ⟨s, hs, hsfailed⟩ := h (.inl ⟨a, ha, hfailed⟩)
          exact hkeep ⟨s, hs, round_failed r _ hsfailed⟩
        · obtain ⟨s, hs, rfl⟩ := List.mem_map.mp ha
          obtain ⟨hs, hpending⟩ := List.mem_filter.mp hs
          refine hkeep ⟨s, hs, ?_⟩
          rw [RemoteQuery.round, if_pos hpending]
          exact receive_failed (.inr (Option.isNone_iff_eq_none.mp hfailed))
      · obtain ⟨s, hs, hsfailed⟩ := h (.inr hspent)
        exact hkeep ⟨s, hs, round_failed r _ hsfailed⟩

theorem remoteListPages_marked {targets : List Target} {start : Option EmailCursor}
    (h : remoteListPages r targets start localRows = some f) : f.Marked := by
  refine Loop.run_partial (P := Fetch.Marked) (fun _ _ => step_marked) ?_ h
  rintro (⟨a, ha, -⟩ | hspent)
  · exact absurd ha List.not_mem_nil
  · exact absurd hspent (by simp)

/-- What is gathered was fetched by the loop. -/
theorem gather_fetch {g : Gateway} {input : FederatedListInput} {gathered : Gathered}
    (h : g.gather input = .ok gathered) : ∃ rest targets start, remoteListPages
      ⟨g.ask, rest, input.withCount, input.fetchLimit⟩ targets start gathered.localPage.results =
        some gathered.fetch := by
  unfold Gateway.gather at h
  split at h <;> [cases h; skip]
  split at h <;> [cases h; skip]
  split at h <;> [cases h; skip]
  split at h <;> [cases h; skip]
  rename_i rest hrest
  split at h <;> [cases h; skip]
  split at h <;> [cases h; cases h; skip]
  split at h
  · cases h
  · rename_i fetch hfetch
    cases h
    obtain ⟨targets, -, hfetch⟩ := Option.bind_eq_some_iff.mp hfetch
    exact ⟨rest, targets, _, hfetch⟩

/-- The answer after a failure is marked, and carries neither a count nor a cursor. -/
theorem answer_marked {g : Gateway} {input : FederatedListInput} {gathered : Gathered} {answer : ListAnswer}
    (hgather : g.gather input = .ok gathered) (hanswer : g.federatedListEmails input = .ok answer)
    (h : (∃ s ∈ gathered.fetch.states, s.failed = true) ∨ (∃ a ∈ gathered.fetch.asked, a.failed = true) ∨
      gathered.fetch.exhausted = true) :
    answer.incomplete = true ∧ answer.count = none ∧ answer.nextCursor.join = none := by
  have hfailed : ∃ s ∈ gathered.fetch.states, s.failed = true := by
    obtain ⟨rest, targets, start, hfetch⟩ := gather_fetch hgather
    rcases h with h | h
    · exact h
    · exact remoteListPages_marked hfetch h
  have hdegraded : gathered.degraded ≠ [] := by
    obtain ⟨s, hs, hsfailed⟩ := hfailed
    exact List.ne_nil_of_mem (List.mem_map_of_mem (List.mem_filter.mpr ⟨hs, hsfailed⟩))
  rw [Gateway.federatedListEmails, hgather] at hanswer
  simp only [Except.bind, Gathered.answer] at hanswer
  split at hanswer
  · cases hanswer
  · cases hanswer
    simp only [hdegraded, ne_eq, not_false_iff, decide_true, if_true, true_and]
    split <;> rfl

end OneMail.Unified
