import Mathlib
import OneMail.Js.UtcDate
import OneMail.Lib.KeyValue
import OneMail.Lib.Table

/-! The quota coordinator: one durable object for each shard.

    It counts deltas into the state of their UTC date and marks their ids, so that a retry is a
    duplicate; `cleanup` persists the retention floor before it deletes markers below it, and `handle`
    refuses every date below the larger of the persisted floor and the clock's. The object runs one
    request at a time, and a `Fault` says where a request or the object gives up: the storage keeps what
    was written before. -/

namespace OneMail.Quota

open KeyValue (Map lookup_put lookup_eraseAll)
open Table (selectTop mem_of_mem_selectTop)

def flushIntervalMs : ℤ := 300000
def retentionDays : ℤ := 3
def cleanupBatchSize : ℕ := 128

/-- `rows_read` and `rows_written`, added and subtracted side by side. -/
abbrev QuotaDelta := ℕ × ℕ

abbrev Date := JsString

def isSafeCounter (value : ℤ) : Bool := 0 ≤ value && value ≤ 9007199254740991

def safeDelta (d : QuotaDelta) : Bool := isSafeCounter d.1 && isSafeCounter d.2

/-- The text `date:uuid`, where the uuid stands for the number of its draw. -/
structure DeltaId where
  utcDate : Date
  uuid : ℕ
  deriving DecidableEq

structure CoordinatorState where
  shardId : JsString
  utcDate : Date
  rows : QuotaDelta
  flushedAt : ℤ
  flushCount : ℕ
  lastKvSnapshotAt : ℤ

structure DeltaRequest where
  shardId : JsString
  utcDate : Date
  deltaId : DeltaId
  rows : QuotaDelta
  now : ℤ

/-- The storage of the object. -/
structure Coordinator where
  retentionFloor : Option Date
  kvLastAttemptAt : Option ℤ
  states : Map Date CoordinatorState
  deltas : Map (Date × DeltaId) Bool

def Coordinator.empty : Coordinator := ⟨none, none, ∅, ∅⟩

def emptyState (shardId : JsString) (utcDate : Date) : CoordinatorState :=
  ⟨shardId, utcDate, 0, 0, 0, 0⟩

/-- `none` is the throw. -/
def checkedState (stored : Option CoordinatorState) (shardId : JsString) (date : Date) :
    Option CoordinatorState :=
  match stored with
  | none => some (emptyState shardId date)
  | some s =>
    if s.shardId = shardId ∧ s.utcDate = date ∧ safeDelta s.rows ∧ isSafeCounter s.flushedAt ∧
      isSafeCounter s.flushCount ∧ isSafeCounter s.lastKvSnapshotAt then some s else none

/-- The first date that is still accepted; a persisted floor that is no date throws. -/
def Coordinator.floorAt (c : Coordinator) (now : ℤ) : Option Date :=
  let wallFloor := utcDateOf (now - (retentionDays - 1) * dayMs)
  match c.retentionFloor with
  | none => some wallFloor
  | some persisted =>
    if validUtcDate persisted then some (if wallFloor < persisted then persisted else wallFloor)
    else none

/-! ### Requests -/

/-- The first transaction's result. -/
structure Committed where
  state : CoordinatorState
  duplicate : Bool
  snapshotDue : Bool

/-- The first transaction: an overflow or an invalid stored value aborts it. -/
def Coordinator.commit (kv : Bool) (c : Coordinator) (body : DeltaRequest) (now : ℤ) :
    Option (Committed × Coordinator) := do
  let current ← checkedState (c.states.lookup body.utcDate) body.shardId body.utcDate
  let lastAttempt := c.kvLastAttemptAt.getD current.lastKvSnapshotAt
  guard (isSafeCounter lastAttempt)
  let snapshotDue := kv && (lastAttempt = 0 || flushIntervalMs ≤ now - lastAttempt)
  guard (!snapshotDue || isSafeCounter (current.flushCount + 1))
  if c.deltas.lookup (body.utcDate, body.deltaId) = some true then
    return (⟨current, true, snapshotDue⟩, c)
  let next := { current with rows := current.rows + body.rows }
  guard (safeDelta next.rows && isSafeCounter (next.flushCount + 1))
  return (⟨next, false, snapshotDue⟩, { c with
    deltas := c.deltas.insert (body.utcDate, body.deltaId) true
    states := c.states.insert body.utcDate next })

/-- The second transaction, after the snapshot has been published. -/
def Coordinator.published (c : Coordinator) (date : Date) (result : Committed) (now : ℤ) :
    CoordinatorState × Coordinator :=
  let current := (c.states.lookup date).getD result.state
  let updated := { current with
    flushedAt := now
    flushCount := max current.flushCount (result.state.flushCount + 1)
    lastKvSnapshotAt := max current.lastKvSnapshotAt now }
  (updated, { c with states := c.states.insert date updated })

/-- Where the processing of a request stops: a storage operation or the publication fails, or the object
    goes down after the first transaction. -/
inductive Fault where
  | none | transaction | crash | attempt | publication | secondTransaction
  deriving DecidableEq

inductive Answer where
  | ok (duplicate : Bool) (snapshot today : CoordinatorState)
  | expired
  | refused

def Coordinator.answer (c : Coordinator) (body : DeltaRequest) (now : ℤ) (duplicate : Bool)
    (state : CoordinatorState) : Answer :=
  .ok duplicate state (if utcDateOf now = body.utcDate then state
    else (c.states.lookup (utcDateOf now)).getD (emptyState body.shardId (utcDateOf now)))

/-- The checks of the body; the id is the date, a colon and the 36 code units of a uuid. -/
def DeltaRequest.wellFormed (body : DeltaRequest) : Bool :=
  validUtcDate body.utcDate && 8 ≤ body.deltaId.utcDate.length + 37 &&
    body.deltaId.utcDate.length + 37 ≤ 200 && body.shardId ≠ [] && safeDelta body.rows &&
    isSafeCounter body.now && 0 < body.now && body.now ≤ 8640000000000000

/-- A posted delta: the storage it leaves, and the answer unless the object went down. -/
def Coordinator.handle (kv : Bool) (c : Coordinator) (body : DeltaRequest) (now : ℤ) (fault : Fault) :
    Coordinator × Option Answer :=
  match c.floorAt now with
  | none => (c, some .refused)
  | some floor =>
    if !body.wellFormed then (c, some .refused)
    else if utcDateOf now < body.utcDate then (c, some .refused)
    else if body.utcDate < floor then (c, some .expired)
    else if fault = .transaction then (c, some .refused)
    else match c.commit kv body now with
      | none => (c, some .refused)
      | some (result, c) =>
        if fault = .crash then (c, none)
        else if !result.snapshotDue then (c, some (c.answer body now result.duplicate result.state))
        else if fault = .attempt then (c, some .refused)
        else
          let c := { c with kvLastAttemptAt := some now }
          if fault = .publication ∨ fault = .secondTransaction then (c, some .refused)
          else
            let (state, c) := c.published body.utcDate result now
            (c, some (c.answer body now result.duplicate state))

/-! ### Cleanup -/

def markerBefore (a b : Σ _ : Date × DeltaId, Bool) : Prop :=
  a.1.1 < b.1.1 ∨ a.1.1 = b.1.1 ∧ a.1.2.uuid ≤ b.1.2.uuid

instance : DecidableRel markerBefore := fun _ _ => inferInstanceAs (Decidable (_ ∨ _ ∧ _))

def stateBefore (a b : Σ _ : Date, CoordinatorState) : Prop := a.1 ≤ b.1

instance : DecidableRel stateBefore := fun _ _ => inferInstanceAs (Decidable (_ ≤ _))

inductive CleanupStop where
  | afterFloor | afterMarkers | finished
  deriving DecidableEq

/-- `cleanup`, up to where the object goes down: the floor is persisted before any marker goes. -/
def Coordinator.cleanup (c : Coordinator) (now : ℤ) (stop : CleanupStop) : Coordinator :=
  match c.floorAt now with
  | none => c
  | some floor =>
    let markers := selectTop (fun e => e.1.1 < floor) markerBefore cleanupBatchSize c.deltas.entries
    let states := selectTop (fun e => e.1 < floor) stateBefore cleanupBatchSize c.states.entries
    { c with
      retentionFloor := some floor
      deltas := if stop = .afterFloor then c.deltas
        else markers.foldl (fun m e => m.erase e.1) c.deltas
      states := if stop = .finished then states.foldl (fun m e => m.erase e.1) c.states else c.states }

/-! ### What a request does -/

variable {kv : Bool} {c c' : Coordinator} {body : DeltaRequest} {now : ℤ} {fault : Fault}

/-- What the coordinator has counted for a date. -/
def Coordinator.rowsOf (c : Coordinator) (date : Date) : QuotaDelta :=
  ((c.states.lookup date).map (·.rows)).getD 0

def Coordinator.Marked (c : Coordinator) (date : Date) (id : DeltaId) : Prop :=
  c.deltas.lookup (date, id) = some true

/-- Nothing is counted. -/
structure Quiet (c c' : Coordinator) : Prop where
  floor : c'.retentionFloor = c.retentionFloor
  deltas : c'.deltas = c.deltas
  rows : ∀ date, c'.rowsOf date = c.rowsOf date

/-- The delta is counted and its id is marked. -/
structure Counts (c c' : Coordinator) (body : DeltaRequest) : Prop where
  floor : c'.retentionFloor = c.retentionFloor
  deltas : c'.deltas = c.deltas.insert (body.utcDate, body.deltaId) true
  rows : ∀ date, c'.rowsOf date = c.rowsOf date + if date = body.utcDate then body.rows else 0

theorem Quiet.refl (c : Coordinator) : Quiet c c := ⟨rfl, rfl, fun _ => rfl⟩

theorem checkedState_rows {shardId : JsString} {date : Date} {s : CoordinatorState}
    (h : checkedState (c.states.lookup date) shardId date = some s) : s.rows = c.rowsOf date := by
  rw [Coordinator.rowsOf]
  rcases hs : c.states.lookup date with _ | stored
  · rw [hs] at h
    obtain rfl := Option.some.inj h
    rfl
  · rw [hs, checkedState] at h
    split at h
    · obtain rfl := Option.some.inj h
      rfl
    · cases h

theorem commit_cases {result : Committed} (h : c.commit kv body now = some (result, c')) :
    result.state.rows = c'.rowsOf body.utcDate ∧
      (c' = c ∧ c.Marked body.utcDate body.deltaId ∨
        Counts c c' body ∧ ¬ c.Marked body.utcDate body.deltaId) := by
  simp only [Coordinator.commit, Option.bind_eq_bind, Option.bind_eq_some_iff] at h
  obtain ⟨current, hcurrent, -, -, -, -, h⟩ := h
  split at h
  · rename_i hmarked
    cases h
    exact ⟨checkedState_rows hcurrent, .inl ⟨rfl, hmarked⟩⟩
  · rename_i hnew
    simp only [Option.bind_eq_some_iff] at h
    obtain ⟨-, -, h⟩ := h
    cases h
    have hrows := checkedState_rows hcurrent
    have hself : ∀ date, Coordinator.rowsOf { c with
        deltas := c.deltas.insert (body.utcDate, body.deltaId) true
        states := c.states.insert body.utcDate { current with rows := current.rows + body.rows } } date =
        c.rowsOf date + if date = body.utcDate then body.rows else 0 := by
      intro date
      simp only [Coordinator.rowsOf, lookup_put]
      by_cases hdate : date = body.utcDate
      · subst hdate
        rw [if_pos rfl, if_pos rfl, Option.map_some, Option.getD_some, hrows]
        rfl
      · rw [if_neg hdate, if_neg hdate, add_zero]
    refine ⟨?_, .inr ⟨⟨rfl, rfl, hself⟩, hnew⟩⟩
    rw [hself, if_pos rfl, ← hrows]

theorem published_quiet (now : ℤ) {result : Committed} (h : result.state.rows = c.rowsOf body.utcDate) :
    Quiet c (c.published body.utcDate result now).2 := by
  refine ⟨rfl, rfl, fun date => ?_⟩
  simp only [Coordinator.published, Coordinator.rowsOf, lookup_put]
  by_cases hdate : date = body.utcDate
  · subst hdate
    rw [if_pos rfl, Option.map_some, Option.getD_some]
    rw [Coordinator.rowsOf] at h
    cases hs : c.states.lookup body.utcDate with
    | none => rw [hs] at h; exact h
    | some stored => rfl
  · rw [if_neg hdate]

/-- What a posted delta does under a floor: nothing is counted, and it is acknowledged only if its id
    was marked and called expired only if its date is below the floor; or it is counted, for the first
    time and on or above the floor. -/
def Handled (c : Coordinator) (body : DeltaRequest) (floor : Option Date)
    (out : Coordinator × Option Answer) : Prop :=
  (Quiet c out.1 ∧
    (∀ duplicate s t, out.2 = some (.ok duplicate s t) → c.Marked body.utcDate body.deltaId) ∧
    (out.2 = some .expired → ∃ f, floor = some f ∧ body.utcDate < f)) ∨
  (Counts c out.1 body ∧ ¬ c.Marked body.utcDate body.deltaId ∧
    (∃ f, floor = some f ∧ f ≤ body.utcDate) ∧ out.2 ≠ some .expired)

theorem handled_refused (c : Coordinator) (body : DeltaRequest) (floor : Option Date) :
    Handled c body floor (c, some .refused) :=
  .inl ⟨.refl c, by simp, by simp⟩

theorem handle_cases (kv : Bool) (c : Coordinator) (body : DeltaRequest) (now : ℤ) (fault : Fault) :
    Handled c body (c.floorAt now) (c.handle kv body now fault) := by
  rw [Coordinator.handle]
  rcases hfloor : c.floorAt now with _ | floor
  · exact handled_refused ..
  simp only
  split
  · exact handled_refused ..
  split
  · exact handled_refused ..
  split
  · rename_i hexpired
    exact .inl ⟨.refl c, by simp, fun _ => ⟨floor, rfl, hexpired⟩⟩
  rename_i hlive
  split
  · exact handled_refused ..
  rcases hcommit : c.commit kv body now with _ | ⟨result, c₁⟩
  · exact handled_refused ..
  obtain ⟨hrows, hcase⟩ := commit_cases hcommit
  -- whatever happens after the first transaction counts nothing more
  have after : ∀ (c₂ : Coordinator) (a : Option Answer), Quiet c₁ c₂ → a ≠ some .expired →
      Handled c body (some floor) (c₂, a) := by
    intro c₂ a hquiet hexp
    rcases hcase with ⟨rfl, hmarked⟩ | ⟨hcounts, hnew⟩
    · exact .inl ⟨hquiet, fun _ _ _ _ => hmarked, fun h => absurd h hexp⟩
    · refine .inr ⟨⟨hquiet.floor.trans hcounts.floor, hquiet.deltas.trans hcounts.deltas, fun date => ?_⟩,
        hnew, ⟨floor, rfl, not_lt.mp hlive⟩, hexp⟩
      rw [hquiet.rows, hcounts.rows]
  simp only
  split
  · exact after _ _ (.refl c₁) (by simp)
  split
  · exact after _ _ (.refl c₁) (by simp [Coordinator.answer])
  split
  · exact after _ _ (.refl c₁) (by simp)
  split
  · exact after _ _ ⟨rfl, rfl, fun _ => rfl⟩ (by simp)
  · have hpublished := published_quiet now (hrows : result.state.rows =
      Coordinator.rowsOf { c₁ with kvLastAttemptAt := some now } body.utcDate)
    exact after _ _ ⟨hpublished.floor, hpublished.deltas, hpublished.rows⟩ (by simp [Coordinator.answer])

/-! ### What cleanup does -/

theorem floorAt_mono {floor persisted : Date} (h : c.floorAt now = some floor)
    (hp : c.retentionFloor = some persisted) : persisted ≤ floor := by
  rw [Coordinator.floorAt, hp] at h
  simp only at h
  split at h
  · obtain rfl := Option.some.inj h
    split
    · exact le_rfl
    · exact not_lt.mp ‹_›
  · cases h

/-- Cleanup raises the floor, and deletes only what lies below it. -/
theorem cleanup_cases (c : Coordinator) (now : ℤ) (stop : CleanupStop) :
    c.cleanup now stop = c ∧ c.floorAt now = none ∨
    ∃ floor, c.floorAt now = some floor ∧ (c.cleanup now stop).retentionFloor = some floor ∧
      (∀ date id, (c.cleanup now stop).Marked date id → c.Marked date id) ∧
      (∀ date id, c.Marked date id → (c.cleanup now stop).Marked date id ∨ date < floor) ∧
      ∀ date, floor ≤ date → (c.cleanup now stop).rowsOf date = c.rowsOf date := by
  rw [Coordinator.cleanup]
  rcases hfloor : c.floorAt now with _ | floor
  · exact .inl ⟨rfl, rfl⟩
  refine .inr ⟨floor, rfl, rfl, fun date id hmarked => ?_, fun date id hmarked => ?_,
    fun date hdate => ?_⟩
  · simp only [Coordinator.Marked] at hmarked ⊢
    split at hmarked
    · exact hmarked
    · rw [lookup_eraseAll] at hmarked
      split at hmarked
      · cases hmarked
      · exact hmarked
  · simp only [Coordinator.Marked] at hmarked ⊢
    split
    · exact .inl hmarked
    · rw [lookup_eraseAll]
      split
      · rename_i hgone
        obtain ⟨e, he, hkey⟩ := hgone
        have hlt := of_decide_eq_true (mem_of_mem_selectTop he).2
        rw [hkey] at hlt
        exact .inr hlt
      · exact .inl hmarked
  · simp only [Coordinator.rowsOf]
    split
    · rw [lookup_eraseAll, if_neg]
      rintro ⟨e, he, rfl⟩
      exact absurd (of_decide_eq_true (mem_of_mem_selectTop he).2) (not_lt.mpr hdate)
    · rfl

end OneMail.Quota
