import OneMail.Lib.Conservation
import OneMail.Quota.Coordinator

/-! Isolates that flush their quota deltas to the coordinator.

    An isolate adds what its statements cost to the bucket of the day (`recordD1Quota`), and a flush
    sends the oldest bucket as a frozen batch: the same id and delta until the coordinator acknowledges
    it or calls its date expired. The network is the list of requests ever sent and of answers ever
    given: a request may be processed at any later time and any number of times, its answer may be
    received or not, and an isolate may give up on it at any time. -/

namespace OneMail.Quota

open KeyValue (Map lookup_put lookup_del)
open Interleave Table

structure Bucket where
  utcDate : Date
  delta : QuotaDelta
  deriving DecidableEq

structure Batch where
  id : DeltaId
  delta : QuotaDelta

/-- The module state of one isolate: the buckets, the oldest first, and the frozen batches. -/
structure Isolate where
  pendingByDate : List Bucket
  coordinatorDeltaByDate : Map Date Batch
  flushInFlight : Option Date

def Isolate.fresh : Isolate := ⟨[], ∅, none⟩

/-- What the bucket of the date holds. -/
def heldOn (date : Date) (pending : List Bucket) : QuotaDelta :=
  ((pending.find? (·.utcDate = date)).map (·.delta)).getD 0

/-! ### Recording -/

/-- Both sums are checked before either is stored. -/
def fits (target extra : QuotaDelta) : Bool :=
  safeDelta target && safeDelta extra && safeDelta (target + extra)

def addQuotaDelta (target extra : QuotaDelta) : QuotaDelta :=
  if fits target extra then target + extra else target

def withBucket (date : Date) (pending : List Bucket) : List Bucket :=
  if pending.any (·.utcDate = date) then pending else pending ++ [⟨date, 0⟩]

/-- An overflow only marks the accounting as incomplete: the delta is not recorded. -/
def recordD1Quota (iso : Isolate) (now : ℤ) (delta : QuotaDelta) : Isolate :=
  if delta = 0 then iso
  else { iso with
    pendingByDate := updateWhere (·.utcDate = utcDateOf now)
      (fun b => { b with delta := addQuotaDelta b.delta delta })
      (withBucket (utcDateOf now) iso.pendingByDate) }

/-- What `recordD1Quota` adds to the bucket of the date. -/
def recordedBy (iso : Isolate) (now : ℤ) (delta : QuotaDelta) : QuotaDelta :=
  if fits (heldOn (utcDateOf now) iso.pendingByDate) delta then delta else 0

/-! ### Flushing -/

def request (shardId : JsString) (batch : Batch) (now : ℤ) : DeltaRequest :=
  ⟨shardId, batch.id.utcDate, batch.id, batch.delta, now⟩

/-- The batch that a flush freezes: all the bucket holds, under a fresh id. -/
def freeze (iso : Isolate) (date : Date) (uuid : ℕ) : Batch :=
  ⟨⟨date, uuid⟩, heldOn date iso.pendingByDate⟩

def dropDate (date : Date) (pending : List Bucket) : List Bucket := deleteWhere (·.utcDate = date) pending

/-- The batch was acknowledged: it leaves the bucket, and an empty bucket goes. -/
def Isolate.acknowledge (iso : Isolate) (date : Date) (batch : Batch) : Isolate :=
  let pending := updateWhere (·.utcDate = date) (fun b => { b with delta := b.delta - batch.delta })
    iso.pendingByDate
  { pendingByDate := if heldOn date pending = 0 then dropDate date pending else pending
    coordinatorDeltaByDate := iso.coordinatorDeltaByDate.erase date
    flushInFlight := none }

/-- The date is expired at the coordinator: the bucket and the batch are given up. -/
def Isolate.expire (iso : Isolate) (date : Date) : Isolate :=
  { pendingByDate := dropDate date iso.pendingByDate
    coordinatorDeltaByDate := iso.coordinatorDeltaByDate.erase date
    flushInFlight := none }

/-! ### The system -/

/-- The coordinator, the uuids drawn, and the network. -/
structure Shared where
  coordinator : Coordinator
  uuids : ℕ
  sent : List DeltaRequest
  answers : List (DeltaId × Answer)

inductive Event where
  /-- An isolate recorded the delta for the date. -/
  | recorded (date : Date) (delta : QuotaDelta)
  /-- The coordinator answered that the date of a request is expired. -/
  | expired (date : Date)
  /-- A cleanup persisted the floor. -/
  | cleaned (floor : Date)
  /-- The coordinator counted the delta under the id. -/
  | added (date : Date) (id : DeltaId) (delta : QuotaDelta)
  /-- An isolate took the acknowledged batch off its bucket. -/
  | acknowledged (id : DeltaId) (delta : QuotaDelta)
  /-- An isolate gave up an expired bucket. -/
  | dropped (date : Date) (delta : QuotaDelta)

def expiries (body : DeltaRequest) : Option Answer → List Event
  | some .expired => [.expired body.utcDate]
  | _ => []

/-- The id was marked by this step. -/
def additions (c c' : Coordinator) (body : DeltaRequest) : List Event :=
  if c.deltas.lookup (body.utcDate, body.deltaId) ≠ some true ∧
      c'.deltas.lookup (body.utcDate, body.deltaId) = some true then
    [.added body.utcDate body.deltaId body.rows] else []

inductive QuotaStep (kv : Bool) (shardId : JsString) :
    Shared → Isolate → Shared → Isolate → List Event → Prop
  | record {s iso} (now : ℤ) (delta : QuotaDelta) :
      QuotaStep kv shardId s iso s (recordD1Quota iso now delta)
        [.recorded (utcDateOf now) (recordedBy iso now delta)]
  /-- `commitCoordinatedFlush` freezes the oldest bucket and sends it. -/
  | flush {s iso bucket} (now : ℤ) : iso.flushInFlight = none → iso.pendingByDate.head? = some bucket →
      iso.coordinatorDeltaByDate.lookup bucket.utcDate = none →
      QuotaStep kv shardId s iso
        { s with
          uuids := s.uuids + 1
          sent := request shardId (freeze iso bucket.utcDate s.uuids) now :: s.sent }
        { iso with
          coordinatorDeltaByDate :=
            iso.coordinatorDeltaByDate.insert bucket.utcDate (freeze iso bucket.utcDate s.uuids)
          flushInFlight := some bucket.utcDate } []
  /-- `commitCoordinatedFlush` sends the frozen batch again. -/
  | retry {s iso bucket batch} (now : ℤ) : iso.flushInFlight = none →
      iso.pendingByDate.head? = some bucket →
      iso.coordinatorDeltaByDate.lookup bucket.utcDate = some batch →
      QuotaStep kv shardId s iso { s with sent := request shardId batch now :: s.sent }
        { iso with flushInFlight := some bucket.utcDate } []
  /-- The coordinator processes a request that was sent at some time. -/
  | handle {s iso body} (now : ℤ) (fault : Fault) : body ∈ s.sent →
      QuotaStep kv shardId s iso
        { s with
          coordinator := (s.coordinator.handle kv body now fault).1
          answers := ((s.coordinator.handle kv body now fault).2.map fun a => (body.deltaId, a)).toList ++
            s.answers } iso
        (additions s.coordinator (s.coordinator.handle kv body now fault).1 body ++
          expiries body (s.coordinator.handle kv body now fault).2)
  | cleanup {s iso} (now : ℤ) (stop : CleanupStop) :
      QuotaStep kv shardId s iso { s with coordinator := s.coordinator.cleanup now stop } iso
        ((s.coordinator.floorAt now).map Event.cleaned).toList
  | acknowledge {s iso date batch duplicate snapshot today} : iso.flushInFlight = some date →
      iso.coordinatorDeltaByDate.lookup date = some batch →
      (batch.id, .ok duplicate snapshot today) ∈ s.answers →
      QuotaStep kv shardId s iso s (iso.acknowledge date batch) [.acknowledged batch.id batch.delta]
  | expire {s iso date batch} : iso.flushInFlight = some date →
      iso.coordinatorDeltaByDate.lookup date = some batch → (batch.id, .expired) ∈ s.answers →
      QuotaStep kv shardId s iso s (iso.expire date) [.dropped date (heldOn date iso.pendingByDate)]
  /-- The request or its answer is lost, or the answer is an error: the batch is kept. -/
  | giveUp {s iso date} : iso.flushInFlight = some date →
      QuotaStep kv shardId s iso s { iso with flushInFlight := none } []

def quota (kv : Bool) (shardId : JsString) : Prog Shared Isolate Event where
  idle := .fresh
  init s := s = ⟨.empty, 0, [], []⟩
  step := QuotaStep kv shardId

/-! ### What a bucket holds after a step -/

variable {iso : Isolate} {date day : Date} {now : ℤ} {delta : QuotaDelta} {pending : List Bucket}

theorem heldOn_updateWhere {f : QuotaDelta → QuotaDelta} :
    heldOn day (updateWhere (·.utcDate = date) (fun b => { b with delta := f b.delta }) pending) =
      if day = date ∧ (pending.find? (·.utcDate = date)).isSome then f (heldOn date pending)
      else heldOn day pending := by
  have hkey : ∀ b : Bucket, decide (({ b with delta := f b.delta } : Bucket).utcDate = day) =
      decide (b.utcDate = day) := fun _ => rfl
  rw [heldOn, find?_updateWhere hkey]
  rcases hfind : pending.find? (·.utcDate = day) with _ | b
  · by_cases hday : day = date
    · subst hday
      simp [heldOn, hfind]
    · simp [heldOn, hfind, hday]
  · have hb : b.utcDate = day := by simpa using List.find?_some hfind
    by_cases hday : day = date
    · subst hday
      simp [heldOn, hfind, hb]
    · simp [heldOn, hfind, hb, hday]

theorem heldOn_withBucket : heldOn day (withBucket date pending) = heldOn day pending := by
  rw [withBucket]
  split
  · rfl
  · rw [heldOn, heldOn, List.find?_append]
    cases pending.find? (·.utcDate = day) with
    | none =>
      by_cases hday : date = day
      · simp [hday]
      · simp [hday]
    | some b => rfl

theorem find?_withBucket : ((withBucket date pending).find? (·.utcDate = date)).isSome := by
  rw [withBucket, List.find?_isSome]
  split
  · rename_i hany
    exact List.any_eq_true.mp hany
  · exact ⟨⟨date, 0⟩, List.mem_append_right _ List.mem_cons_self, by simp⟩

theorem heldOn_dropDate : heldOn day (dropDate date pending) =
    if day = date then 0 else heldOn day pending := by
  rw [dropDate, deleteWhere]
  induction pending with
  | nil => simp [heldOn]
  | cons b pending ih =>
    by_cases hb : b.utcDate = date
    · rw [List.filter_cons_of_neg (by simp [hb]), ih]
      split
      · rfl
      · rename_i hday
        rw [heldOn, heldOn, List.find?_cons_of_neg (by simpa [hb] using Ne.symm hday)]
    · rw [List.filter_cons_of_pos (by simp [hb])]
      by_cases hbday : b.utcDate = day
      · have hday : day ≠ date := fun h => hb (hbday.trans h)
        rw [if_neg hday, heldOn, heldOn, List.find?_cons_of_pos (by simpa using hbday),
          List.find?_cons_of_pos (by simpa using hbday)]
      · rw [heldOn, List.find?_cons_of_neg (by simpa using hbday), ← heldOn, ih, heldOn, heldOn,
          List.find?_cons_of_neg (by simpa using hbday)]

theorem heldOn_record : heldOn day (recordD1Quota iso now delta).pendingByDate =
    heldOn day iso.pendingByDate + if utcDateOf now = day then recordedBy iso now delta else 0 := by
  rw [recordD1Quota]
  split
  · rename_i hzero
    rw [recordedBy, hzero, ite_self, ite_self, add_zero]
  · rw [heldOn_updateWhere (f := fun d => addQuotaDelta d delta), heldOn_withBucket, heldOn_withBucket]
    by_cases hday : utcDateOf now = day
    · subst hday
      rw [if_pos ⟨rfl, find?_withBucket⟩, if_pos rfl, addQuotaDelta, recordedBy]
      split
      · rfl
      · rw [add_zero]
    · rw [if_neg fun h => hday h.1.symm, if_neg hday, add_zero]

theorem heldOn_acknowledge {batch : Batch} (h : batch.delta ≤ heldOn date iso.pendingByDate) :
    heldOn day (iso.acknowledge date batch).pendingByDate + (if date = day then batch.delta else 0) =
      heldOn day iso.pendingByDate := by
  have hsub : heldOn date (updateWhere (·.utcDate = date)
      (fun b => { b with delta := b.delta - batch.delta }) iso.pendingByDate) =
      heldOn date iso.pendingByDate - batch.delta := by
    rw [heldOn_updateWhere (f := fun d => d - batch.delta)]
    split
    · rfl
    · rename_i hnone
      have hempty : heldOn date iso.pendingByDate = 0 := by
        rw [heldOn, Option.not_isSome_iff_eq_none.mp fun hs => hnone ⟨rfl, hs⟩]
        rfl
      rw [hempty]
      exact (Prod.ext (Nat.zero_sub _) (Nat.zero_sub _)).symm
  have hother : day ≠ date → heldOn day (updateWhere (·.utcDate = date)
      (fun b => { b with delta := b.delta - batch.delta }) iso.pendingByDate) =
      heldOn day iso.pendingByDate := by
    intro hday
    rw [heldOn_updateWhere (f := fun d => d - batch.delta), if_neg fun hs => hday hs.1]
  by_cases hday : date = day
  · subst hday
    rw [if_pos rfl, Isolate.acknowledge]
    simp only
    split
    · rename_i hzero
      rw [heldOn_dropDate, if_pos rfl, zero_add]
      rw [hsub] at hzero
      exact h.antisymm (Prod.mk_le_mk.mpr ⟨Nat.sub_eq_zero_iff_le.mp (Prod.ext_iff.mp hzero).1,
        Nat.sub_eq_zero_iff_le.mp (Prod.ext_iff.mp hzero).2⟩)
    · rw [hsub]
      exact Prod.ext (Nat.sub_add_cancel h.1) (Nat.sub_add_cancel h.2)
  · rw [if_neg hday, add_zero, Isolate.acknowledge]
    simp only
    split
    · rw [heldOn_dropDate, if_neg (Ne.symm hday), hother (Ne.symm hday)]
    · exact hother (Ne.symm hday)

end OneMail.Quota
