import OneMail.Send.Mail

/-! The quota ledger.

    Every statement on the quota tables is a chain of five moves (`QuotaMove`): rewriting columns the
    ledger does not look at, inserting an active row, releasing one active and pending row, committing
    active rows, and deleting terminal rows. Each keeps the `Ledger`: the counter of a key is the number
    of reservations inserted with it less the number released. The saturating arithmetic of the triggers
    never bites, because a row that is being released is one that was inserted and not yet released
    (`Ledger.released_lt`). -/

namespace OneMail.Send
open Table Interleave

/-- The reservation counts under this key. -/
def Reservation.uses (key : JsString) (r : Reservation) : Bool :=
  r.dailyKey = some key || r.monthlyKey = some key

def Event.insertion : Event → Option Reservation
  | .inserted r => some r
  | _ => none

def Event.release : Event → Option Reservation
  | .released r => some r
  | _ => none

def Event.commitment : Event → Option Reservation
  | .committed r => some r
  | _ => none

def insertions (τ : List Event) : List Reservation := τ.filterMap Event.insertion
def releases (τ : List Event) : List Reservation := τ.filterMap Event.release
def commitments (τ : List Event) : List Reservation := τ.filterMap Event.commitment

theorem mem_insertions {τ : List Event} {r : Reservation} : r ∈ insertions τ ↔ .inserted r ∈ τ := by
  simp only [insertions, List.mem_filterMap]
  exact ⟨fun ⟨e, he, h⟩ => by cases e <;> simp_all [Event.insertion], fun h => ⟨_, h, rfl⟩⟩

theorem mem_commitments {τ : List Event} {r : Reservation} : r ∈ commitments τ ↔ .committed r ∈ τ := by
  simp only [commitments, List.mem_filterMap]
  exact ⟨fun ⟨e, he, h⟩ => by cases e <;> simp_all [Event.commitment], fun h => ⟨_, h, rfl⟩⟩

/-- The columns that are written by the INSERT and by no later statement. -/
structure SameSlot (r r' : Reservation) : Prop where
  id : r'.id = r.id
  dailyKey : r'.dailyKey = r.dailyKey
  monthlyKey : r'.monthlyKey = r.monthlyKey
  idempotencyKey : r'.idempotencyKey = r.idempotencyKey
  requestHash : r'.requestHash = r.requestHash

theorem SameSlot.refl (r : Reservation) : SameSlot r r := ⟨rfl, rfl, rfl, rfl, rfl⟩

theorem SameSlot.trans {r r' r'' : Reservation} (h : SameSlot r r') (h' : SameSlot r' r'') :
    SameSlot r r'' :=
  ⟨h'.id.trans h.id, h'.dailyKey.trans h.dailyKey, h'.monthlyKey.trans h.monthlyKey,
    h'.idempotencyKey.trans h.idempotencyKey, h'.requestHash.trans h.requestHash⟩

theorem SameSlot.uses {r r' : Reservation} (h : SameSlot r r') (key : JsString) :
    r'.uses key = r.uses key := by
  simp only [Reservation.uses, h.dailyKey, h.monthlyKey]

/-- The daily and the monthly key of a row differ. -/
def Apart (dailyKey monthlyKey : Option JsString) : Prop :=
  ∀ key, dailyKey = some key → monthlyKey ≠ some key

/-! ### Counters under the triggers -/

theorem count_insertOrIgnore (key key' : JsString) (counters : List Counter) :
    count key (insertOrIgnore key' counters) = count key counters := by
  unfold insertOrIgnore
  split
  · rfl
  · rename_i hnone
    by_cases hk : key' = key
    · subst hk
      have hfind : counters.find? (·.key = key') = none := by
        rw [List.find?_eq_none]
        simpa using hnone
      simp [count, List.find?_append, hfind]
    · simp [count, List.find?_append, hk]

theorem find_insertOrIgnore (key : JsString) (counters : List Counter) :
    ((insertOrIgnore key counters).find? (·.key = key)).isSome = true := by
  unfold insertOrIgnore
  split
  · rename_i hany
    simpa using hany
  · simp [List.find?_append]

theorem count_increment (key key' : JsString) (counters : List Counter) :
    count key (increment key' counters) =
      if key' = key then max 0 (count key counters) + 1 else count key counters := by
  rw [← count_insertOrIgnore key key' counters]
  unfold increment count
  rw [find?_updateWhere (by exact fun _ => rfl)]
  split
  · rename_i hk
    subst hk
    obtain ⟨c, hc⟩ := Option.isSome_iff_exists.mp (find_insertOrIgnore key' counters)
    have hkey : c.key = key' := by simpa using List.find?_some hc
    simp [hc, hkey]
  · rename_i hk
    cases hc : (insertOrIgnore key' counters).find? (·.key = key) with
    | none => rfl
    | some c =>
      have hkey : c.key = key := by simpa using List.find?_some hc
      have hne : ¬ c.key = key' := fun h => hk (h.symm.trans hkey)
      simp [hne]

theorem count_decrement (key key' : JsString) (counters : List Counter) :
    count key (decrement key' counters) =
      if key' = key ∧ 0 < count key counters then count key counters - 1 else count key counters := by
  unfold decrement count
  rw [find?_updateWhere (by exact fun _ => rfl)]
  cases hc : counters.find? (·.key = key) with
  | none => simp
  | some c =>
    have hkey : c.key = key := by simpa using List.find?_some hc
    by_cases hk : key' = key
    · subst hk
      by_cases hv : 0 < c.value
      · simp [hkey, hv, max_eq_right hv.le]
      · simp [hkey, hv]
    · have hne : ¬ c.key = key' := fun h => hk (h.symm.trans hkey)
      simp [hne, hk]

/-- A trigger acts once on each of the row's keys. -/
theorem count_onKeys {f : JsString → List Counter → List Counter} {g : ℤ → ℤ} (key : JsString)
    (hf : ∀ key' counters, count key (f key' counters) =
      if key' = key then g (count key counters) else count key counters)
    {r : Reservation} (ha : Apart r.dailyKey r.monthlyKey) (counters : List Counter) :
    count key (onKeys f r counters) =
      if r.uses key then g (count key counters) else count key counters := by
  unfold onKeys Reservation.uses
  cases hd : r.dailyKey with
  | none =>
    cases hm : r.monthlyKey with
    | none => simp
    | some m => simp [hf]
  | some d =>
    cases hm : r.monthlyKey with
    | none => simp [hf]
    | some m =>
      have hne : m ≠ d := fun h => ha d hd (by rw [hm, h])
      simp only [hf]
      by_cases hdk : d = key
      · have hmk : ¬ m = key := fun h => hne (h.trans hdk.symm)
        simp [hdk, hmk]
      · simp [hdk]

theorem count_incremented (key : JsString) {r : Reservation} (ha : Apart r.dailyKey r.monthlyKey)
    (counters : List Counter) : count key (onKeys increment r counters) =
      if r.uses key then max 0 (count key counters) + 1 else count key counters :=
  count_onKeys (g := fun n => max 0 n + 1) key (fun _ counters => count_increment key _ counters) ha
    counters

theorem count_decremented (key : JsString) {r : Reservation} (ha : Apart r.dailyKey r.monthlyKey)
    (counters : List Counter) : count key (onKeys decrement r counters) =
      if r.uses key then (if 0 < count key counters then count key counters - 1 else count key counters)
      else count key counters := by
  refine count_onKeys (g := fun n => if 0 < n then n - 1 else n) key (fun key' counters => ?_) ha counters
  rw [count_decrement]
  split_ifs <;> simp_all

/-! ### The ledger -/

structure Ledger (q : Quotas) (τ : List Event) : Prop where
  ids : (q.reservations.map (·.id)).Nodup
  rows : ∀ r ∈ q.reservations, ∃ r₀, .inserted r₀ ∈ τ ∧ SameSlot r₀ r
  inserted : ((insertions τ).map (·.id)).Nodup
  apart : ∀ r, .inserted r ∈ τ → Apart r.dailyKey r.monthlyKey
  released : ((releases τ).map (·.id)).Nodup
  origin : ∀ r ∈ releases τ, ∃ r₀, .inserted r₀ ∈ τ ∧ SameSlot r₀ r
  settled : ∀ r ∈ commitments τ, ∃ r₀, .inserted r₀ ∈ τ ∧ SameSlot r₀ r
  closed : ∀ r ∈ q.reservations, r.id ∈ (releases τ).map (·.id) ↔ r.status = .released
  kept : ∀ r ∈ q.reservations, r.id ∈ (commitments τ).map (·.id) ↔ r.status = .committed
  once : Historic (fun τ e => ∀ r, e = .released r → r.id ∉ (commitments τ).map (·.id)) τ
  counters : ∀ key, count key q.counters =
    ((insertions τ).countP (·.uses key) : ℤ) - (releases τ).countP (·.uses key)

/-- One statement on one kind of row. -/
inductive QuotaMove (q : Quotas) (τ : List Event) : Quotas → List Event → Prop
  | touch {u : List Reservation}
      (hu : List.Forall₂ (fun r r' => SameSlot r r' ∧ r'.status = r.status) q.reservations u) :
      QuotaMove q τ ⟨u, q.counters⟩ []
  | insert (r : Reservation) (hs : r.status = .active) (hid : r.id ∉ (insertions τ).map (·.id))
      (ha : Apart r.dailyKey r.monthlyKey) : QuotaMove q τ (insertReservation r q) [.inserted r]
  | release (now : ℕ) (r : Reservation) (hr : r ∈ q.reservations) (hrel : releasable r = true) :
      QuotaMove q τ (releaseRow now r.id q) [.released r]
  | commit (p : Reservation → Bool) (f : Reservation → Reservation)
      (hp : ∀ r, p r = true → r.status = .active)
      (hf : ∀ r, SameSlot r (f r) ∧ (f r).status = .committed) :
      QuotaMove q τ ⟨updateWhere p f q.reservations, q.counters⟩
        ((q.reservations.filter p).map .committed)
  | delete (p : Reservation → Bool) (hp : ∀ r ∈ q.reservations, p r = true → r.status ≠ .active) :
      QuotaMove q τ ⟨deleteWhere p q.reservations, q.counters⟩ []
  /-- An event the ledger does not count. -/
  | note (e : Event) (hi : e.insertion = none) (hr : e.release = none) (hc : e.commitment = none) :
      QuotaMove q τ q [e]

variable {q q' : Quotas} {τ ev : List Event}

/-- The ids of the rows that count under a key. -/
def idsUnder (key : JsString) (rows : List Reservation) : List ℕ := (rows.filter (·.uses key)).map (·.id)

theorem length_idsUnder (key : JsString) (rows : List Reservation) :
    (idsUnder key rows).length = rows.countP (·.uses key) := by
  rw [idsUnder, List.length_map, List.countP_eq_length_filter]

theorem mem_idsUnder_of_slot {key : JsString} {r : Reservation} (hk : r.uses key = true)
    (hr : ∃ r₀, .inserted r₀ ∈ τ ∧ SameSlot r₀ r) : r.id ∈ idsUnder key (insertions τ) := by
  obtain ⟨r₀, hr₀, hs⟩ := hr
  refine List.mem_map.mpr ⟨r₀, List.mem_filter.mpr ⟨mem_insertions.mpr hr₀, ?_⟩, hs.id.symm⟩
  rw [← hs.uses key]
  exact hk

theorem Ledger.released_sub (h : Ledger q τ) (key : JsString) :
    idsUnder key (releases τ) ⊆ idsUnder key (insertions τ) := by
  intro id hid
  obtain ⟨x, hx, rfl⟩ := List.mem_map.mp hid
  obtain ⟨hx, hxk⟩ := List.mem_filter.mp hx
  exact mem_idsUnder_of_slot hxk (h.origin x hx)

theorem Ledger.released_nodup (h : Ledger q τ) (key : JsString) :
    (idsUnder key (releases τ)).Nodup := h.released.sublist (List.filter_sublist.map _)

/-- A reservation that has not been released is one more inserted than released. -/
theorem Ledger.released_lt (h : Ledger q τ) {r : Reservation} {key : JsString} (hr : r ∈ q.reservations)
    (ha : r.status = .active) (hk : r.uses key = true) :
    (releases τ).countP (·.uses key) < (insertions τ).countP (·.uses key) := by
  have hnodup : (r.id :: idsUnder key (releases τ)).Nodup := by
    refine List.nodup_cons.mpr ⟨fun hmem => ?_, h.released_nodup key⟩
    have hrel : r.id ∈ (releases τ).map (·.id) := (List.filter_sublist.map _).subset hmem
    rw [(h.closed r hr).mp hrel] at ha
    cases ha
  have hsub : r.id :: idsUnder key (releases τ) ⊆ idsUnder key (insertions τ) :=
    List.cons_subset.mpr ⟨mem_idsUnder_of_slot hk (h.rows r hr), h.released_sub key⟩
  have hle := (List.subperm_of_subset hnodup hsub).length_le
  rw [List.length_cons, length_idsUnder, length_idsUnder] at hle
  exact hle

theorem Ledger.nonneg (h : Ledger q τ) (key : JsString) : 0 ≤ count key q.counters := by
  have hle := (List.subperm_of_subset (h.released_nodup key) (h.released_sub key)).length_le
  rw [length_idsUnder, length_idsUnder] at hle
  rw [h.counters key]
  omega

/-! ### Each move keeps the ledger -/

theorem insertions_cons_none {e : Event} (h : e.insertion = none) : insertions (e :: τ) = insertions τ :=
  List.filterMap_cons_none h

theorem releases_cons_none {e : Event} (h : e.release = none) : releases (e :: τ) = releases τ :=
  List.filterMap_cons_none h

theorem commitments_cons_none {e : Event} (h : e.commitment = none) :
    commitments (e :: τ) = commitments τ := List.filterMap_cons_none h

theorem slot_later {r : Reservation} (e : Event) (h : ∃ r₀, .inserted r₀ ∈ τ ∧ SameSlot r₀ r) :
    ∃ r₀, .inserted r₀ ∈ e :: τ ∧ SameSlot r₀ r :=
  h.imp fun _ h => ⟨List.mem_cons_of_mem _ h.1, h.2⟩

theorem Ledger.touch {u : List Reservation} (h : Ledger q τ)
    (hu : List.Forall₂ (fun r r' => SameSlot r r' ∧ r'.status = r.status) q.reservations u) :
    Ledger ⟨u, q.counters⟩ τ := by
  refine { h with ids := ?_, rows := ?_, closed := ?_, kept := ?_ }
  · rw [show u.map (·.id) = q.reservations.map (·.id) from
      Forall₂.map_eq (·.id) (fun _ _ hr => hr.1.id) hu]
    exact h.ids
  · intro r' hr'
    obtain ⟨r, hr, hs, -⟩ := Forall₂.prev hu hr'
    obtain ⟨r₀, hr₀, hs₀⟩ := h.rows r hr
    exact ⟨r₀, hr₀, hs₀.trans hs⟩
  · intro r' hr'
    obtain ⟨r, hr, hs, hst⟩ := Forall₂.prev hu hr'
    rw [hst, hs.id]
    exact h.closed r hr
  · intro r' hr'
    obtain ⟨r, hr, hs, hst⟩ := Forall₂.prev hu hr'
    rw [hst, hs.id]
    exact h.kept r hr

theorem Ledger.note {e : Event} (h : Ledger q τ) (hi : e.insertion = none) (hr : e.release = none)
    (hc : e.commitment = none) : Ledger q (e :: τ) where
  ids := h.ids
  rows r hr := slot_later e (h.rows r hr)
  inserted := by rw [insertions_cons_none hi]; exact h.inserted
  apart r hr' := by
    rcases List.mem_cons.mp hr' with rfl | hr'
    · cases hi
    · exact h.apart r hr'
  released := by rw [releases_cons_none hr]; exact h.released
  origin r hr' := by rw [releases_cons_none hr] at hr'; exact slot_later e (h.origin r hr')
  settled r hr' := by rw [commitments_cons_none hc] at hr'; exact slot_later e (h.settled r hr')
  closed := by rw [releases_cons_none hr]; exact h.closed
  kept := by rw [commitments_cons_none hc]; exact h.kept
  once := by
    refine ⟨?_, h.once⟩
    rintro r rfl
    cases hr
  counters key := by rw [insertions_cons_none hi, releases_cons_none hr]; exact h.counters key

theorem Ledger.insert {r : Reservation} (h : Ledger q τ) (hs : r.status = .active)
    (hid : r.id ∉ (insertions τ).map (·.id)) (ha : Apart r.dailyKey r.monthlyKey) :
    Ledger (insertReservation r q) (.inserted r :: τ) := by
  have old : ∀ {x : Reservation}, (∃ r₀, .inserted r₀ ∈ τ ∧ SameSlot r₀ x) → x.id ≠ r.id := by
    rintro x ⟨r₀, hr₀, hs₀⟩ heq
    exact hid (List.mem_map.mpr ⟨r₀, mem_insertions.mpr hr₀, hs₀.id.symm.trans heq⟩)
  have hins : insertions (.inserted r :: τ) = r :: insertions τ := rfl
  have new : ∀ {rows : List Reservation}, (∀ x ∈ rows, ∃ r₀, .inserted r₀ ∈ τ ∧ SameSlot r₀ x) →
      r.id ∉ rows.map (·.id) := by
    intro rows hrows hmem
    obtain ⟨x, hx, hxid⟩ := List.mem_map.mp hmem
    exact old (hrows x hx) hxid
  constructor
  · exact nodup_append_key h.ids fun x hx => old (h.rows x hx)
  · intro x hx
    rcases List.mem_append.mp hx with hx | hx
    · exact slot_later _ (h.rows x hx)
    · obtain rfl := List.mem_singleton.mp hx
      exact ⟨x, List.mem_cons_self, .refl x⟩
  · rw [hins, List.map_cons]
    exact List.nodup_cons.mpr ⟨hid, h.inserted⟩
  · intro x hx
    rcases List.mem_cons.mp hx with heq | hx
    · cases heq
      exact ha
    · exact h.apart x hx
  · exact h.released
  · exact fun x hx => slot_later _ (h.origin x hx)
  · exact fun x hx => slot_later _ (h.settled x hx)
  · intro x hx
    rcases List.mem_append.mp hx with hx | hx
    · exact h.closed x hx
    · obtain rfl := List.mem_singleton.mp hx
      exact iff_of_false (new h.origin) (by rw [hs]; decide)
  · intro x hx
    rcases List.mem_append.mp hx with hx | hx
    · exact h.kept x hx
    · obtain rfl := List.mem_singleton.mp hx
      exact iff_of_false (new h.settled) (by rw [hs]; decide)
  · exact ⟨fun _ h => (by cases h), h.once⟩
  · intro key
    have hnn := h.nonneg key
    have hc := h.counters key
    rw [insertReservation, incrementTrigger, if_pos hs, count_incremented key ha, hins,
      List.countP_cons, show releases (.inserted r :: τ) = releases τ from rfl]
    split <;> omega

/-- The release statement on the one row it finds. -/
theorem releaseRow_eq (h : (q.reservations.map (·.id)).Nodup) {r : Reservation} (now : ℕ)
    (hr : r ∈ q.reservations) (hrel : releasable r = true) : releaseRow now r.id q =
      ⟨updateWhere (·.id = r.id) (fun r => { r with status := .released, updatedAt := now })
        q.reservations, onKeys decrement r q.counters⟩ := by
  have hone : q.reservations.filter (·.id = r.id) = [r] :=
    filter_eq_singleton h hr (by simp) fun r' _ hr' => by simpa using hr'
  simp only [releasable, Bool.and_eq_true, decide_eq_true_eq] at hrel
  simp [releaseRow, hone, releaseTrigger, hrel.1, hrel.2]

theorem Ledger.release {r : Reservation} (h : Ledger q τ) (now : ℕ) (hr : r ∈ q.reservations)
    (hrel : releasable r = true) : Ledger (releaseRow now r.id q) (.released r :: τ) := by
  have ha : r.status = .active := by
    simp only [releasable, Bool.and_eq_true, decide_eq_true_eq] at hrel
    exact hrel.1
  have hrels : releases (.released r :: τ) = r :: releases τ := rfl
  have fresh : r.id ∉ (releases τ).map (·.id) := fun hmem => by
    rw [(h.closed r hr).mp hmem] at ha
    cases ha
  have uncommitted : r.id ∉ (commitments τ).map (·.id) := fun hmem => by
    rw [(h.kept r hr).mp hmem] at ha
    cases ha
  rw [releaseRow_eq h.ids now hr hrel]
  constructor
  · rw [map_updateWhere Reservation.id (by exact fun _ => rfl)]
    exact h.ids
  · intro x' hx'
    obtain ⟨x, hx, rfl⟩ := mem_updateWhere.mp hx'
    obtain ⟨r₀, hr₀, hs₀⟩ := slot_later (.released r) (h.rows x hx)
    refine ⟨r₀, hr₀, hs₀.trans ?_⟩
    split <;> exact ⟨rfl, rfl, rfl, rfl, rfl⟩
  · exact h.inserted
  · intro x hx
    rcases List.mem_cons.mp hx with heq | hx
    · cases heq
    · exact h.apart x hx
  · rw [hrels, List.map_cons]
    exact List.nodup_cons.mpr ⟨fresh, h.released⟩
  · intro x hx
    rcases List.mem_cons.mp hx with rfl | hx
    · exact slot_later _ (h.rows x hr)
    · exact slot_later _ (h.origin x hx)
  · exact fun x hx => slot_later _ (h.settled x hx)
  · intro x' hx'
    obtain ⟨x, hx, rfl⟩ := mem_updateWhere.mp hx'
    rw [hrels, List.map_cons, List.mem_cons]
    by_cases heq : x.id = r.id
    · simp [heq]
    · simpa [heq] using h.closed x hx
  · intro x' hx'
    obtain ⟨x, hx, rfl⟩ := mem_updateWhere.mp hx'
    rw [show commitments (.released r :: τ) = commitments τ from rfl]
    by_cases heq : x.id = r.id
    · simpa [heq] using uncommitted
    · simpa [heq] using h.kept x hx
  · refine ⟨?_, h.once⟩
    rintro _ ⟨⟩
    exact uncommitted
  · intro key
    have hapart : Apart r.dailyKey r.monthlyKey := by
      obtain ⟨r₀, hr₀, hs₀⟩ := h.rows r hr
      rw [hs₀.dailyKey, hs₀.monthlyKey]
      exact h.apart r₀ hr₀
    have hc := h.counters key
    rw [count_decremented key hapart, hrels, List.countP_cons,
      show insertions (.released r :: τ) = insertions τ from rfl]
    by_cases hk : r.uses key = true
    · -- the row being released is inserted and not yet released, so the counter is positive
      have hlt := h.released_lt hr ha hk
      have hpos : 0 < count key q.counters := by omega
      simp only [hk, if_true, if_pos hpos]
      omega
    · simp only [hk, Bool.false_eq_true, if_false]
      omega

theorem filterMap_map_none {α β γ : Type} {f : β → Option γ} {g : α → β} (h : ∀ a, f (g a) = none)
    (l : List α) : (l.map g).filterMap f = [] := by
  simp [List.filterMap_map, h]

theorem Ledger.commit (h : Ledger q τ) (p : Reservation → Bool) (f : Reservation → Reservation)
    (hp : ∀ r, p r = true → r.status = .active) (hf : ∀ r, SameSlot r (f r) ∧ (f r).status = .committed) :
    Ledger ⟨updateWhere p f q.reservations, q.counters⟩
      ((q.reservations.filter p).map .committed ++ τ) := by
  have hins : insertions ((q.reservations.filter p).map .committed ++ τ) = insertions τ := by
    simp [insertions, filterMap_map_none (f := Event.insertion) (g := Event.committed) fun _ => rfl]
  have hrels : releases ((q.reservations.filter p).map .committed ++ τ) = releases τ := by
    simp [releases, filterMap_map_none (f := Event.release) (g := Event.committed) fun _ => rfl]
  have hcom : commitments ((q.reservations.filter p).map .committed ++ τ) =
      q.reservations.filter p ++ commitments τ := by
    simp [commitments, List.filterMap_map, Function.comp_def, Event.commitment]
  have later : ∀ {x : Reservation}, (∃ r₀, .inserted r₀ ∈ τ ∧ SameSlot r₀ x) →
      ∃ r₀, .inserted r₀ ∈ (q.reservations.filter p).map .committed ++ τ ∧ SameSlot r₀ x :=
    fun hx => hx.imp fun _ h => ⟨List.mem_append_right _ h.1, h.2⟩
  have slot : ∀ x, SameSlot x (if p x then f x else x) := by
    intro x
    split
    · exact (hf x).1
    · exact .refl x
  constructor
  · have hids : (updateWhere p f q.reservations).map (·.id) = q.reservations.map (·.id) :=
      map_updateWhere _ fun x => (hf x).1.id
    rw [hids]
    exact h.ids
  · intro x' hx'
    obtain ⟨x, hx, rfl⟩ := mem_updateWhere.mp hx'
    obtain ⟨r₀, hr₀, hs₀⟩ := later (h.rows x hx)
    exact ⟨r₀, hr₀, hs₀.trans (slot x)⟩
  · rw [hins]
    exact h.inserted
  · intro x hx
    rw [← mem_insertions, hins, mem_insertions] at hx
    exact h.apart x hx
  · rw [hrels]
    exact h.released
  · intro x hx
    rw [hrels] at hx
    exact later (h.origin x hx)
  · intro x hx
    rw [hcom] at hx
    rcases List.mem_append.mp hx with hx | hx
    · exact later (h.rows x (List.mem_filter.mp hx).1)
    · exact later (h.settled x hx)
  · intro x' hx'
    obtain ⟨x, hx, rfl⟩ := mem_updateWhere.mp hx'
    rw [hrels, (slot x).id, h.closed x hx]
    split
    · rename_i hpx
      rw [hp x hpx, (hf x).2]
      decide
    · rfl
  · intro x' hx'
    obtain ⟨x, hx, rfl⟩ := mem_updateWhere.mp hx'
    rw [hcom, List.map_append, List.mem_append, (slot x).id, h.kept x hx]
    split
    · rename_i hpx
      exact iff_of_true (.inl (List.mem_map.mpr ⟨x, List.mem_filter.mpr ⟨hx, hpx⟩, rfl⟩)) (hf x).2
    · rename_i hpx
      refine or_iff_right fun hmem => ?_
      obtain ⟨y, hy, hid⟩ := List.mem_map.mp hmem
      obtain ⟨hy, hpy⟩ := List.mem_filter.mp hy
      obtain rfl : y = x := eq_of_key h.ids hy hx hid
      exact absurd hpy hpx
  · refine Historic.append (fun later e earlier hev => ?_) h.once
    rintro r rfl
    have hmem : Event.released r ∈ (q.reservations.filter p).map .committed := by rw [hev]; simp
    simp at hmem
  · intro key
    rw [hins, hrels]
    exact h.counters key

theorem Ledger.delete (h : Ledger q τ) (p : Reservation → Bool) :
    Ledger ⟨deleteWhere p q.reservations, q.counters⟩ τ := by
  refine { h with ids := ?_, rows := ?_, closed := ?_, kept := ?_ }
  · exact h.ids.sublist (List.filter_sublist.map _)
  · exact fun r hr => h.rows r (mem_deleteWhere.mp hr).1
  · exact fun r hr => h.closed r (mem_deleteWhere.mp hr).1
  · exact fun r hr => h.kept r (mem_deleteWhere.mp hr).1

theorem Ledger.move (h : Ledger q τ) (hm : QuotaMove q τ q' ev) : Ledger q' (ev ++ τ) := by
  cases hm with
  | touch hu => exact h.touch hu
  | insert r hs hid ha => exact h.insert hs hid ha
  | release now r hr hrel => exact h.release now hr hrel
  | commit p f hp hf => exact h.commit p f hp hf
  | delete p hp => exact h.delete p
  | note e hi hr hc => exact h.note hi hr hc

/-- The statements of one batch, or the rows of one statement, one after the other. -/
inductive QuotaMoves (q : Quotas) (τ : List Event) : Quotas → List Event → Prop
  | refl : QuotaMoves q τ q []
  | tail {q' q'' : Quotas} {ev ev' : List Event} (h : QuotaMoves q τ q' ev)
      (hm : QuotaMove q' (ev ++ τ) q'' ev') : QuotaMoves q τ q'' (ev' ++ ev)

theorem QuotaMoves.single (h : QuotaMove q τ q' ev) : QuotaMoves q τ q' ev := by
  have := QuotaMoves.tail .refl h
  rwa [List.append_nil] at this

theorem QuotaMoves.trans {q'' : Quotas} {ev' : List Event} (h : QuotaMoves q τ q' ev)
    (h' : QuotaMoves q' (ev ++ τ) q'' ev') : QuotaMoves q τ q'' (ev' ++ ev) := by
  induction h' with
  | refl => exact h
  | tail _ hm ih =>
    rw [List.append_assoc]
    exact .tail ih (by rw [List.append_assoc]; exact hm)

theorem Ledger.moves (h : Ledger q τ) (hm : QuotaMoves q τ q' ev) : Ledger q' (ev ++ τ) := by
  induction hm with
  | refl => exact h
  | tail _ hm ih =>
    rw [List.append_assoc]
    exact ih.move hm

/-- A releasing statement: its rows are active and pending, and releasing one leaves the others. -/
theorem moves_releaseRows (now : ℕ) : ∀ (rows : List Reservation) {q : Quotas} {τ : List Event},
    (q.reservations.map (·.id)).Nodup → (rows.map (·.id)).Nodup →
      (∀ r ∈ rows, r ∈ q.reservations ∧ releasable r = true) →
      QuotaMoves q τ (releaseRows now (rows.map (·.id)) q) (releasedEvents rows)
  | [], _, _, _, _, _ => .refl
  | r :: rows, q, τ, hids, hnd, hrows => by
    obtain ⟨hr, hrel⟩ := hrows r List.mem_cons_self
    obtain ⟨hfresh, hnd⟩ := List.nodup_cons.mp hnd
    have hids' : ((releaseRow now r.id q).reservations.map (·.id)).Nodup := by
      rw [releaseRow, map_updateWhere Reservation.id (by exact fun _ => rfl)]
      exact hids
    have hrest := moves_releaseRows now rows (τ := [.released r] ++ τ) hids' hnd fun x hx => by
      refine ⟨mem_updateWhere.mpr ⟨x, (hrows x (List.mem_cons_of_mem _ hx)).1, ?_⟩,
        (hrows x (List.mem_cons_of_mem _ hx)).2⟩
      rw [if_neg]
      intro hid
      exact hfresh (List.mem_map.mpr ⟨x, hx, by simpa using hid⟩)
    have := (QuotaMoves.single (.release now r hr hrel)).trans hrest
    rw [show releasedEvents (r :: rows) = releasedEvents rows ++ [.released r] by simp [releasedEvents]]
    exact this

theorem expired_rows {reservations : List Reservation} {now batchLimit : ℕ} {r : Reservation}
    (h : r ∈ expiredReservations now batchLimit reservations) :
    r ∈ reservations ∧ releasable r = true := by
  obtain ⟨hr, hp⟩ := mem_of_mem_selectTop h
  simp only [Bool.and_eq_true] at hp
  exact ⟨hr, hp.1⟩

/-- Rewriting columns the ledger does not look at. -/
theorem touch_updateWhere {p : Reservation → Bool} {f : Reservation → Reservation}
    (hf : ∀ r, SameSlot r (f r) ∧ (f r).status = r.status) (reservations : List Reservation) :
    List.Forall₂ (fun r r' => SameSlot r r' ∧ r'.status = r.status) reservations
      (updateWhere p f reservations) :=
  forall₂_updateWhere (fun r _ _ => hf r) fun r _ => ⟨.refl r, rfl⟩

end OneMail.Send
