import OneMail.Fleet.Writes

/-! The accounting of the fleet registry.

    `Balanced ix n s` says that the denormalised indexes of `s` count exactly the mailbox records that
    `ix` selects: the count `n`, the published routes, the users' affinities; and that the reservation
    totals are the sums of the held reservations. The registry keeps `Balanced indexed`, where `indexed`
    also counts a record that was imported in state `deleting`: deleted from the start, yet published and
    counted. So `Accounting`, which is `Balanced live`, holds exactly as long as no such import was
    applied. -/

namespace OneMail.Fleet

open KeyValue (Map total countWhere lookup_put lookup_del total_put_new total_put countWhere_put_new
  countWhere_put)
open Relation (ReflTransGen)

variable {δ : Type}

def live (r : MailboxRecord) : Bool := !r.deleted

/-- Deleted when it was imported: no tombstone ever takes the record out of the indexes. -/
def stray (r : MailboxRecord) : Bool := r.deleted && r.route.any (·.state = .deleting)

def indexed (r : MailboxRecord) : Bool := live r || stray r

/-- The mailboxes of the user on the shard, as far as `ix` counts them. -/
def onShard (ix : MailboxRecord → Bool) (user shard : Id) (r : MailboxRecord) : Bool :=
  ix r && r.userKey = user && r.owner = some shard

/-- A count as an affinity map holds it: no entry stands for zero. -/
def positive (n : ℕ) : Option ℕ := if n = 0 then none else some n

/-- The demand of a held reservation on the account. -/
def onAccount (account : Id) (v : Reservation) : ResourceBudget :=
  if v.held = true ∧ v.accountKey = account then v.demand else 0

/-- The bytes of a held reservation on the shard. -/
def bytesOn (shard : Id) (v : Reservation) : ℕ :=
  if v.held = true ∧ v.shardId = shard then v.demand.reservedBytes else 0

structure Balanced (ix : MailboxRecord → Bool) (mailboxCount : ℤ) (s : Storage δ) : Prop where
  count : mailboxCount = countWhere ix s.mailboxes
  routed : ∀ m, s.routes.lookup m = (s.mailboxes.lookup m).bind fun r => if ix r then r.route else none
  affinity : ∀ user shard,
    (affinities s user).lookup shard = positive (countWhere (onShard ix user shard) s.mailboxes)
  budgets : ∀ account,
    (s.allocationBudgets.lookup account).getD 0 = total (fun _ => onAccount account) s.reservations
  bytes : ∀ shard, (s.reservedBytes.lookup shard).getD 0 = total (fun _ => bytesOn shard) s.reservations

/-- What every record and reservation looks like. -/
structure Sound (s : Storage δ) : Prop where
  owned : ∀ m r, s.mailboxes.lookup m = some r → r.deleted = false → r.owner ≠ none
  settled : ∀ m r, s.mailboxes.lookup m = some r → r.deleted = false →
    ∀ route, r.route = some route → route.state ≠ .deleting
  reserved : ∀ m v, s.reservations.lookup m = some v → s.mailboxes.lookup m ≠ none

/-- The count of the header, zero before the first command. -/
def headerCount (s : Storage δ) : ℤ := (s.registryMeta.map (·.mailboxCount)).getD 0

/-- The accounting invariant: every index counts the records that are not deleted. -/
def Accounting (s : Storage δ) : Prop := Balanced live (headerCount s) s

/-! ### Affinities -/

variable {s : Storage δ} {user owner u o : Id} {n : ℕ}

theorem positive_getD (n : ℕ) : (positive n).getD 0 = n := by
  rw [positive]
  split <;> simp_all

theorem affinities_counted : (affinities (counted s user owner) u).lookup o =
    if u = user ∧ o = owner then some (((affinities s u).lookup o).getD 0 + 1)
    else (affinities s u).lookup o := by
  simp only [affinities, counted, lookup_put]
  by_cases hu : u = user
  · subst hu
    rw [if_pos rfl, Option.getD_some, lookup_put]
    by_cases ho : o = owner
    · subst ho
      simp
    · simp [ho]
  · simp [hu]

theorem affinities_removeAffinity : (affinities (removeAffinity s user owner) u).lookup o =
    if u = user ∧ o = owner then positive (((affinities s u).lookup o).getD 0 - 1)
    else (affinities s u).lookup o := by
  have hread : ∀ left : Map Id ℕ, affinities { s with
      users := if left.keys = [] then s.users.erase user else s.users.insert user left } u =
        if u = user then (if left.keys = [] then ∅ else left) else affinities s u := by
    intro left
    simp only [affinities]
    split
    · rw [lookup_del]
      split <;> rfl
    · rw [lookup_put]
      split <;> rfl
  have hempty : ∀ left : Map Id ℕ, (if left.keys = [] then ∅ else left).lookup o = left.lookup o := by
    intro left
    split
    · rename_i hkeys
      rw [AList.lookup_empty, AList.lookup_eq_none.mpr]
      rw [AList.mem_keys, hkeys]
      exact List.not_mem_nil
    · rfl
  rw [removeAffinity, hread]
  by_cases hu : u = user
  · subst hu
    rw [if_pos rfl, hempty]
    by_cases ho : o = owner
    · subst ho
      simp only [and_self, if_true, positive]
      by_cases hle : ((affinities s u).lookup o).getD 0 ≤ 1
      · rw [if_pos hle, if_pos (by omega), AList.lookup_erase]
      · rw [if_neg hle, if_neg (by omega), AList.lookup_insert]
    · simp only [ho, and_false, if_false]
      split
      · exact AList.lookup_erase_ne ho
      · exact AList.lookup_insert_ne ho
  · rw [if_neg hu, if_neg fun h => hu h.1]

theorem onShard_self {ix : MailboxRecord → Bool} {r : MailboxRecord} (h : onShard ix u o r = true) :
    u = r.userKey ∧ r.owner = some o := by
  simp only [onShard, Bool.and_eq_true, decide_eq_true_eq] at h
  exact ⟨h.1.2.symm, h.2⟩

/-! ### The writes keep the balance -/

variable {m : Id} {r : MailboxRecord} {k : ℤ} {routes : Map Id MailboxRoute}

/-- A new record that is counted for its user on its owner shard. -/
theorem Balanced.enrol (h : Balanced indexed k s) (hnew : s.mailboxes.lookup m = none)
    (hix : indexed r = true) (howner : r.owner = some owner)
    (hroutes : ∀ j, routes.lookup j = if j = m then r.route else s.routes.lookup j) :
    Balanced indexed (k + 1) (counted { s with mailboxes := s.mailboxes.insert m r, routes := routes }
      r.userKey owner) where
  count := by
    have hcount := h.count
    simp only [counted, countWhere_put_new hnew, hix, Bool.toNat_true]
    omega
  routed j := by
    have hj := h.routed j
    simp only [counted, hroutes, lookup_put]
    split
    · rw [Option.bind_some, if_pos hix]
    · exact hj
  affinity u o := by
    rw [affinities_counted]
    simp only [counted, countWhere_put_new hnew]
    have hold : (affinities s u).lookup o = _ := h.affinity u o
    split
    · rename_i hself
      have hon : onShard indexed u o r = true := by simp [onShard, hix, hself.1, hself.2, howner]
      rw [hon, affinities] at *
      rw [show ((s.users.lookup u).getD ∅).lookup o = _ from hold, positive_getD, positive, if_neg (by simp)]
      rfl
    · rename_i hother
      have hoff : onShard indexed u o r = false := by
        by_contra hon
        obtain ⟨hu, ho⟩ := onShard_self (Bool.eq_true_of_not_eq_false hon)
        exact hother ⟨hu, Option.some.inj (ho.symm.trans howner)⟩
      rw [hoff]
      exact hold
  budgets := h.budgets
  bytes := h.bytes

/-- A reservation for a mailbox that has none. -/
theorem Balanced.reserve (h : Balanced indexed k s) {v : Reservation} (hheld : v.held = true)
    (hnew : s.reservations.lookup m = none) :
    Balanced indexed k { s with
      allocationBudgets := s.allocationBudgets.insert v.accountKey
        ((s.allocationBudgets.lookup v.accountKey).getD emptyBudget + v.demand)
      reservedBytes := s.reservedBytes.insert v.shardId
        ((s.reservedBytes.lookup v.shardId).getD 0 + v.demand.reservedBytes)
      reservations := s.reservations.insert m v } where
  count := h.count
  routed := h.routed
  affinity := h.affinity
  budgets account := by
    have hold := h.budgets account
    rw [total_put_new hnew, ← hold, lookup_put]
    split
    · rename_i heq
      rw [onAccount, if_pos ⟨hheld, heq.symm⟩, heq]
      rfl
    · rename_i hne
      rw [onAccount, if_neg fun hv => hne hv.2.symm, add_zero]
  bytes shard := by
    have hold := h.bytes shard
    rw [total_put_new hnew, ← hold, lookup_put]
    split
    · rename_i heq
      rw [bytesOn, if_pos ⟨hheld, heq.symm⟩, heq]
      rfl
    · rename_i hne
      rw [bytesOn, if_neg fun hv => hne hv.2.symm, add_zero]

/-- A live record gets the route of its owner. -/
theorem Balanced.confirm (h : Balanced indexed k s) (hr : s.mailboxes.lookup m = some r)
    (hlive : r.deleted = false) {route : MailboxRoute}
    (howner : r.owner = some route.ownerShardId) :
    Balanced indexed k { s with
      mailboxes := s.mailboxes.insert m { r with route := some route }
      routes := s.routes.insert m route } := by
  have hix : ∀ r' : MailboxRecord, r'.deleted = false → indexed r' = true := by
    intro r' h'
    simp [indexed, live, h']
  have hsame : ∀ u o, onShard indexed u o { r with route := some route } = onShard indexed u o r := by
    intro u o
    simp only [onShard, hix _ hlive, hix { r with route := some route } hlive, howner]
    rfl
  refine ⟨?_, fun j => ?_, fun u o => ?_, h.budgets, h.bytes⟩
  · have hput := countWhere_put (p := indexed) (v := { r with route := some route }) hr
    rw [hix _ hlive, hix { r with route := some route } hlive] at hput
    have hcount := h.count
    simp only
    omega
  · have hj := h.routed j
    simp only [lookup_put]
    split
    · rw [Option.bind_some, if_pos (hix { r with route := some route } hlive)]
    · exact hj
  · have hput := countWhere_put (p := onShard indexed u o) (v := { r with route := some route }) hr
    rw [hsame] at hput
    have hold : (affinities s u).lookup o = _ := h.affinity u o
    rw [← Nat.add_right_cancel hput] at hold
    exact hold

/-- A live record with a settled route is deleted, and leaves every index. -/
theorem Balanced.bury (h : Balanced indexed k s) (hr : s.mailboxes.lookup m = some r)
    (hlive : r.deleted = false) (hsettled : ∀ route, r.route = some route → route.state ≠ .deleting)
    (howner : r.owner = some owner) (epoch : Epoch) :
    Balanced indexed (k - 1) (release { s with
      mailboxes := s.mailboxes.insert m { r with deleted := true, epoch := epoch }
      routes := s.routes.erase m } r) := by
  have hix : indexed r = true := by simp [indexed, live, hlive]
  have hout : indexed { r with deleted := true, epoch := epoch } = false := by
    have hstray : r.route.any (·.state = .deleting) = false := by
      rcases hroute : r.route with _ | route
      · rfl
      · exact decide_eq_false (hsettled route hroute)
    simp only [indexed, live, stray, Bool.not_true, Bool.true_and, Bool.false_or, hstray]
  have hrelease : ∀ s' : Storage δ, release s' r = removeAffinity s' r.userKey owner := by
    intro s'
    rw [release, howner]
  rw [hrelease]
  refine ⟨?_, fun j => ?_, fun u o => ?_, h.budgets, h.bytes⟩
  · have hput := countWhere_put (p := indexed) (v := { r with deleted := true, epoch := epoch }) hr
    rw [hix, hout, Bool.toNat_true, Bool.toNat_false] at hput
    have hcount := h.count
    simp only [removeAffinity]
    omega
  · have hj := h.routed j
    simp only [removeAffinity, lookup_put, lookup_del]
    split
    · rw [Option.bind_some, hout]
      rfl
    · exact hj
  · rw [affinities_removeAffinity]
    have hput := countWhere_put (p := onShard indexed u o)
      (v := { r with deleted := true, epoch := epoch }) hr
    have hoff : onShard indexed u o { r with deleted := true, epoch := epoch } = false := by
      simp [onShard, hout]
    rw [hoff, Bool.toNat_false, Nat.add_zero] at hput
    have hold : (affinities s u).lookup o = _ := h.affinity u o
    simp only [removeAffinity]
    split
    · rename_i hself
      have hon : onShard indexed u o r = true := by simp [onShard, hix, hself.1, hself.2, howner]
      rw [hon, Bool.toNat_true] at hput
      rw [show affinities { s with
        mailboxes := s.mailboxes.insert m { r with deleted := true, epoch := epoch }
        routes := s.routes.erase m } u = affinities s u from rfl, hold, positive_getD, ← hput,
        Nat.add_sub_cancel]
    · rename_i hother
      have hout' : onShard indexed u o r = false := by
        by_contra hon
        obtain ⟨hu, ho⟩ := onShard_self (Bool.eq_true_of_not_eq_false hon)
        exact hother ⟨hu, Option.some.inj (ho.symm.trans howner)⟩
      rw [hout', Bool.toNat_false, Nat.add_zero] at hput
      rw [hput]
      exact hold

/-- A mailbox nobody has seen is barred: its record is deleted from the start. -/
theorem Balanced.bar (h : Balanced indexed k s) (hr : s.mailboxes.lookup m = none) (epoch : Epoch) :
    Balanced indexed k { s with
      mailboxes := s.mailboxes.insert m ⟨js "deleted", none, none, true, epoch⟩
      routes := s.routes.erase m } where
  count := by
    rw [countWhere_put_new hr]
    exact h.count
  routed j := by
    have hj := h.routed j
    simp only [lookup_put, lookup_del]
    split
    · rfl
    · exact hj
  affinity u o := by
    rw [countWhere_put_new hr]
    exact h.affinity u o
  budgets := h.budgets
  bytes := h.bytes

/-! ### The writes keep the records sound -/

theorem Sound.put (h : Sound s) {s' : Storage δ} (hm : s'.mailboxes = s.mailboxes.insert m r)
    (howned : r.deleted = false → r.owner ≠ none)
    (hsettled : r.deleted = false → ∀ route, r.route = some route → route.state ≠ .deleting)
    (hv : ∀ j v, s'.reservations.lookup j = some v → j = m ∨ s.reservations.lookup j = some v) :
    Sound s' where
  owned j r' hr' := by
    rw [hm, lookup_put] at hr'
    split at hr'
    · cases hr'
      exact howned
    · exact h.owned j r' hr'
  settled j r' hr' := by
    rw [hm, lookup_put] at hr'
    split at hr'
    · cases hr'
      exact hsettled
    · exact h.settled j r' hr'
  reserved j v hj := by
    rw [hm, lookup_put]
    split
    · exact Option.some_ne_none _
    · rename_i hne
      exact h.reserved j v ((hv j v hj).resolve_left hne)

variable {c : Action} {x y : RegistryMeta × Storage δ}

theorem Sound.release (h : Sound s) : Sound (release s r) := by
  rw [Fleet.release]
  split
  · exact h
  · exact ⟨h.owned, h.settled, h.reserved⟩

theorem Write.sound (h : Write c x y) (hx : Sound x.2) : Sound y.2 := by
  cases h with
  | configured hc hkeep hnext => exact ⟨hx.owned, hx.settled, hx.reserved⟩
  | measured hp hnext => exact ⟨hx.owned, hx.settled, hx.reserved⟩
  | imported hc he hp howner hnew =>
    refine hx.put rfl (fun _ h => by cases h) (fun hlive route hroute => ?_) fun j v hv => .inr hv
    cases hroute
    simpa using hlive
  | placed hp howner hheld hpending hnew =>
    refine hx.put rfl (fun _ h => by cases h) (fun _ route hroute => by cases hroute) fun j v hv => ?_
    simp only [counted, enrolled, lookup_put] at hv
    split at hv
    · exact .inl ‹_›
    · exact .inr hv
  | confirmed hr hlive hroute hpending hstate howner =>
    refine hx.put rfl (fun _ h => by cases h) (fun _ route hroute => ?_) fun j v hv => .inr hv
    cases hroute
    rw [hstate]
    exact RouteState.noConfusion
  | buried hr hlive =>
    refine Sound.release (hx.put rfl ?_ ?_ fun j v hv => .inr hv)
    · exact fun hdel => by cases hdel
    · exact fun hdel => by cases hdel
  | barred hr =>
    exact hx.put rfl (fun hdel => by cases hdel) (fun hdel => by cases hdel) fun j v hv => .inr hv

theorem Write.balanced (h : Write c x y) (hsound : Sound x.2)
    (hx : Balanced indexed x.1.mailboxCount x.2) : Balanced indexed y.1.mailboxCount y.2 := by
  cases h with
  | configured hc hkeep hnext => exact ⟨hx.count, hx.routed, hx.affinity, hx.budgets, hx.bytes⟩
  | measured hp hnext => exact ⟨hx.count, hx.routed, hx.affinity, hx.budgets, hx.bytes⟩
  | imported hc he hp howner hnew =>
    rename_i entry
    have hin : indexed ⟨entry.userKey, some entry.route, none, entry.route.state = .deleting,
        entry.route.epoch⟩ = true := by
      by_cases hstate : entry.route.state = .deleting <;> simp [indexed, live, stray, hstate]
    exact hx.enrol hnew hin rfl fun j => lookup_put j
  | placed hp howner hheld hpending hnew =>
    rename_i rm s config mailbox user pending v
    have hnone : s.mailboxes.lookup mailbox = none := by
      rcases hr : s.mailboxes.lookup mailbox with _ | r
      · rfl
      · exact absurd (hnew r hr).2 (hsound.owned mailbox r hr (hnew r hr).1)
    have hfree : s.reservations.lookup mailbox = none := by
      rcases hv : s.reservations.lookup mailbox with _ | w
      · rfl
      · exact absurd hnone (hsound.reserved mailbox w hv)
    have hroutes := hx.routed mailbox
    rw [hnone, Option.bind_none] at hroutes
    refine (hx.reserve hheld hfree).enrol (r := ⟨user, none, some pending, false, 1⟩) hnone rfl
      (by rw [← hpending]; rfl) fun j => ?_
    split
    · rename_i heq
      rw [heq, hroutes]
    · rfl
  | confirmed hr hlive hroute hpending hstate howner =>
    exact hx.confirm hr hlive (by rw [MailboxRecord.owner, hroute, hpending, howner]; rfl)
  | buried hr hlive =>
    obtain ⟨owner, howner⟩ := Option.ne_none_iff_exists'.mp (hsound.owned _ _ hr hlive)
    exact hx.bury hr hlive (hsound.settled _ _ hr hlive) howner _
  | barred hr => exact hx.bar hr _

/-! ### Strays come from imports in state `deleting` -/

/-- A deleted record is final. -/
theorem Write.deleted_final (h : Write c x y) (hr : x.2.mailboxes.lookup m = some r)
    (hdel : r.deleted = true) : y.2.mailboxes.lookup m = some r := by
  have hput : ∀ {j : Id} {r' : MailboxRecord} {s : Storage δ}, s.mailboxes.lookup m = some r →
      (∀ q, s.mailboxes.lookup j = some q → q.deleted = false) →
      (s.mailboxes.insert j r').lookup m = some r := by
    intro j r' s hr hj
    rw [lookup_put, if_neg, hr]
    rintro rfl
    have := hj r hr
    rw [hdel] at this
    cases this
  cases h with
  | configured | measured => exact hr
  | imported hc he hp howner hnew => exact hput hr fun q hq => by rw [hnew] at hq; cases hq
  | placed hp howner hheld hpending hnew => exact hput hr fun q hq => (hnew q hq).1
  | confirmed hq hlive =>
    exact hput hr fun q' hq' => by rw [hq] at hq'; cases hq'; exact hlive
  | buried hq hlive =>
    rw [release]
    split <;> exact hput hr fun q' hq' => by rw [hq] at hq'; cases hq'; exact hlive
  | barred hq => exact hput hr fun q' hq' => by rw [hq] at hq'; cases hq'

/-- The command imports a mailbox that is being deleted. -/
def Action.importsDeleting : Action → Bool
  | .import mailboxes => mailboxes.any (·.route.state = .deleting)
  | _ => false

def HasStray (s : Storage δ) : Prop := ∃ m r, s.mailboxes.lookup m = some r ∧ stray r = true

theorem stray_deleted (h : stray r = true) : r.deleted = true := by
  rw [stray, Bool.and_eq_true] at h
  exact h.1

theorem Write.stray_new (h : Write c x y) (hx : Sound x.2) (hy : HasStray y.2) :
    HasStray x.2 ∨ c.importsDeleting = true := by
  obtain ⟨m, r, hr, hstray⟩ := hy
  have hput : ∀ {j : Id} {r' : MailboxRecord} {s : Storage δ},
      (s.mailboxes.insert j r').lookup m = some r → stray r' = false → HasStray s := by
    intro j r' s hr hr'
    rw [lookup_put] at hr
    split at hr
    · cases hr
      rw [hr'] at hstray
      cases hstray
    · exact ⟨m, r, hr, hstray⟩
  cases h with
  | configured | measured => exact .inl ⟨m, r, hr, hstray⟩
  | imported hc he hp howner hnew =>
    rename_i mailboxes entry
    by_cases hstate : entry.route.state = .deleting
    · rw [hc, Action.importsDeleting, List.any_eq_true]
      exact .inr ⟨entry, he, decide_eq_true hstate⟩
    · exact .inl (hput hr (by simp [stray, hstate]))
  | placed => exact .inl (hput hr rfl)
  | confirmed hq hlive => exact .inl (hput hr (by simp [stray, hlive]))
  | buried hq hlive =>
    have hsettled := hx.settled _ _ hq hlive
    rw [release] at hr
    refine .inl (hput (by split at hr <;> exact hr) ?_)
    rename_i q
    rw [stray]
    rcases hroute : q.route with _ | route
    · rfl
    · simpa [hroute] using hsettled route hroute
  | barred => exact .inl (hput hr rfl)

/-- Without strays the records that are indexed are the live ones. -/
theorem Balanced.accounting (h : Balanced indexed k s) (hstray : ¬ HasStray s) : Balanced live k s := by
  have hsame : ∀ m r, s.mailboxes.lookup m = some r → indexed r = live r := by
    intro m r hr
    rcases hst : stray r
    · rw [indexed, hst, Bool.or_false]
    · exact absurd ⟨m, r, hr, hst⟩ hstray
  refine ⟨?_, fun m => ?_, fun u o => ?_, h.budgets, h.bytes⟩
  · rw [h.count, KeyValue.countWhere_congr hsame]
  · rw [h.routed m]
    rcases hr : s.mailboxes.lookup m with _ | r
    · rfl
    · rw [Option.bind_some, Option.bind_some, hsame m r hr]
  · have hshard : ∀ m r, s.mailboxes.lookup m = some r → onShard indexed u o r = onShard live u o r := by
      intro m r hr
      simp only [onShard, hsame m r hr]
    rw [h.affinity u o, KeyValue.countWhere_congr hshard]

/-- A stray record is deleted and still published. -/
theorem HasStray.not_accounting (h : Balanced indexed k s) (hstray : HasStray s) : ¬ Accounting s := by
  rintro hacc
  obtain ⟨m, r, hr, hst⟩ := hstray
  have hpublished := h.routed m
  have hhidden := hacc.routed m
  have hdel := stray_deleted hst
  rw [hpublished, hr, Option.bind_some, Option.bind_some, if_pos (by rw [indexed, hst, Bool.or_true]),
    if_neg (by rw [live, hdel]; decide)] at hhidden
  rw [stray, hdel, hhidden] at hst
  cases hst

theorem importAll_stray {config : FleetConfig} : ∀ {entries : List ImportEntry} {s s' : Storage δ},
    entries.foldlM (importRoute config) s = .ok s' →
    (∃ e ∈ entries, e.route.state = .deleting) ∨ HasStray s → HasStray s'
  | [], s, s', h, hs => by
    cases h
    exact hs.resolve_left fun ⟨_, he, _⟩ => by cases he
  | entry :: entries, s, s', h, hs => by
    rw [List.foldlM_cons] at h
    obtain ⟨s₁, hs₁, h⟩ := bind_ok.mp h
    obtain ⟨_, -, hentry⟩ := bind_ok.mp hs₁
    split at hentry
    · cases hentry
    rename_i hnew
    obtain rfl := counted_ok hentry
    refine importAll_stray h ?_
    rcases hs with ⟨e, he, hstate⟩ | ⟨m, r, hr, hstray⟩
    · rcases List.mem_cons.mp he with rfl | he
      · refine .inr ⟨_, _, AList.lookup_insert _, ?_⟩
        simp [stray, hstate]
      · exact .inl ⟨e, he, hstate⟩
    · refine .inr ⟨m, r, ?_, hstray⟩
      simp only [counted, lookup_put]
      rw [if_neg, hr]
      rintro rfl
      rw [hnew] at hr
      cases hr

variable {fingerprint : Command → δ} {cmd : Command} {mode : FleetMode} {response : Response}
  {rm : RegistryMeta} {s' : Storage δ} {now : ℕ}

/-- A stray record appears exactly when a command that imports one is applied. -/
theorem applyCommand_stray (hs : Sound s)
    (h : applyCommand fingerprint s rm cmd now mode = .ok (response, s')) :
    HasStray s' ↔ HasStray s ∨ cmd.action.importsDeleting = true := by
  obtain ⟨-, -, rm₁, s₁, hexec, rfl⟩ := applyCommand_ok h
  obtain ⟨n, o, a, hprune⟩ := pruneOperations_eq rm s now
  rw [hprune] at hexec
  have hs₀ : Sound { s with operations := o, audit := a } := ⟨hs.owned, hs.settled, hs.reserved⟩
  have hwrites := execute_writes hexec
  constructor
  · intro hstray
    have hrun := writes_invariant (c := cmd.action)
      (I := fun x => Sound x.2 ∧ (HasStray x.2 → HasStray s ∨ cmd.action.importsDeleting = true))
      (fun x y hw ⟨hx, hst⟩ => ⟨hw.sound hx, fun hy => (hw.stray_new hx hy).elim hst .inr⟩)
      hwrites ⟨hs₀, .inl⟩
    exact hrun.2 hstray
  · rintro (⟨m, r, hr, hstray⟩ | himport)
    · have hrun := writes_invariant (c := cmd.action) (I := fun x => x.2.mailboxes.lookup m = some r)
        (fun x y hw hx => hw.deleted_final hx (stray_deleted hstray)) hwrites hr
      exact ⟨m, r, hrun, hstray⟩
    · rcases hc : cmd.action with _ | mailboxes | _ | _ | _ | _ <;> rw [hc] at himport <;>
        try cases himport
      rw [execute, hc] at hexec
      simp only [importRoutes, bind_ok] at hexec
      obtain ⟨config, -, -, -, s₂, hs₂, hexec⟩ := hexec
      simp only [pure, Except.pure, Except.ok.injEq, Prod.mk.injEq] at hexec
      obtain ⟨-, -, rfl⟩ := hexec
      obtain ⟨e, he, hstate⟩ := List.any_eq_true.mp himport
      obtain ⟨m, r, hr, hstray⟩ := importAll_stray hs₂ (.inl ⟨e, he, of_decide_eq_true hstate⟩)
      exact ⟨m, r, hr, hstray⟩

/-! ### Runs -/

theorem Sound.empty : Sound (Storage.empty δ) where
  owned _ _ h := by cases h
  settled _ _ h := by cases h
  reserved _ _ h := by cases h

variable [DecidableEq δ] {τ : List Exchange}

theorem Run.balanced (h : Run fingerprint s τ) : Sound s ∧ Balanced indexed (headerCount s) s := by
  have hrun := h.invariant (I := fun x => Sound x.2 ∧ Balanced indexed x.1.mailboxCount x.2)
    (fun rm s _ _ _ _ _ _ ⟨hs, hb⟩ =>
      ⟨⟨hs.owned, hs.settled, hs.reserved⟩, hb.count, hb.routed, hb.affinity, hb.budgets, hb.bytes⟩)
    (fun _ _ _ hw ⟨hs, hb⟩ => ⟨hw.sound hs, hw.balanced hs hb⟩)
    (fun now => ⟨Sound.empty, rfl, fun _ => rfl, fun _ _ => rfl, fun _ => rfl, fun _ => rfl⟩) 0
  have hcount : (s.registryMeta.getD (emptyMeta 0)).mailboxCount = headerCount s := by
    rw [headerCount]
    cases s.registryMeta <;> rfl
  rwa [hcount] at hrun

theorem Run.stray_iff (h : Run fingerprint s τ) :
    HasStray s ↔ ∃ x ∈ τ, x.applied = true ∧ x.request.command.action.importsDeleting = true := by
  induction h with
  | start =>
    constructor
    · rintro ⟨m, r, hr, -⟩
      cases hr
    · rintro ⟨x, hx, -⟩
      cases hx
  | next r hrun ih =>
    rename_i s τ
    rcases fetch_step fingerprint s r with ⟨hsame, hnot⟩ | ⟨mode, response, -, happly, hx⟩
    · rw [hsame, ih]
      constructor
      · rintro ⟨x, hx, happlied⟩
        exact ⟨x, List.mem_cons_of_mem _ hx, happlied⟩
      · rintro ⟨x, hx, happlied, himport⟩
        rcases List.mem_cons.mp hx with rfl | hx
        · rw [hnot] at happlied
          cases happlied
        · exact ⟨x, hx, happlied, himport⟩
    · rw [applyCommand_stray hrun.balanced.1 happly, ih, hx]
      constructor
      · rintro (⟨x, hmem, happlied⟩ | himport)
        · exact ⟨x, List.mem_cons_of_mem _ hmem, happlied⟩
        · exact ⟨_, List.mem_cons_self, rfl, himport⟩
      · rintro ⟨x, hmem, happlied, himport⟩
        rcases List.mem_cons.mp hmem with rfl | hmem
        · exact .inr himport
        · exact .inl ⟨x, hmem, happlied, himport⟩

/-- In every state of every run the accounting is right exactly if no import that was applied carried a
    route in state `deleting`; and a rejected command changes nothing. -/
theorem accounting_iff (h : Run fingerprint s τ) :
    (Accounting s ↔
      ∀ x ∈ τ, x.applied = true → x.request.command.action.importsDeleting = false) ∧
    ∀ r e, (fetch fingerprint s r).1 = .error e → (fetch fingerprint s r).2 = s := by
  refine ⟨⟨fun hacc x hx happlied => ?_, fun hnone => ?_⟩, fun r e he => fetch_error he⟩
  · by_contra himport
    exact HasStray.not_accounting h.balanced.2
      (h.stray_iff.mpr ⟨x, hx, happlied, Bool.eq_true_of_not_eq_false himport⟩) hacc
  · refine h.balanced.2.accounting fun hstray => ?_
    obtain ⟨x, hx, happlied, himport⟩ := h.stray_iff.mp hstray
    rw [hnone x hx happlied] at himport
    cases himport

/-! ### Two runs: an import in state `active`, and one in state `deleting` -/

def demoConfig : FleetConfig where
  accounts := [⟨js "main", js "provider", true, js "token", 1000, 1000, 1000, none⟩]
  shards := [⟨js "primary", js "main", js "https://a.example", .healthy, 1, 1, 1000, 0, js "db", js "token"⟩]
  primaryShardId := js "primary"
  requiredSchemaVersion := 1
  requiredProtocolVersion := 1
  allocationBudget := ⟨1, 1, 1, 1⟩
  maxMailboxes := 10

def configureDemo : Request := ⟨⟨0, js "configure", .configure demoConfig⟩, none, 0⟩

def importDemo (state : RouteState) : Request where
  command := ⟨1, js "import", .import [⟨⟨js "box", js "primary", 1, state, none, 0⟩, js "user", true⟩]⟩
  mode := none
  now := 1

def configuredDemo : Storage Command := (fetch id (Storage.empty Command) configureDemo).2

def importedDemo (state : RouteState) : Storage Command := (fetch id configuredDemo (importDemo state)).2

theorem importedDemo_run (state : RouteState) : Run id (importedDemo state)
    [exchange id configuredDemo (importDemo state), exchange id (Storage.empty Command) configureDemo] :=
  .next _ (.next _ .start)

theorem accounting_iff_demo : Accounting (importedDemo .active) :=
  (accounting_iff (importedDemo_run .active)).1.mpr (by decide +kernel)

theorem deleting_import_miscounted :
    ¬ ∀ (s : Storage Command) (τ : List Exchange), Run id s τ → Accounting s := by
  intro h
  have hcount := (h _ _ (importedDemo_run .deleting)).count
  revert hcount
  decide +kernel

end OneMail.Fleet
