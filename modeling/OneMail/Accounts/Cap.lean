import OneMail.Accounts.Attribution

/-! The cap on a user's mail accounts.

    A create request inserts its row, counts the user's rows, and deletes its row again if they are too many.
    Rows are appended and never come back, so a row whose request has seen its recount stands among the first
    of the user's rows, as many as the cap allows (`Placed`): whatever is deleted before it only moves it
    further to the front. When no request of the user is about to recount, that is true of the last row. -/

namespace OneMail.Accounts
open JsString Interleave Table

variable {s s' : Store} {c c' : Call} {ev : List Event} {w : World Store Call Event} {user cap : ℕ} {id : JsString}

/-- The user's rows in `user_mail_accounts`. -/
def Store.accountsOf (s : Store) (user : ℕ) : List MailAccountRow := s.accounts.filter (·.userId = user)

/-- The create request of a call, from its first count on. -/
def Call.request : Call → Option CreateRequest
  | .counted r | .checked r => some r
  | .inserted r _ | .overfull r _ | .binding r _ | .looked r _ _ | .ensured r _ _ | .addressed r _ _ _
  | .compared r _ _ _ _ | .unconflicted r _ _ _ _ | .bound r _ | .undoAddress r _ _ | .undoAccount r _ => some r
  | _ => none

/-- The row of a create request that has inserted it and not answered yet. -/
def Call.row : Call → Option JsString
  | .inserted _ id | .overfull _ id | .binding _ id | .looked _ id _ | .ensured _ id _ | .addressed _ id _ _
  | .compared _ id _ _ _ | .unconflicted _ id _ _ _ | .bound _ id | .undoAddress _ id _ | .undoAccount _ id => some id
  | _ => none

/-- A request of the user is between its insert and its answer. -/
def Call.Open (user : ℕ) (c : Call) : Prop := c.row.isSome = true ∧ ∃ r, c.request = some r ∧ r.user = user

/-- The two statements that the cap rests on are answered: the recount, and the deletion after it. -/
def Answered (c : Call) (s' : Store) (c' : Call) : Prop :=
  (∀ r id, c = .inserted r id → c' ≠ .idle) ∧ ∀ r id, c = .overfull r id → ∀ row ∈ s'.accounts, row.id ≠ id

/-- The runs in which the user has one cap and starts within it. -/
def cappedAccounts (user cap : ℕ) : Prog Store Call Event where
  idle := .idle
  init s := (s.accountsOf user).length ≤ cap
  step s c s' c' ev := AccountStep s c s' c' ev ∧ Answered c s' c' ∧
    ∀ r, c.request = some r → r.user = user → r.maxMailAccounts = cap

/-! ### The rows of a user -/

/-- The ids of the user's rows, in the order of their insertion. -/
def Store.idsOf (s : Store) (user : ℕ) : List JsString := (s.accountsOf user).map (·.id)

theorem idsOf_length : (s.idsOf user).length = (s.accountsOf user).length := List.length_map ..

theorem idsOf_deleteWhere (p : MailAccountRow → Bool) :
    (Store.idsOf { s with accounts := deleteWhere p s.accounts } user).Sublist (s.idsOf user) :=
  (List.filter_sublist.filter _).map _

/-- An update that leaves ids and users alone. -/
theorem idsOf_updateWhere (p : MailAccountRow → Bool) (f : MailAccountRow → MailAccountRow)
    (hf : ∀ row, (f row).id = row.id ∧ (f row).userId = row.userId) :
    (Store.idsOf { s with accounts := updateWhere p f s.accounts } user).Sublist (s.idsOf user) := by
  suffices h : Store.idsOf { s with accounts := updateWhere p f s.accounts } user = s.idsOf user by rw [h]
  rw [Store.idsOf, Store.idsOf, Store.accountsOf, Store.accountsOf]
  dsimp only
  induction s.accounts with
  | nil => rfl
  | cons row rows ih =>
    have hrow : (if p row then f row else row).userId = row.userId ∧ (if p row then f row else row).id = row.id := by
      split
      · exact ⟨(hf row).2, (hf row).1⟩
      · exact ⟨rfl, rfl⟩
    rw [updateWhere, List.map_cons, List.filter_cons, List.filter_cons, hrow.1]
    split
    · rw [List.map_cons, List.map_cons, hrow.2]
      exact congrArg _ ih
    · exact ih

/-- What a step does to the user's rows: they become fewer, or a request appends its row. -/
theorem step_idsOf (h : AccountStep s c s' c' ev) (user : ℕ) : (s'.idsOf user).Sublist (s.idsOf user) ∨
    ∃ r id, c' = .inserted r id ∧ r.user = user ∧ s'.idsOf user = s.idsOf user ++ [id] := by
  cases h with
  | @insert r id _ _ =>
    by_cases huser : r.user = user
    · refine .inr ⟨r, id, rfl, huser, ?_⟩
      simp [Store.idsOf, Store.accountsOf, huser]
    · left
      simp [Store.idsOf, Store.accountsOf, huser]
  | retract | undoAccount => exact .inl (idsOf_deleteWhere _)
  | toggle | disable => exact .inl (idsOf_updateWhere _ _ fun _ => ⟨rfl, rfl⟩)
  | erase => exact .inl (idsOf_deleteWhere _)
  | _ => exact .inl (List.Sublist.refl _)

/-! ### A row keeps its place -/

/-- The user's request that inserted the row has still to see its recount, or to delete the row. -/
def Call.Pending (user : ℕ) (id : JsString) : Call → Prop
  | .inserted r id' | .overfull r id' => r.user = user ∧ id' = id
  | _ => False

/-- Each of the user's rows is pending, or among the first that the cap allows. -/
def Placed (user cap : ℕ) (w : World Store Call Event) : Prop :=
  ∀ before id after, w.store.idsOf user = before ++ id :: after →
    (∃ i, (w.pc i).Pending user id) ∨ before.length < cap

/-- In a shorter list the items before an item are some of those before it. -/
theorem sublist_split {α : Type} {l l' before after : List α} {a : α} (h : l'.Sublist l)
    (hl : l' = before ++ a :: after) : ∃ before' after', l = before' ++ a :: after' ∧ before.length ≤ before'.length := by
  subst hl
  obtain ⟨l₁, l₂, rfl, hbefore, htail⟩ := List.append_sublist_iff.mp h
  obtain ⟨r₁, r₂, rfl, ha, -⟩ := List.cons_sublist_iff.mp htail
  obtain ⟨mid, rest, rfl⟩ := List.append_of_mem ha
  refine ⟨l₁ ++ mid, rest ++ r₂, by simp, hbefore.length_le.trans ?_⟩
  simp

/-- A step after which the row of the request that moves is no longer pending has counted it, or removed it. -/
theorem step_settles (h : (cappedAccounts user cap).step s c s' c' ev) (hcap : 0 < cap) (hc : c.Pending user id)
    (hc' : ¬ c'.Pending user id) : (s'.idsOf user).length ≤ cap ∨ id ∉ s'.idsOf user := by
  obtain ⟨hstep, ⟨hanswer, hdeleted⟩, hwithin⟩ := h
  cases c with
  | inserted r id' =>
    obtain ⟨huser, rfl⟩ := hc
    have hmax := hwithin r rfl huser
    cases hstep with
    | fail => exact absurd rfl (hanswer r id' rfl)
    | recount =>
      left
      split at hc'
      · exact absurd ⟨huser, rfl⟩ hc'
      · rename_i hcount
        rw [not_and, hmax] at hcount
        rw [idsOf_length, Store.accountsOf, ← huser]
        exact not_lt.mp (hcount (by omega))
  | overfull r id' =>
    obtain ⟨huser, rfl⟩ := hc
    right
    intro hmem
    obtain ⟨row, hrow, hid⟩ := List.mem_map.mp hmem
    exact hdeleted r id' rfl row (List.mem_filter.mp hrow).1 hid
  | _ => exact hc.elim

theorem placed_of_short (h : (w.store.idsOf user).length ≤ cap) : Placed user cap w := by
  intro before id after hids
  right
  rw [hids, List.length_append, List.length_cons] at h
  omega

/-- The step lemma: every row keeps its place, or moves to the front. -/
theorem placed_step {i : ℕ} (hcap : 0 < cap) (hplaced : Placed user cap w)
    (h : (cappedAccounts user cap).step w.store (w.pc i) s' c' ev) : Placed user cap (w.advance i s' c' ev) := by
  intro before id after hids
  rw [advance_store] at hids
  -- a row that was pending before is pending still, or has just been counted
  have hkept : ∀ j, (w.pc j).Pending user id → (∃ k, ((w.advance i s' c' ev).pc k).Pending user id) ∨ before.length < cap := by
    intro j hj
    by_cases hji : j = i
    · subst hji
      by_cases hc' : c'.Pending user id
      · exact .inl ⟨j, by rwa [advance_pc_self]⟩
      · right
        rcases step_settles h hcap hj hc' with hshort | hgone
        · rw [hids, List.length_append, List.length_cons] at hshort
          omega
        · exact absurd (by rw [hids]; simp) hgone
    · exact .inl ⟨j, by rwa [advance_pc_ne _ _ _ _ hji]⟩
  rcases step_idsOf h.1 user with hsub | ⟨r, id', rfl, huser, happend⟩
  · obtain ⟨before', after', hold, hle⟩ := sublist_split hsub hids
    rcases hplaced before' id after' hold with ⟨j, hj⟩ | hlt
    · exact hkept j hj
    · exact .inr (lt_of_le_of_lt hle hlt)
  · rw [happend] at hids
    rcases List.append_eq_append_iff.mp hids with ⟨mid, hbefore, hmid⟩ | ⟨mid, hold, hmid⟩
    · -- the row that was just inserted
      cases mid with
      | nil =>
        obtain ⟨rfl, -⟩ := List.cons.inj (hmid.symm.trans (List.nil_append _)).symm
        exact .inl ⟨i, by rw [advance_pc_self]; exact ⟨huser, rfl⟩⟩
      | cons a mid => simp at hmid
    · cases mid with
      | nil =>
        obtain ⟨rfl, -⟩ := List.cons.inj hmid
        exact .inl ⟨i, by rw [advance_pc_self]; exact ⟨huser, rfl⟩⟩
      | cons a mid =>
        obtain ⟨rfl, -⟩ := List.cons.inj hmid
        rcases hplaced before id mid hold with ⟨j, hj⟩ | hlt
        · exact hkept j hj
        · exact .inr hlt

theorem placed_run (hcap : 0 < cap) {C : World Store Call Event → ℕ → Prop}
    (h : Reach (cappedAccounts user cap) C w) : Placed user cap w :=
  Reach.invariant (fun s hs => placed_of_short (by rwa [idsOf_length]))
    (fun _ _ _ _ _ _ hplaced _ hst => placed_step hcap hplaced hst) h

theorem pending_open {c : Call} (h : c.Pending user id) : c.Open user := by
  cases c with
  | inserted r id' | overfull r id' => exact ⟨rfl, r, rfl, h.1⟩
  | _ => exact h.elim

/-- When no request of the user is between its insert and its answer, the user is within the cap. -/
theorem within_cap (hcap : 0 < cap) {C : World Store Call Event → ℕ → Prop}
    (h : Reach (cappedAccounts user cap) C w) (hquiet : ∀ i, ¬ (w.pc i).Open user) :
    (w.store.accountsOf user).length ≤ cap := by
  rw [← idsOf_length]
  rcases List.eq_nil_or_concat' (w.store.idsOf user) with hnil | ⟨before, id, hlast⟩
  · rw [hnil]
    exact Nat.zero_le _
  · rcases placed_run hcap h before id [] hlast with ⟨i, hi⟩ | hlt
    · exact absurd (pending_open hi) (hquiet i)
    · rw [hlast, List.length_append]
      exact hlt

/-! ### A created account keeps its row -/

def Store.HasAccount (s : Store) (id : JsString) : Prop := ∃ row ∈ s.accounts, row.id = id

/-- The request that moves does not erase the account in a removal. -/
def Spares (id : JsString) (w : World Store Call Event) (i : ℕ) : Prop :=
  ∀ r, w.pc i = .purgedShard r → r.id ≠ id

/-- The request stands by its row: it will answer success if nothing else happens. -/
def Call.Keeping (id : JsString) (c : Call) : Prop :=
  c.row = some id ∧ (∀ r, c ≠ .overfull r id) ∧ (∀ r addrId, c ≠ .undoAddress r id addrId) ∧ ∀ r, c ≠ .undoAccount r id

/-- A row goes away through the request that holds it, or through a removal. -/
theorem step_hasAccount (h : AccountStep s c s' c' ev) (hid : s.HasAccount id) : s'.HasAccount id ∨
    (∃ r, c = .overfull r id ∨ c = .undoAccount r id) ∨ ∃ r, c = .purgedShard r ∧ r.id = id := by
  obtain ⟨row, hrow, rfl⟩ := hid
  cases h with
  | insert => exact .inl ⟨row, List.mem_append_left _ hrow, rfl⟩
  | @retract r id' =>
    by_cases hid : row.id = id'
    · exact .inr (.inl ⟨r, .inl (by rw [hid])⟩)
    · exact .inl ⟨row, mem_deleteWhere.mpr ⟨hrow, decide_eq_false hid⟩, rfl⟩
  | @undoAccount r id' =>
    by_cases hid : row.id = id'
    · exact .inr (.inl ⟨r, .inr (by rw [hid])⟩)
    · exact .inl ⟨row, mem_deleteWhere.mpr ⟨hrow, by simp [hid]⟩, rfl⟩
  | @toggle user id' enabled _ =>
    exact .inl ⟨_, mem_updateWhere.mpr ⟨row, hrow, rfl⟩, by split <;> rfl⟩
  | @disable r => exact .inl ⟨_, mem_updateWhere.mpr ⟨row, hrow, rfl⟩, by split <;> rfl⟩
  | @erase r =>
    by_cases hid : row.id = r.id
    · exact .inr (.inr ⟨r, rfl, hid.symm⟩)
    · exact .inl ⟨row, mem_deleteWhere.mpr ⟨hrow, by simp [hid]⟩, rfl⟩
  | _ => exact .inl ⟨row, hrow, rfl⟩

theorem rollback_row (r : CreateRequest) (id : JsString) (addrId : ℕ) (created : Bool) :
    (rollback r id addrId created).row = some id := by
  cases created <;> rfl

theorem afterFailure_row (h : (afterFailure c).row = some id) : c.row = some id := by
  cases c with
  | addressed | compared | unconflicted => exact (rollback_row _ _ _ _).symm.trans h
  | binding | looked | ensured | undoAddress => exact h
  | _ => cases h

/-- A request comes to hold a row by inserting it under a new id. -/
theorem step_row (h : AccountStep s c s' c' ev) (hrow : c'.row = some id) :
    c.row = some id ∨ id ∉ s.drawn ∧ id ∈ s'.drawn ∧ s'.HasAccount id := by
  cases h with
  | @insert r id' hid _ =>
    obtain rfl : id' = id := Option.some.inj hrow
    exact .inr ⟨hid, List.mem_cons_self, _, List.mem_append_right _ List.mem_cons_self, rfl⟩
  | fail => exact .inl (afterFailure_row hrow)
  | bindLost => exact .inl ((rollback_row _ _ _ _).symm.trans hrow)
  | compare | bindOld =>
    left
    split at hrow
    · first | exact hrow | exact (rollback_row _ _ _ _).symm.trans hrow
    · first | exact hrow | exact (rollback_row _ _ _ _).symm.trans hrow
  | recount | look | readAddress =>
    left
    (repeat' split at hrow) <;> exact hrow
  | route => split at hrow <;> cases hrow
  | ensureNew | ensureOld | readBinding | bindNew | undoAddress => exact .inl hrow
  | _ => cases hrow

/-- What holds of one account while no removal erases it: its id is drawn once, so one request holds its row
    at most, and none after it was reported; and the row is there as long as the request stands by it. -/
structure Kept (id : JsString) (w : World Store Call Event) : Prop where
  drawn : (∃ i, (w.pc i).row = some id) ∨ .created id ∈ w.trace → id ∈ w.store.drawn
  holder : ∀ i j, (w.pc i).row = some id → (w.pc j).row = some id → i = j
  reported : .created id ∈ w.trace → (∀ i, (w.pc i).row ≠ some id) ∧ w.store.HasAccount id
  keeping : ∀ i, (w.pc i).Keeping id → w.store.HasAccount id

/-- The only step that reports an account is that of the request that has bound its row. -/
theorem step_reported (h : AccountStep s c s' c' ev) (hev : .created id ∈ ev) :
    s' = s ∧ c' = .idle ∧ ∃ r, c = .bound r id := by
  cases h with
  | @report r id' =>
    obtain rfl : id = id' := by simpa using hev
    exact ⟨rfl, rfl, r, rfl⟩
  | purge | latePurge | tombstone => simp at hev
  | _ => cases hev

/-- A request that stands by its row did so before, or has just inserted it. -/
theorem step_keeping (h : AccountStep s c s' c' ev) (hc' : c'.Keeping id) :
    c.Keeping id ∨ s'.HasAccount id := by
  obtain ⟨hrow, hover, haddress, haccount⟩ := hc'
  rcases step_row h hrow with hold | ⟨-, -, hhas⟩
  · refine .inl ⟨hold, fun r hc => ?_, fun r addrId hc => ?_, fun r hc => ?_⟩
    · subst hc
      cases h <;> cases hrow
    · subst hc
      cases h with
      | fail => exact haccount _ rfl
      | undoAddress => exact haccount _ rfl
    · subst hc
      cases h <;> cases hrow
  · exact .inr hhas

theorem kept_step {i : ℕ} (hkept : Kept id w) (hspares : Spares id w i)
    (h : AccountStep w.store (w.pc i) s' c' ev) : Kept id (w.advance i s' c' ev) := by
  -- the account stays unless the request that moves deletes its own row
  have hstays : w.store.HasAccount id → s'.HasAccount id ∨
      ∃ r, w.pc i = .overfull r id ∨ w.pc i = .undoAccount r id := fun hhas => by
    rcases step_hasAccount h hhas with hhas | hown | ⟨r, hr, hid⟩
    · exact .inl hhas
    · exact .inr hown
    · exact absurd hid (hspares r hr)
  have hown : (∃ r, w.pc i = .overfull r id ∨ w.pc i = .undoAccount r id) → (w.pc i).row = some id := by
    rintro ⟨r, hr | hr⟩
    · rw [hr]
      rfl
    · rw [hr]
      rfl
  refine ⟨fun hor => ?_, fun j k hj hk => ?_, fun hev => ?_, fun j hj => ?_⟩
  · rw [advance_store]
    rcases hor with ⟨j, hj⟩ | hev
    · by_cases hji : j = i
      · subst hji
        rw [advance_pc_self] at hj
        rcases step_row h hj with hold | ⟨-, hdrawn, -⟩
        · exact step_drawn h (hkept.drawn (.inl ⟨j, hold⟩))
        · exact hdrawn
      · rw [advance_pc_ne _ _ _ _ hji] at hj
        exact step_drawn h (hkept.drawn (.inl ⟨j, hj⟩))
    · rcases List.mem_append.mp hev with hev | hev
      · obtain ⟨-, -, r, hr⟩ := step_reported h hev
        exact step_drawn h (hkept.drawn (.inl ⟨i, by rw [hr]; rfl⟩))
      · exact step_drawn h (hkept.drawn (.inr hev))
  · -- the mover holds the row of another request only if it did so before
    have hmover : ∀ k, k ≠ i → c'.row = some id → (w.pc k).row ≠ some id := fun k hki hc' hk => by
      rcases step_row h hc' with hold | ⟨hnew, -, -⟩
      · exact hki (hkept.holder k i hk hold)
      · exact hnew (hkept.drawn (.inl ⟨k, hk⟩))
    by_cases hji : j = i
    · by_cases hki : k = i
      · rw [hji, hki]
      · subst hji
        rw [advance_pc_self] at hj
        rw [advance_pc_ne _ _ _ _ hki] at hk
        exact absurd hk (hmover k hki hj)
    · rw [advance_pc_ne _ _ _ _ hji] at hj
      by_cases hki : k = i
      · subst hki
        rw [advance_pc_self] at hk
        exact absurd hj (hmover j hji hk)
      · rw [advance_pc_ne _ _ _ _ hki] at hk
        exact hkept.holder j k hj hk
  · rcases List.mem_append.mp hev with hnow | hbefore
    · obtain ⟨rfl, rfl, r, hr⟩ := step_reported h hnow
      have hrow : (w.pc i).row = some id := by
        rw [hr]
        rfl
      refine ⟨fun j => ?_, hkept.keeping i ⟨hrow, ?_, ?_, ?_⟩⟩
      · by_cases hji : j = i
        · subst hji
          rw [advance_pc_self]
          exact fun hj => nomatch hj
        · rw [advance_pc_ne _ _ _ _ hji]
          exact fun hj => hji (hkept.holder j i hj hrow)
      · rw [hr]
        exact fun _ hr => nomatch hr
      · rw [hr]
        exact fun _ _ hr => nomatch hr
      · rw [hr]
        exact fun _ hr => nomatch hr
    · obtain ⟨hnobody, hhas⟩ := hkept.reported hbefore
      refine ⟨fun j => ?_, (hstays hhas).resolve_right fun hr => hnobody i (hown hr)⟩
      by_cases hji : j = i
      · subst hji
        rw [advance_pc_self]
        intro hc'
        rcases step_row h hc' with hold | ⟨hnew, -, -⟩
        · exact hnobody j hold
        · exact hnew (hkept.drawn (.inr hbefore))
      · rw [advance_pc_ne _ _ _ _ hji]
        exact hnobody j
  · by_cases hji : j = i
    · subst hji
      rw [advance_pc_self] at hj
      rcases step_keeping h hj with hold | hhas
      · refine (hstays (hkept.keeping j hold)).resolve_right ?_
        rintro ⟨r, hr | hr⟩
        · exact hold.2.1 r hr
        · exact hold.2.2.2 r hr
      · exact hhas
    · rw [advance_pc_ne _ _ _ _ hji] at hj
      exact (hstays (hkept.keeping j hj)).resolve_right fun hr => hji (hkept.holder j i hj.1 (hown hr))

theorem kept_run (h : Reach (cappedAccounts user cap) (Spares id) w) : Kept id w := by
  refine Reach.invariant ?_ ?_ h
  · intro s _
    refine ⟨fun hor => ?_, fun i j hi _ => (nomatch hi), fun hev => (nomatch hev), fun i hi => (nomatch hi.1)⟩
    rcases hor with ⟨i, hi⟩ | hev
    · cases hi
    · cases hev
  · intro w i s' l' ev _ hkept hspares hst
    exact kept_step hkept hspares hst.1

/-- The cap holds whenever no request of the user is between its insert and its answer, and an account whose
    request answered success is there unless a removal erased it. -/
theorem account_cap (user cap : ℕ) (hcap : 0 < cap) (w : World Store Call Event) :
    (Reachable (cappedAccounts user cap) w → (∀ i, ¬ (w.pc i).Open user) →
      (w.store.accountsOf user).length ≤ cap) ∧
    ∀ id, Reach (cappedAccounts user cap) (Spares id) w → .created id ∈ w.trace → w.store.HasAccount id :=
  ⟨fun h => within_cap hcap h, fun _ h hev => ((kept_run h).reported hev).2⟩

/-! ### Two overlapping requests -/

def firstRequest : CreateRequest := ⟨1, js "me@example.org", 1⟩

def secondRequest : CreateRequest := ⟨1, js "you@example.org", 1⟩

/-- A step whose answer the cap does not rest on. -/
theorem capped_step (h : AccountStep s c s' c' ev) (hrow : ∀ r id, c ≠ .inserted r id ∧ c ≠ .overfull r id)
    (hcap : ∀ r, c.request = some r → r.maxMailAccounts = cap) : (cappedAccounts user cap).step s c s' c' ev :=
  ⟨h, ⟨fun r id hr => absurd hr (hrow r id).1, fun r id hr => absurd hr (hrow r id).2⟩, fun r hr _ => hcap r hr⟩

theorem capped_idle (h : AccountStep s .idle s' c' ev) : (cappedAccounts user cap).step s .idle s' c' ev :=
  capped_step h (fun _ _ => ⟨fun hc => (nomatch hc), fun hc => (nomatch hc)⟩) fun _ hr => (nomatch hr)

theorem spares_of {i : ℕ} (h : (w.pc i).request.isSome = true ∨ w.pc i = .idle) : Spares id w i := by
  intro r hr
  rw [hr] at h
  rcases h with h | h <;> cases h

/-- Both requests pass the first count; the second one finds itself above the cap and deletes its row. -/
theorem account_cap_overlap : ∃ w : World Store Call Event, .created (js "a1") ∈ w.trace ∧
    w.store.HasAccount (js "a1") ∧ (w.store.accountsOf 1).length ≤ 1 := by
  have h : Reach (cappedAccounts 1 1) (Spares (js "a1")) ⟨emptyStore, fun _ => .idle, []⟩ := .start (Nat.zero_le _)
  have h := h.next 0 (spares_of (.inr rfl)) (capped_idle (.count firstRequest (.inr (by decide))))
  have h := h.next 1 (spares_of (.inr rfl)) (capped_idle (.count secondRequest (.inr (by decide))))
  have h := h.next 0 (spares_of (.inl rfl)) (capped_step (.check (by decide))
    (fun _ _ => ⟨fun hc => (nomatch hc), fun hc => (nomatch hc)⟩) (fun _ hr => by cases hr; rfl))
  have h := h.next 1 (spares_of (.inl rfl)) (capped_step (.check (by decide))
    (fun _ _ => ⟨fun hc => (nomatch hc), fun hc => (nomatch hc)⟩) (fun _ hr => by cases hr; rfl))
  have h := h.next 0 (spares_of (.inl rfl)) (capped_step (.insert (js "a1") (by decide) (by decide))
    (fun _ _ => ⟨fun hc => (nomatch hc), fun hc => (nomatch hc)⟩) (fun _ hr => by cases hr; rfl))
  have h := h.next 0 (spares_of (.inl rfl)) ⟨.recount, ⟨fun _ _ _ => by decide, fun _ _ hr => (nomatch hr)⟩,
    fun _ hr _ => by cases hr; rfl⟩
  have h := h.next 1 (spares_of (.inl rfl)) (capped_step (.insert (js "a2") (by decide) (by decide))
    (fun _ _ => ⟨fun hc => (nomatch hc), fun hc => (nomatch hc)⟩) (fun _ hr => by cases hr; rfl))
  have h := h.next 1 (spares_of (.inl rfl)) ⟨.recount, ⟨fun _ _ _ => by decide, fun _ _ hr => (nomatch hr)⟩,
    fun _ hr _ => by cases hr; rfl⟩
  have h := h.next 1 (spares_of (.inl rfl)) ⟨.retract, ⟨fun _ _ hr => (nomatch hr), fun _ _ hr => by cases hr; decide⟩,
    fun _ hr _ => by cases hr; rfl⟩
  have h := h.next 0 (spares_of (.inl rfl)) (capped_step .look
    (fun _ _ => ⟨fun hc => (nomatch hc), fun hc => (nomatch hc)⟩) (fun _ hr => by cases hr; rfl))
  have h := h.next 0 (spares_of (.inl rfl)) (capped_step (.ensureNew (by decide))
    (fun _ _ => ⟨fun hc => (nomatch hc), fun hc => (nomatch hc)⟩) (fun _ hr => by cases hr; rfl))
  have h := h.next 0 (spares_of (.inl rfl)) (capped_step .readAddress
    (fun _ _ => ⟨fun hc => (nomatch hc), fun hc => (nomatch hc)⟩) (fun _ hr => by cases hr; rfl))
  have h := h.next 0 (spares_of (.inl rfl)) (capped_step .readBinding
    (fun _ _ => ⟨fun hc => (nomatch hc), fun hc => (nomatch hc)⟩) (fun _ hr => by cases hr; rfl))
  have h := h.next 0 (spares_of (.inl rfl)) (capped_step .compare
    (fun _ _ => ⟨fun hc => (nomatch hc), fun hc => (nomatch hc)⟩) (fun _ hr => by cases hr; rfl))
  have h := h.next 0 (spares_of (.inl rfl)) (capped_step (.bindNew (by decide))
    (fun _ _ => ⟨fun hc => (nomatch hc), fun hc => (nomatch hc)⟩) (fun _ hr => by cases hr; rfl))
  have h := h.next 0 (spares_of (.inl rfl)) (capped_step .report
    (fun _ _ => ⟨fun hc => (nomatch hc), fun hc => (nomatch hc)⟩) (fun _ hr => by cases hr; rfl))
  refine ⟨_, by decide, (account_cap 1 1 Nat.one_pos _).2 _ h (by decide),
    (account_cap 1 1 Nat.one_pos _).1 h.reachable fun i hi => ?_⟩
  have hrow := hi.1
  by_cases h0 : i = 0
  · subst h0
    cases hrow
  · by_cases h1 : i = 1
    · subst h1
      cases hrow
    · simp [World.advance, Function.update, h0, h1, Call.row] at hrow

end OneMail.Accounts
