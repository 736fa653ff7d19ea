import Mathlib
import OneMail.Lib.Membership

/-! The catalog of folders (`upsertFolders` and the heartbeat of `insertEmails`).

    A folder is written again with every discovery and with every batch of its mail. The statement passes over a row
    that already says the same and was synced within the last five minutes. The rows are nonetheless what the last
    writes of each folder make them, but for the time of the last sync. -/

namespace OneMail.Catalog

inductive FolderType
  | inbox
  | sent
  | drafts
  | archive
  | trash
  | spam
  | custom
  deriving DecidableEq

structure FolderState where
  accountId : String
  provider : String
  folder : String
  displayName : String
  providerFolderId : Option String
  uidvalidity : Option ℤ
  folderType : FolderType
  deriving DecidableEq

/-- A row of `mail_account_folders`. -/
structure Row where
  mailAccountId : String
  provider : String
  providerFolderId : Option String
  canonicalName : String
  displayName : Option String
  folderType : FolderType
  uidvalidity : Option ℤ
  lastSyncAt : Option ℕ
  lastError : Option String
  deriving DecidableEq

def folderHeartbeatMs : ℕ := 300000

/-- The columns of the two unique indexes: the provider's id, or the name where there is none. -/
abbrev Key := String × String × (String ⊕ String)

def identity (providerFolderId : Option String) (name : String) : String ⊕ String :=
  match providerFolderId with
  | some id => .inl id
  | none => .inr name

def FolderState.key (f : FolderState) : Key := (f.accountId, f.provider, identity f.providerFolderId f.folder)

def Row.key (r : Row) : Key := (r.mailAccountId, r.provider, identity r.providerFolderId r.canonicalName)

/-- `last_sync_at > ? - 300000` -/
def Row.recent (nowMs : ℕ) (r : Row) : Bool :=
  match r.lastSyncAt with
  | some last => nowMs < last + folderHeartbeatMs
  | none => false

/-- The condition of the `NOT EXISTS`. -/
def Row.Unchanged (f : FolderState) (nowMs : ℕ) (r : Row) : Prop :=
  r.key = f.key ∧ r.canonicalName = f.folder ∧ r.displayName = some f.displayName ∧
    (f.folderType = .custom ∨ r.folderType = f.folderType) ∧ (f.uidvalidity = none ∨ r.uidvalidity = f.uidvalidity) ∧
    r.lastError = none ∧ r.recent nowMs = true

instance decidableUnchanged (f : FolderState) (nowMs : ℕ) (r : Row) : Decidable (r.Unchanged f nowMs) :=
  inferInstanceAs (Decidable (_ ∧ _))

/-- The row of an `INSERT`. -/
def FolderState.row (f : FolderState) (nowMs : ℕ) : Row :=
  ⟨f.accountId, f.provider, f.providerFolderId, f.folder, some f.displayName, f.folderType, f.uidvalidity,
    some nowMs, none⟩

/-- The `DO UPDATE` of either conflict; without an id the name is part of the conflict and stays. -/
def Row.update (f : FolderState) (nowMs : ℕ) (r : Row) : Row :=
  { r with
    canonicalName := f.folder
    displayName := some f.displayName
    folderType := if f.folderType = .custom then r.folderType else f.folderType
    uidvalidity := f.uidvalidity.or r.uidvalidity
    lastSyncAt := some nowMs
    lastError := none }

def upsert (f : FolderState) (nowMs : ℕ) (rows : List Row) : List Row :=
  if ∃ r ∈ rows, r.key = f.key then rows.map fun r => if r.key = f.key then r.update f nowMs else r
  else rows ++ [f.row nowMs]

/-- `buildFolderStatement` -/
def folderStatement (rows : List Row) (nowMs : ℕ) (f : FolderState) : List Row :=
  if ∃ r ∈ rows, r.Unchanged f nowMs then rows else upsert f nowMs rows

/-- A folder and the clock of the call that writes it. -/
abbrev Write := ℕ × FolderState

/-- Any number of calls, each with one clock for its folders. -/
def catalog (rows : List Row) (writes : List Write) : List Row :=
  writes.foldl (fun rows w => folderStatement rows w.1 w.2) rows

def upsertFolders (rows : List Row) (nowMs : ℕ) (folders : List FolderState) : List Row :=
  catalog rows (folders.map fun f => (nowMs, f))

/-! ### What the writes say -/

def rowAt (rows : List Row) (k : Key) : Option Row := rows.find? fun r => r.key = k

/-- A row after a write that is not passed over. -/
def written (w : Write) : Option Row → Row
  | none => w.2.row w.1
  | some r => r.update w.2 w.1

/-- The row that the writes of its folder make of it, none passed over. -/
def latest (k : Key) (first : Option Row) (writes : List Write) : Option Row :=
  writes.foldl (fun o w => if w.2.key = k then some (written w o) else o) first

/-- The rows are the same, the first one synced up to five minutes earlier. -/
structure Fresh (r r' : Row) : Prop where
  same : { r with lastSyncAt := none } = { r' with lastSyncAt := none }
  time : r.lastSyncAt = r'.lastSyncAt ∨
    ∃ a ∈ r.lastSyncAt, ∃ b ∈ r'.lastSyncAt, a ≤ b ∧ b < a + folderHeartbeatMs

section Rows

variable {f : FolderState} {nowMs : ℕ} {rows : List Row}

theorem key_row : (f.row nowMs).key = f.key := rfl

theorem key_update {r : Row} (h : r.key = f.key) : (r.update f nowMs).key = r.key := by
  have hid := congrArg (fun k : Key => k.2.2) h
  simp only [Row.key, Row.update, FolderState.key] at hid ⊢
  rcases hprovider : r.providerFolderId with - | id
  · rw [hprovider] at hid
    rcases hf : f.providerFolderId with - | id'
    · rw [hf] at hid
      rw [identity, identity]
      exact congrArg _ (congrArg _ hid.symm)
    · rw [hf] at hid
      cases hid
  · rfl

theorem key_update_if (r : Row) : (if r.key = f.key then r.update f nowMs else r).key = r.key := by
  split
  · rename_i h
    exact key_update h
  · rfl

theorem keys_upsert : (upsert f nowMs rows).map Row.key =
    if ∃ r ∈ rows, r.key = f.key then rows.map Row.key else rows.map Row.key ++ [f.key] := by
  rw [upsert]
  split
  · rw [List.map_map]
    exact List.map_congr_left fun r _ => key_update_if r
  · rw [List.map_append]
    rfl

theorem nodup_upsert (h : (rows.map Row.key).Nodup) : ((upsert f nowMs rows).map Row.key).Nodup := by
  rw [keys_upsert]
  split
  · exact h
  · rename_i hnone
    refine List.nodup_append.mpr ⟨h, List.nodup_singleton _, ?_⟩
    rintro k hk k' hk' rfl
    rw [List.mem_singleton.mp hk'] at hk
    obtain ⟨r, hr, hkey⟩ := List.mem_map.mp hk
    exact hnone ⟨r, hr, hkey⟩

theorem rowAt_eq_none {k : Key} : rowAt rows k = none ↔ ∀ r ∈ rows, r.key ≠ k := by
  simp only [rowAt, List.find?_eq_none, decide_eq_true_eq, ne_eq]

theorem key_of_rowAt {k : Key} {r : Row} (h : rowAt rows k = some r) : r.key = k :=
  of_decide_eq_true (List.find?_some (p := fun r : Row => decide (r.key = k)) h)

theorem rowAt_of_mem (h : (rows.map Row.key).Nodup) {r : Row} (hr : r ∈ rows) : rowAt rows r.key = some r := by
  rcases hfind : rowAt rows r.key with - | r'
  · exact absurd rfl (rowAt_eq_none.mp hfind r hr)
  · rw [List.inj_on_of_nodup_map h (List.mem_of_find?_eq_some hfind) hr (key_of_rowAt hfind)]

theorem rowAt_update (k : Key) : rowAt (rows.map fun r => if r.key = f.key then r.update f nowMs else r) k =
    (rowAt rows k).map fun r => if r.key = f.key then r.update f nowMs else r := by
  have hkeys : ((fun r : Row => decide (r.key = k)) ∘ fun r => if r.key = f.key then r.update f nowMs else r) =
      fun r => decide (r.key = k) := by
    funext r
    rw [Function.comp_apply, key_update_if]
  rw [rowAt, List.find?_map, hkeys, rowAt]

theorem rowAt_concat (r : Row) (k : Key) :
    rowAt (rows ++ [r]) k = (rowAt rows k).or (if r.key = k then some r else none) := by
  simp only [rowAt, List.find?_append, List.find?_singleton, decide_eq_true_eq]

theorem rowAt_upsert (k : Key) : rowAt (upsert f nowMs rows) k =
    if f.key = k then some (written (nowMs, f) (rowAt rows k)) else rowAt rows k := by
  rw [upsert]
  split
  · rename_i hsome
    rw [rowAt_update]
    rcases hfind : rowAt rows k with - | r
    · obtain ⟨r, hr, hkey⟩ := hsome
      rw [Option.map_none, if_neg fun h => rowAt_eq_none.mp hfind r hr (hkey.trans h)]
    · have hkey : r.key = k := key_of_rowAt hfind
      rw [Option.map_some, hkey]
      by_cases hk : f.key = k
      · rw [if_pos hk, if_pos hk.symm, written]
      · rw [if_neg hk, if_neg fun h => hk h.symm]
  · rename_i hnone
    rw [rowAt_concat, key_row]
    by_cases hk : f.key = k
    · have hfind : rowAt rows k = none :=
        rowAt_eq_none.mpr fun r hr h => hnone ⟨r, hr, h.trans hk.symm⟩
      rw [if_pos hk, if_pos hk, hfind, Option.none_or, written]
    · rw [if_neg hk, if_neg hk, Option.or_none]

end Rows

/-! ### Passing over -/

section Freshness

variable {f : FolderState} {nowMs : ℕ} {r r' : Row}

theorem recent_some (h : r.recent nowMs = true) : ∃ last ∈ r.lastSyncAt, nowMs < last + folderHeartbeatMs := by
  rw [Row.recent] at h
  split at h
  · rename_i last hlast
    exact ⟨last, hlast, of_decide_eq_true h⟩
  · cases h

theorem Fresh.refl (r : Row) : Fresh r r := ⟨rfl, .inl rfl⟩

theorem Fresh.update (h : Fresh r r') : Fresh (r.update f nowMs) (r'.update f nowMs) := by
  have hsame := h.same
  rcases r with ⟨account, provider, id, canonical, display, type, uid, last, error⟩
  rcases r' with ⟨account', provider', id', canonical', display', type', uid', last', error'⟩
  cases hsame
  exact .refl _

/-- A row that is passed over is as if it had been written. -/
theorem Fresh.passed (h : Fresh r r') (hunchanged : r.Unchanged f nowMs) (hbefore : ∀ b ∈ r'.lastSyncAt, b ≤ nowMs) :
    Fresh r (r'.update f nowMs) := by
  obtain ⟨-, hname, hdisplay, htype, huid, herror, hrecent⟩ := hunchanged
  obtain ⟨last, hlast, hfresh⟩ := recent_some hrecent
  have hsame := h.same
  have htime := h.time
  rcases r with ⟨account, provider, id, canonical, display, type, uid, last₁, error⟩
  rcases r' with ⟨account', provider', id', canonical', display', type', uid', last', error'⟩
  cases hsame
  dsimp only at hname hdisplay htype huid herror hlast htime hbefore
  subst hname hdisplay herror
  have htype' : (if f.folderType = .custom then type else f.folderType) = type := by
    rcases htype with h | h
    · rw [if_pos h]
    · rw [← h, ite_self]
  have huid' : f.uidvalidity.or uid = uid := by
    rcases huid with h | h
    · rw [h, Option.none_or]
    · rw [← h, Option.or_self]
  refine ⟨by simp only [Row.update, htype', huid'], .inr ⟨last, hlast, nowMs, rfl, ?_, hfresh⟩⟩
  rcases htime with heq | ⟨a, ha, b, hb, hab, -⟩
  · exact hbefore last (heq ▸ hlast)
  · cases Option.mem_unique hlast ha
    exact hab.trans (hbefore b hb)

end Freshness

/-! ### Runs -/

section Runs

/-- The rows are told apart by their keys, each is fresh, and no time lies ahead. -/
structure Current (nowMs : ℕ) (rows : List Row) (expected : Key → Option Row) : Prop where
  distinct : (rows.map Row.key).Nodup
  fresh : ∀ k, Option.Rel Fresh (rowAt rows k) (expected k)
  past : ∀ k, ∀ r ∈ expected k, ∀ b ∈ r.lastSyncAt, b ≤ nowMs

theorem current_step {nowMs : ℕ} {rows : List Row} {expected : Key → Option Row} (h : Current nowMs rows expected)
    (f : FolderState) : Current nowMs (folderStatement rows nowMs f)
      fun k => if f.key = k then some (written (nowMs, f) (expected k)) else expected k := by
  have hpast : ∀ k, ∀ r ∈ (if f.key = k then some (written (nowMs, f) (expected k)) else expected k),
      ∀ b ∈ r.lastSyncAt, b ≤ nowMs := by
    rintro k r hr b hb
    split at hr
    · cases hr
      have hnow : (written (nowMs, f) (expected k)).lastSyncAt = some nowMs := by
        rcases expected k with - | r <;> rfl
      rw [hnow] at hb
      cases hb
      exact le_rfl
    · exact h.past k r hr b hb
  rw [folderStatement]
  split
  · rename_i hsome
    obtain ⟨r, hr, hunchanged⟩ := hsome
    refine ⟨h.distinct, fun k => ?_, hpast⟩
    by_cases hk : f.key = k
    · subst hk
      have hfresh := h.fresh f.key
      rw [← hunchanged.1, rowAt_of_mem h.distinct hr] at hfresh ⊢
      rw [if_pos rfl]
      rcases he : expected r.key with - | r'
      · rw [he] at hfresh
        cases hfresh
      · rw [he] at hfresh
        cases hfresh with
        | some hfresh => exact .some (hfresh.passed hunchanged (h.past r.key r' he))
    · rw [if_neg hk]
      exact h.fresh k
  · refine ⟨nodup_upsert h.distinct, fun k => ?_, hpast⟩
    rw [rowAt_upsert]
    by_cases hk : f.key = k
    · rw [if_pos hk, if_pos hk]
      have hfresh := h.fresh k
      refine .some ?_
      rcases hrow : rowAt rows k with - | r <;> rcases he : expected k with - | r' <;> rw [hrow, he] at hfresh
      · exact .refl _
      · cases hfresh
      · cases hfresh
      · cases hfresh with
        | some hfresh => exact hfresh.update
    · rw [if_neg hk, if_neg hk]
      exact h.fresh k

theorem current_run {writes : List Write} : ∀ {nowMs : ℕ} {rows : List Row} {expected : Key → Option Row},
    Current nowMs rows expected → (∀ w ∈ writes, nowMs ≤ w.1) → writes.Pairwise (fun v w => v.1 ≤ w.1) →
      ∃ later, Current later (catalog rows writes) fun k => latest k (expected k) writes := by
  induction writes with
  | nil => exact fun h _ _ => ⟨_, h⟩
  | cons w writes ih =>
    intro nowMs rows expected h hlater hsorted
    obtain ⟨hfirst, hrest⟩ := List.pairwise_cons.mp hsorted
    have hnow : Current w.1 rows expected :=
      ⟨h.distinct, h.fresh, fun k r hr b hb => (h.past k r hr b hb).trans (hlater w List.mem_cons_self)⟩
    exact ih (current_step hnow w.2) hfirst hrest

/-- After any calls with clocks that do not run back there is one row for a folder at most, and it is what the
    writes of the folder make it, none passed over, but synced up to five minutes earlier. -/
theorem catalog_current {rows : List Row} {writes : List Write} (hdistinct : (rows.map Row.key).Nodup)
    (hpast : ∀ r ∈ rows, ∀ b ∈ r.lastSyncAt, ∀ w ∈ writes, b ≤ w.1)
    (hsorted : writes.Pairwise fun v w => v.1 ≤ w.1) :
    ((catalog rows writes).map Row.key).Nodup ∧
      ∀ k, Option.Rel Fresh (rowAt (catalog rows writes) k) (latest k (rowAt rows k) writes) := by
  have hrefl : ∀ o : Option Row, Option.Rel Fresh o o := by
    rintro (- | r)
    · exact .none
    · exact .some (.refl r)
  rcases writes with - | ⟨w, writes⟩
  · exact ⟨hdistinct, fun k => hrefl _⟩
  · have hstart : Current w.1 rows (rowAt rows) := ⟨hdistinct, fun k => hrefl _, fun k r hr b hb =>
      hpast r (List.mem_of_find?_eq_some hr) b hb w List.mem_cons_self⟩
    have hlater : ∀ v ∈ w :: writes, w.1 ≤ v.1 := by
      rintro v hv
      rcases List.mem_cons.mp hv with rfl | hv
      · exact le_rfl
      · exact (List.pairwise_cons.mp hsorted).1 v hv
    obtain ⟨later, hcurrent⟩ := current_run hstart hlater hsorted
    exact ⟨hcurrent.distinct, hcurrent.fresh⟩

/-- A discovered junk folder. -/
def junk : FolderState := ⟨"a", "imap", "[Gmail]/Junk", "Junk", none, some 7, .spam⟩

/-- The discovery, and a minute later the heartbeat of its mail, which cannot tell its type. -/
def junkWrites : List Write := [(1000, junk), (61000, { junk with folderType := .custom })]

theorem catalog_current_junk : ((catalog [] junkWrites).map Row.key).Nodup ∧
    ∀ k, Option.Rel Fresh (rowAt (catalog [] junkWrites) k) (latest k (rowAt [] k) junkWrites) :=
  catalog_current List.nodup_nil (fun r hr => absurd hr List.not_mem_nil) (by decide)

end Runs

end OneMail.Catalog
