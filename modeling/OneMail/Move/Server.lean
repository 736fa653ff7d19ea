import Mathlib

/-! An IMAP server, as far as a move of one message needs it.

    A folder is a list of rows with UIDs under one UIDVALIDITY. MOVE is atomic: it takes the row from its folder
    and appends it to the target under the target's next UID. -/

namespace OneMail.Move

/-- A message in a folder; `message` tells messages apart that carry the same Message-ID. -/
structure Row where
  uid : ℤ
  messageId : String
  message : ℕ
  deriving DecidableEq

structure Folder where
  uidvalidity : ℤ
  uidnext : ℤ
  rows : List Row
  uidvalidity_pos : 0 < uidvalidity
  uidnext_pos : 0 < uidnext
  uids : ∀ r ∈ rows, 0 < r.uid ∧ r.uid < uidnext
  nodup : (rows.map Row.uid).Nodup

def Folder.row (f : Folder) (uid : ℤ) : Option Row := f.rows.find? (·.uid = uid)

/-- SEARCH UID. -/
def Folder.searchUid (f : Folder) (uid : ℤ) : List ℤ := (f.rows.filter (·.uid = uid)).map Row.uid

/-- SEARCH HEADER Message-ID, taken as exact. -/
def Folder.searchMessageId (f : Folder) (messageId : String) : List ℤ :=
  (f.rows.filter (·.messageId = messageId)).map Row.uid

def Folder.expunge (f : Folder) (uid : ℤ) : Folder where
  uidvalidity := f.uidvalidity
  uidnext := f.uidnext
  rows := f.rows.filter (·.uid ≠ uid)
  uidvalidity_pos := f.uidvalidity_pos
  uidnext_pos := f.uidnext_pos
  uids r hr := f.uids r (List.mem_of_mem_filter hr)
  nodup := f.nodup.sublist (List.filter_sublist.map _)

def Folder.append (f : Folder) (r : Row) : Folder where
  uidvalidity := f.uidvalidity
  uidnext := f.uidnext + 1
  rows := f.rows ++ [{ r with uid := f.uidnext }]
  uidvalidity_pos := f.uidvalidity_pos
  uidnext_pos := by have h := f.uidnext_pos; omega
  uids r' hr' := by
    have hnext := f.uidnext_pos
    rcases List.mem_append.mp hr' with hr' | hr'
    · have h := f.uids r' hr'
      omega
    · obtain rfl := List.mem_singleton.mp hr'
      exact ⟨hnext, Int.lt_add_one_of_le le_rfl⟩
  nodup := by
    rw [List.map_append, List.nodup_append]
    refine ⟨f.nodup, by simp, fun a ha b hb hab => ?_⟩
    obtain ⟨r', hr', rfl⟩ := List.mem_map.mp ha
    have h := f.uids r' hr'
    simp only [List.map_cons, List.map_nil, List.mem_singleton] at hb
    omega

/-- `moves` are the messages moved so far. -/
structure Server where
  folders : String → Folder
  hasCapability : String → Bool
  moves : List ℕ

def Server.put (s : Server) (name : String) (f : Folder) : Server :=
  { s with folders := Function.update s.folders name f }

/-- UID MOVE; a UID that is not there is passed over. -/
def Server.move (s : Server) (source : String) (uid : ℤ) (target : String) : Server :=
  match (s.folders source).row uid with
  | none => s
  | some r =>
    let s := { s.put source ((s.folders source).expunge uid) with moves := s.moves ++ [r.message] }
    s.put target ((s.folders target).append r)

variable {f : Folder} {s : Server} {r : Row} {uid : ℤ} {source target : String}

/-! ### Rows -/

theorem mem_searchUid : uid ∈ f.searchUid uid ↔ ∃ r, f.row uid = some r := by
  rw [Folder.searchUid, Folder.row, ← Option.isSome_iff_exists, List.find?_isSome]
  constructor
  · intro h
    obtain ⟨r, hr, -⟩ := List.mem_map.mp h
    exact ⟨r, (List.mem_filter.mp hr).1, (List.mem_filter.mp hr).2⟩
  · rintro ⟨r, hr, huid⟩
    exact List.mem_map.mpr ⟨r, List.mem_filter.mpr ⟨hr, huid⟩, by simpa using huid⟩

theorem row_mem (h : f.row uid = some r) : r ∈ f.rows ∧ r.uid = uid :=
  ⟨List.mem_of_find?_eq_some h, by simpa using List.find?_some h⟩

theorem row_unique (h : f.row uid = some r) {r' : Row} (hr' : r' ∈ f.rows) (huid : r'.uid = uid) : r' = r := by
  obtain ⟨hmem, hr⟩ := row_mem h
  exact List.inj_on_of_nodup_map f.nodup hr' hmem (huid.trans hr.symm)

theorem row_expunge : (f.expunge uid).row uid = none := by
  rw [Folder.row, List.find?_eq_none]
  intro r hr
  simpa [Folder.expunge] using (List.mem_filter.mp hr).2

/-- Taking a row leaves the searches for other Message-IDs alone. -/
theorem searchMessageId_expunge (h : f.row uid = some r) {messageId : String} (hid : r.messageId ≠ messageId) :
    (f.expunge uid).searchMessageId messageId = f.searchMessageId messageId := by
  rw [Folder.searchMessageId, Folder.searchMessageId, Folder.expunge, List.filter_filter]
  refine congrArg _ (List.filter_congr fun r' hr' => ?_)
  by_cases huid : r'.uid = uid
  · rw [row_unique h hr' huid]
    simp [hid]
  · simp [huid]

theorem append_rows (f : Folder) (r : Row) : (f.append r).rows = f.rows ++ [{ r with uid := f.uidnext }] := rfl

theorem append_uidvalidity (f : Folder) (r : Row) : (f.append r).uidvalidity = f.uidvalidity := rfl

theorem row_append (h : f.row uid = none) (hne : uid ≠ f.uidnext) : (f.append r).row uid = none := by
  rw [Folder.row, List.find?_eq_none] at h ⊢
  intro r' hr'
  rcases List.mem_append.mp hr' with hr' | hr'
  · exact h r' hr'
  · obtain rfl := List.mem_singleton.mp hr'
    simpa using hne.symm

/-! ### A move -/

@[simp] theorem put_same (s : Server) (name : String) (f : Folder) : (s.put name f).folders name = f :=
  Function.update_self ..

theorem put_other (s : Server) {name other : String} (f : Folder) (h : other ≠ name) :
    (s.put name f).folders other = s.folders other :=
  Function.update_of_ne h ..

/-- The server once the row is taken from the source. -/
def Server.taken (s : Server) (source : String) (uid : ℤ) (r : Row) : Server :=
  { s.put source ((s.folders source).expunge uid) with moves := s.moves ++ [r.message] }

theorem move_eq (h : (s.folders source).row uid = some r) : s.move source uid target =
    (s.taken source uid r).put target (((s.taken source uid r).folders target).append r) := by
  rw [Server.move, h]
  rfl

theorem taken_source : (s.taken source uid r).folders source = (s.folders source).expunge uid := put_same ..

theorem taken_other {name : String} (h : name ≠ source) : (s.taken source uid r).folders name = s.folders name :=
  put_other _ _ h

/-- The row that a move of `r` leaves in the target. -/
def Server.moved (s : Server) (r : Row) (target : String) : Row := { r with uid := (s.folders target).uidnext }

theorem taken_folder (name : String) :
    ((s.taken source uid r).folders name).uidvalidity = (s.folders name).uidvalidity ∧
      ((s.taken source uid r).folders name).uidnext = (s.folders name).uidnext := by
  by_cases h : name = source
  · subst h
    rw [taken_source]
    exact ⟨rfl, rfl⟩
  · rw [taken_other h]
    exact ⟨rfl, rfl⟩

/-- The rows of the target after a move: those that were there, less the moved one, and the moved one anew. -/
theorem move_target (h : (s.folders source).row uid = some r) :
    ((s.move source uid target).folders target).rows =
      ((s.taken source uid r).folders target).rows ++ [s.moved r target] := by
  rw [move_eq h, put_same, append_rows, (taken_folder target).2]
  rfl

theorem moved_mem (h : (s.folders source).row uid = some r) :
    s.moved r target ∈ ((s.move source uid target).folders target).rows := by
  rw [move_target h]
  exact List.mem_append_right _ List.mem_cons_self

theorem move_uidvalidity (name : String) :
    ((s.move source uid target).folders name).uidvalidity = (s.folders name).uidvalidity := by
  cases h : (s.folders source).row uid with
  | none => rw [Server.move, h]
  | some r =>
    rw [move_eq h]
    by_cases hname : name = target
    · subst hname
      rw [put_same, append_uidvalidity, (taken_folder name).1]
    · rw [put_other _ _ hname, (taken_folder name).1]

theorem move_hasCapability : (s.move source uid target).hasCapability = s.hasCapability := by
  rw [Server.move]
  split <;> rfl

theorem move_moves (h : (s.folders source).row uid = some r) :
    (s.move source uid target).moves = s.moves ++ [r.message] := by
  rw [move_eq h]
  rfl

/-- A UID is not given out again: after a move the source has no row under it. -/
theorem move_row : ((s.move source uid target).folders source).row uid = none := by
  cases h : (s.folders source).row uid with
  | none => rw [Server.move, h, h]
  | some r =>
    obtain ⟨hmem, huid⟩ := row_mem h
    have htaken : ((s.taken source uid r).folders source).row uid = none := by
      rw [taken_source]
      exact row_expunge
    rw [move_eq h]
    by_cases hsame : source = target
    · subst hsame
      rw [put_same]
      refine row_append htaken ?_
      rw [(taken_folder source).2, ← huid]
      exact ne_of_lt ((s.folders source).uids r hmem).2
    · rw [put_other _ _ hsame]
      exact htaken

end OneMail.Move
